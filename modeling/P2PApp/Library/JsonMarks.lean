import P2PApp.Library.Json

/-!
# Quotation marks in JSON texts

Every string of a value has two quotation marks in each text of the value, and no other quotation
mark there is unescaped. To count them one need not know where strings begin, only whether the unit
before was a backslash. So the marks of a text can be counted piece by piece, wherever it is cut,
and a piece that is itself a text has at least as many of them as the strings of its value need.
-/

namespace P2PApp.Json

open JsonString Utf8

/-- The unescaped quotation marks of a text, from a unit on that is escaped or not. -/
def marks : Bool → JSString → ℕ
  | _, [] => 0
  | true, _ :: rest => marks false rest
  | false, unit :: rest =>
    (if unit = quotationMark then 1 else 0) + marks (unit = reverseSolidus) rest

/-- Whether the unit after the text is escaped. -/
def escapedAfter : Bool → JSString → Bool
  | escaped, [] => escaped
  | true, _ :: rest => escapedAfter false rest
  | false, unit :: rest => escapedAfter (unit = reverseSolidus) rest

def escapeLetters : List CodeUnit := letterU :: shortLetters

/-- All escapes of the text are complete and have a letter. -/
def Escapes : Bool → JSString → Prop
  | escaped, [] => escaped = false
  | true, letter :: rest => letter ∈ escapeLetters ∧ Escapes false rest
  | false, unit :: rest => Escapes (unit = reverseSolidus) rest

theorem marks_append (escaped : Bool) (left right : JSString) :
    marks escaped (left ++ right) =
      marks escaped left + marks (escapedAfter escaped left) right := by
  induction left generalizing escaped with
  | nil => simp [marks, escapedAfter]
  | cons unit left ih => cases escaped <;> simp [marks, escapedAfter, ih, Nat.add_assoc]

theorem escapes_append (escaped : Bool) (left right : JSString) (hright : Escapes false right)
    (hleft : Escapes escaped left) : Escapes escaped (left ++ right) := by
  induction left generalizing escaped with
  | nil =>
    rw [Escapes] at hleft
    exact hleft ▸ hright
  | cons unit left ih =>
    cases escaped with
    | false => exact ih _ hleft
    | true => exact ⟨hleft.1, ih _ hleft.2⟩

theorem Escapes.drop {escaped : Bool} {left right : JSString}
    (h : Escapes escaped (left ++ right)) : Escapes (escapedAfter escaped left) right := by
  induction left generalizing escaped with
  | nil => exact h
  | cons unit left ih =>
    cases escaped with
    | false => exact ih h
    | true => exact ih h.2

theorem Escapes.escapedAfter_eq {escaped : Bool} {text : JSString} (h : Escapes escaped text) :
    escapedAfter escaped text = false := by
  have hrest := @Escapes.drop escaped text [] (by rwa [List.append_nil])
  exact hrest

/-- The characters below `0x80` of a text have complete escapes and so many quotation marks. -/
structure Marked (text : JSString) (count : ℕ) : Prop where
  escapes : Escapes false (asciiPart text)
  marks : marks false (asciiPart text) = count

theorem marked_nil : Marked [] 0 := ⟨rfl, rfl⟩

theorem Marked.append {left right : JSString} {first second : ℕ} (hleft : Marked left first)
    (hright : Marked right second) : Marked (left ++ right) (first + second) where
  escapes := by
    rw [asciiPart_append]
    exact escapes_append _ _ _ hright.escapes hleft.escapes
  marks := by
    rw [asciiPart_append, marks_append, hleft.escapes.escapedAfter_eq, hleft.marks, hright.marks]

/-- A unit that is neither a quotation mark nor a backslash. -/
def Plain (unit : CodeUnit) : Prop := unit ≠ quotationMark ∧ unit ≠ reverseSolidus

instance : DecidablePred Plain := fun _ ↦ inferInstanceAs (Decidable (_ ∧ _))

theorem Plain.marked {unit : CodeUnit} (h : Plain unit) : Marked [unit] 0 := by
  have hpart : asciiPart [unit] = [unit] ∨ asciiPart [unit] = [] := by
    rw [asciiPart_cons]
    split
    · exact .inl rfl
    · exact .inr rfl
  rcases hpart with hpart | hpart
  · constructor
    · rw [hpart, Escapes, Escapes]
      exact decide_eq_false h.2
    · rw [hpart, Json.marks, if_neg h.1, Json.marks]
  · constructor
    · rw [hpart]
      rfl
    · rw [hpart]
      rfl

theorem Plain.marked_cons {unit : CodeUnit} (hunit : Plain unit) {text : JSString} {count : ℕ}
    (h : Marked text count) : Marked (unit :: text) count := by
  rw [← Nat.zero_add count]
  exact hunit.marked.append h

theorem marked_of_plain {text : JSString} (h : ∀ unit ∈ text, Plain unit) : Marked text 0 := by
  induction text with
  | nil => exact marked_nil
  | cons unit rest ih =>
    have hrest := ih fun other hother ↦ h other (List.mem_cons_of_mem _ hother)
    exact (h unit (List.mem_cons_self ..)).marked_cons hrest

theorem marked_quotationMark : Marked [quotationMark] 1 := ⟨rfl, rfl⟩

theorem marked_escape {letter : CodeUnit} (h : letter ∈ escapeLetters) :
    Marked [reverseSolidus, letter] 0 := by
  have hletters : escapeLetters.all (fun other ↦ other.toNat < 0x80) = true := by decide
  have hsmall : letter.toNat < 0x80 := of_decide_eq_true (List.all_eq_true.1 hletters letter h)
  have hpart : asciiPart [reverseSolidus, letter] = [reverseSolidus, letter] := by
    rw [asciiPart_cons, asciiPart_cons, if_pos (by decide), if_pos hsmall]
    rfl
  constructor
  · rw [hpart]
    exact ⟨h, rfl⟩
  · rw [hpart]
    rfl

/-! ## What the reader consumes -/

/-- A result that is built from another one leaves the same behind. -/
theorem exists_of_map_fst {α β : Type} {read : Option (α × JSString)} {build : α → β} {value : β}
    {tail : JSString}
    (h : (read.map fun (part, rest) ↦ (build part, rest)) = some (value, tail)) :
    ∃ part, read = some (part, tail) ∧ build part = value := by
  obtain ⟨⟨part, rest⟩, hread, heq⟩ := Option.map_eq_some_iff.1 h
  obtain ⟨rfl, rfl⟩ := Prod.mk.injEq .. ▸ heq
  exact ⟨part, hread, rfl⟩

theorem plain_of_hexDigitValue {unit : CodeUnit} {value : ℕ} (h : hexDigitValue unit = some value) :
    Plain unit := by
  constructor
  · rintro rfl
    cases h
  · rintro rfl
    cases h

theorem plain_of_hexUnit {first second third fourth unit : CodeUnit}
    (h : hexUnit first second third fourth = some unit) :
    ∀ digit ∈ [first, second, third, fourth], Plain digit := by
  unfold hexUnit at h
  split at h
  · rename_i hfirst hsecond hthird hfourth
    simp only [List.forall_mem_cons, List.not_mem_nil, false_implies, implies_true, and_true]
    exact ⟨plain_of_hexDigitValue hfirst, plain_of_hexDigitValue hsecond,
      plain_of_hexDigitValue hthird, plain_of_hexDigitValue hfourth⟩
  · cases h

/-- A string is read up to its first unescaped quotation mark, whatever follows. -/
theorem readChars_spec {text value tail : JSString} (h : readChars text = some (value, tail)) :
    ∃ body, text = body ++ quotationMark :: tail ∧ Marked body 0 ∧
      ∀ more, readChars (body ++ quotationMark :: more) = some (value, more) := by
  fun_induction readChars text generalizing value with
  | case2 rest =>
    obtain ⟨rfl, rfl⟩ := Prod.mk.injEq .. ▸ Option.some.inj h
    exact ⟨[], rfl, marked_nil, readChars_quotationMark⟩
  | case4 first second third fourth rest unit hunit hne ih =>
    obtain ⟨chars, hread, rfl⟩ := exists_of_map_fst h
    obtain ⟨body, rfl, hmarked, hmore⟩ := ih hread
    refine ⟨[reverseSolidus, letterU] ++ ([first, second, third, fourth] ++ body), by simp, ?_, ?_⟩
    · have hdigits := marked_of_plain (plain_of_hexUnit hunit)
      have hescape : Marked [reverseSolidus, letterU] 0 := marked_escape (List.mem_cons_self ..)
      exact hescape.append (hdigits.append hmarked)
    · intro more
      simp only [List.cons_append, List.nil_append, readChars_letterU hunit, hmore, Option.map_some]
  | case7 letter rest hne hshort _ ih =>
    obtain ⟨chars, hread, rfl⟩ := exists_of_map_fst h
    obtain ⟨body, rfl, hmarked, hmore⟩ := ih hread
    refine ⟨[reverseSolidus, letter] ++ body, by simp, ?_, ?_⟩
    · exact (marked_escape (List.mem_cons_of_mem _ hshort)).append hmarked
    · intro more
      simp only [List.cons_append, List.nil_append, readChars_letter hshort, hmore, Option.map_some]
  | case10 unit rest hquote hsolidus hcontrol ih =>
    obtain ⟨chars, hread, rfl⟩ := exists_of_map_fst h
    obtain ⟨body, rfl, hmarked, hmore⟩ := ih hread
    have hplain : Plain unit := ⟨hquote, hsolidus⟩
    refine ⟨unit :: body, by simp, hplain.marked_cons hmarked, ?_⟩
    intro more
    rw [List.cons_append, readChars_plain hquote hsolidus hcontrol, hmore,
      Option.map_some]
  | _ => cases h

/-! ## Spaces -/

def Spaces (text : JSString) : Prop := ∀ unit ∈ text, isSpace unit = true

theorem spaces_nil : Spaces [] := fun _ h ↦ by cases h

theorem Spaces.marked {spaces : JSString} (h : Spaces spaces) : Marked spaces 0 := by
  apply marked_of_plain
  intro unit hunit
  have hspace := h unit hunit
  constructor
  · rintro rfl
    exact absurd hspace (by decide)
  · rintro rfl
    exact absurd hspace (by decide)

theorem Spaces.marked_append {spaces text : JSString} (hspaces : Spaces spaces) {count : ℕ}
    (h : Marked text count) : Marked (spaces ++ text) count := by
  rw [← Nat.zero_add count]
  exact hspaces.marked.append h

theorem skip_spaces_append {spaces : JSString} (h : Spaces spaces) (text : JSString) :
    skip (spaces ++ text) = skip text := List.dropWhile_append_of_pos h

theorem skip_spaces_cons {spaces : JSString} (h : Spaces spaces) {unit : CodeUnit}
    (hunit : isSpace unit = false) (rest : JSString) :
    skip (spaces ++ unit :: rest) = unit :: rest := by
  rw [skip_spaces_append h, skip_cons hunit]

theorem exists_spaces (text : JSString) : ∃ spaces, Spaces spaces ∧ text = spaces ++ skip text :=
  ⟨text.takeWhile isSpace, List.all_eq_true.1 List.all_takeWhile,
    List.takeWhile_append_dropWhile.symm⟩

theorem exists_spaces_cons {text rest : JSString} {unit : CodeUnit}
    (h : skip text = unit :: rest) :
    ∃ spaces, Spaces spaces ∧ isSpace unit = false ∧ text = spaces ++ unit :: rest := by
  obtain ⟨spaces, hspaces, htext⟩ := exists_spaces text
  have hunit := List.head?_dropWhile_not isSpace text
  rw [show text.dropWhile isSpace = unit :: rest from h] at hunit
  exact ⟨spaces, hspaces, hunit, h ▸ htext⟩

theorem Spaces.ends {spaces : JSString} (h : Spaces spaces) {unit : CodeUnit}
    (hunit : isNumeralUnit unit = false) (rest : JSString) : Ends (spaces ++ unit :: rest) := by
  cases spaces with
  | nil => exact ends_of_not hunit rest
  | cons first others =>
    apply ends_of_not
    have hspace := h first (List.mem_cons_self ..)
    rw [← Bool.not_eq_true]
    intro hnumeral
    rw [(starts_of_isNumeralUnit hnumeral).1] at hspace
    cases hspace

end P2PApp.Json
