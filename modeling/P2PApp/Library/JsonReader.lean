import P2PApp.Library.JsonMarks

/-!
# What the reader of JSON texts consumes

The part of a text that the reader consumes for a value is read again as this value with anything
behind it, as long as a number is not continued, and its quotation marks are those of the strings in
the value. A text that was written is such a part, so that `JSON.parse` undoes `JSON.stringify`, and
a text that is parsed is one between spaces.
-/

namespace P2PApp.Json

open JsonString Utf8

/-! ## The strings of a value -/

variable {N : Type}

mutual

/-- The number of strings in a value, those of the keys included. -/
def strings : Json N → ℕ
  | string _ => 1
  | array items => stringsItems items
  | object fields => stringsFields fields
  | _ => 0

def stringsItems : List (Json N) → ℕ
  | [] => 0
  | value :: rest => strings value + stringsItems rest

def stringsFields : List (JSString × Json N) → ℕ
  | [] => 0
  | (_, value) :: rest => 1 + strings value + stringsFields rest

end

/-! ## Words and numbers -/

variable (numerals : Numerals N)

theorem readWord_spec {word : JSString} {value read : Json N} {text tail : JSString}
    (h : readWord word value text = some (read, tail)) : read = value ∧ text = word ++ tail := by
  unfold readWord at h
  split at h
  · rename_i hprefix
    obtain ⟨rest, rfl⟩ := List.isPrefixOf_iff_prefix.1 hprefix
    rw [List.drop_left] at h
    obtain ⟨rfl, rfl⟩ := Prod.mk.injEq .. ▸ Option.some.inj h
    exact ⟨rfl, rfl⟩
  · cases h

theorem readNumber_spec {text tail : JSString} {value : Json N}
    (h : readNumber numerals text = some (value, tail)) :
    ∃ token, text = token ++ tail ∧ isNumeral token = true ∧
      value = number (numerals.value token) := by
  unfold readNumber at h
  split at h
  · rename_i hnumeral
    obtain ⟨rfl, rfl⟩ := Prod.mk.injEq .. ▸ Option.some.inj h
    exact ⟨_, List.takeWhile_append_dropWhile.symm, hnumeral, rfl⟩
  · cases h

theorem plain_of_isNumeralUnit {unit : CodeUnit} (h : isNumeralUnit unit = true) : Plain unit := by
  constructor
  · rintro rfl
    exact absurd h (by decide)
  · rintro rfl
    exact absurd h (by decide)

/-- The value is a word or a number. -/
def isAtom : Json N → Bool
  | null | bool _ | number _ => true
  | string _ | array _ | object _ => false

def StartsAtom (unit : CodeUnit) : Prop :=
  Starts unit ∧ unit ≠ quotationMark ∧ unit ≠ 0x5B ∧ unit ≠ 0x7B

instance : DecidablePred StartsAtom := fun _ ↦ inferInstanceAs (Decidable (_ ∧ _))

/-- The text of a word or of a number, which is read wherever it stands. -/
structure AtomText (unit : CodeUnit) (rest : JSString) (value : Json N) : Prop where
  starts : StartsAtom unit
  plain : (unit :: rest).all (fun other ↦ decide (Plain other)) = true
  atom : value.isAtom = true
  reads : ∀ more, (value.isNumber = true → Ends more) →
    readAtom numerals (unit :: (rest ++ more)) = some (value, more)

theorem atomText_null : AtomText numerals 0x6E [0x75, 0x6C, 0x6C] (null : Json N) where
  starts := by decide
  plain := by decide
  atom := rfl
  reads := fun more _ ↦ readAtom_null numerals more

theorem atomText_true : AtomText numerals 0x74 [0x72, 0x75, 0x65] (bool true : Json N) where
  starts := by decide
  plain := by decide
  atom := rfl
  reads := fun more _ ↦ readAtom_true numerals more

theorem atomText_false : AtomText numerals 0x66 [0x61, 0x6C, 0x73, 0x65] (bool false : Json N) where
  starts := by decide
  plain := by decide
  atom := rfl
  reads := fun more _ ↦ readAtom_false numerals more

theorem atomText_number {unit : CodeUnit} {rest : JSString} (h : isNumeral (unit :: rest) = true) :
    AtomText numerals unit rest (number (numerals.value (unit :: rest))) := by
  have hall := isNumeralUnit_of_mem h
  have hunit := hall unit (List.mem_cons_self ..)
  have hne (other : CodeUnit) (hother : isNumeralUnit other = false) : unit ≠ other := by
    rintro rfl
    rw [hunit] at hother
    cases hother
  constructor
  · exact ⟨starts_of_isNumeralUnit hunit, hne _ (by decide), hne _ (by decide), hne _ (by decide)⟩
  · exact List.all_eq_true.2 fun other hother ↦
      decide_eq_true (plain_of_isNumeralUnit (hall other hother))
  · rfl
  · intro more hends
    rw [readAtom_of_isNumeralUnit numerals hunit, ← List.cons_append,
      readNumber_token numerals h (hends rfl)]

theorem readAtom_spec {text tail : JSString} {value : Json N}
    (h : readAtom numerals text = some (value, tail)) :
    ∃ unit rest, text = unit :: (rest ++ tail) ∧ AtomText numerals unit rest value := by
  unfold readAtom at h
  rcases (Option.orElse_eq_some _ _ _).1 h with htrue | ⟨-, h⟩
  · obtain ⟨rfl, rfl⟩ := readWord_spec htrue
    exact ⟨_, _, rfl, atomText_true numerals⟩
  rcases (Option.orElse_eq_some _ _ _).1 h with hfalse | ⟨-, h⟩
  · obtain ⟨rfl, rfl⟩ := readWord_spec hfalse
    exact ⟨_, _, rfl, atomText_false numerals⟩
  rcases (Option.orElse_eq_some _ _ _).1 h with hnull | ⟨-, hnumber⟩
  · obtain ⟨rfl, rfl⟩ := readWord_spec hnull
    exact ⟨_, _, rfl, atomText_null numerals⟩
  · obtain ⟨token, rfl, hnumeral, rfl⟩ := readNumber_spec numerals hnumber
    obtain ⟨unit, rest, rfl⟩ := List.exists_cons_of_ne_nil (token_ne_nil hnumeral)
    exact ⟨unit, rest, rfl, atomText_number numerals hnumeral⟩

/-! ## Values -/

/-- The text of a value as it is read with so many steps, and with more. -/
structure ValueText (fuel : ℕ) (used : JSString) (value : Json N) : Prop where
  starts : ∃ unit rest, skip used = unit :: rest ∧ Starts unit
  marked : Marked used (2 * strings value)
  braces : ∀ fields, value = object fields →
    (∃ rest, skip used = 0x7B :: rest) ∧ ∃ front, used = front ++ [0x7D]
  reads : ∀ {more fuel'}, fuel ≤ fuel' → (value.isNumber = true → Ends more) →
    readValue numerals fuel' (used ++ more) = some (value, more)

/-- The text of some items with the closing bracket. -/
structure ItemsText (fuel : ℕ) (used : JSString) (items : List (Json N)) : Prop where
  starts : ∃ unit rest, skip used = unit :: rest ∧ Starts unit
  marked : Marked used (2 * stringsItems items)
  reads : ∀ {more fuel'}, fuel ≤ fuel' →
    readItems numerals fuel' (used ++ more) = some (items, more)

/-- The text of some properties with the closing brace. -/
structure FieldsText (fuel : ℕ) (used : JSString) (fields : List (JSString × Json N)) :
    Prop where
  starts : ∃ rest, skip used = quotationMark :: rest
  closes : ∃ front, used = front ++ [0x7D]
  marked : Marked used (2 * stringsFields fields)
  reads : ∀ {more fuel'}, fuel ≤ fuel' →
    readFields numerals fuel' (used ++ more) = some (fields, more)

theorem exists_succ_of_le {fuel fuel' : ℕ} (h : fuel + 1 ≤ fuel') :
    ∃ steps, fuel' = steps + 1 ∧ fuel ≤ steps := ⟨fuel' - 1, by omega, by omega⟩

theorem skip_append {used rest : JSString} {unit : CodeUnit} (h : skip used = unit :: rest)
    (more : JSString) : skip (used ++ more) = unit :: (rest ++ more) := by
  obtain ⟨spaces, hspaces, hunit, rfl⟩ := exists_spaces_cons h
  rw [List.append_assoc, List.cons_append, skip_spaces_cons hspaces hunit]

variable {numerals} {fuel : ℕ} {used : JSString}

theorem ValueText.spaces {value : Json N} (h : ValueText numerals fuel used value)
    {spaces : JSString} (hspaces : Spaces spaces) :
    ValueText numerals fuel (spaces ++ used) value where
  starts := by
    rw [skip_spaces_append hspaces]
    exact h.starts
  marked := hspaces.marked_append h.marked
  braces := by
    intro fields hfields
    obtain ⟨hopen, front, hclose⟩ := h.braces fields hfields
    rw [skip_spaces_append hspaces, hclose, ← List.append_assoc]
    exact ⟨hclose ▸ hopen, _, rfl⟩
  reads := by
    intro more fuel' hfuel hends
    have hread := h.reads hfuel hends
    cases fuel' with
    | zero => cases hread
    | succ steps =>
      rw [readValue] at hread
      rw [List.append_assoc, readValue, skip_spaces_append hspaces]
      exact hread

theorem AtomText.valueText {unit : CodeUnit} {rest : JSString} {value : Json N}
    (h : AtomText numerals unit rest value) :
    ValueText numerals (fuel + 1) (unit :: rest) value where
  starts := ⟨unit, rest, skip_cons h.starts.1.1 rest, h.starts.1⟩
  marked := by
    have hstrings : strings value = 0 := by
      cases value with
      | null | bool | number => rfl
      | string | array | object => cases h.atom
    rw [hstrings]
    exact marked_of_plain fun other hother ↦
      of_decide_eq_true (List.all_eq_true.1 h.plain other hother)
  braces := by
    rintro fields rfl
    cases h.atom
  reads := by
    intro more fuel' hfuel hends
    obtain ⟨steps, rfl, -⟩ := exists_succ_of_le hfuel
    obtain ⟨⟨hspace, -⟩, hquote, hbracket, hbrace⟩ := h.starts
    rw [List.cons_append, readValue_atom numerals hspace hquote hbracket hbrace, h.reads more hends]

theorem valueText_string {body value : JSString} (hmarked : Marked body 0)
    (hreads : ∀ more, readChars (body ++ quotationMark :: more) = some (value, more)) :
    ValueText numerals (fuel + 1) (quotationMark :: (body ++ [quotationMark])) (string value) where
  starts := ⟨quotationMark, _, skip_cons (by decide) _, by decide⟩
  marked := marked_quotationMark.append (hmarked.append marked_quotationMark)
  braces := fun _ h ↦ by cases h
  reads := by
    intro more fuel' hfuel _
    obtain ⟨steps, rfl, -⟩ := exists_succ_of_le hfuel
    rw [List.cons_append, List.append_assoc, readValue, skip_cons (by decide)]
    simp only [if_true, List.singleton_append, hreads, Option.map_some]

theorem valueText_array_nil {spaces : JSString} (hspaces : Spaces spaces) :
    ValueText numerals (fuel + 1) (0x5B :: (spaces ++ [0x5D])) (array []) where
  starts := ⟨0x5B, _, skip_cons (by decide) _, by decide⟩
  marked := Plain.marked_cons (by decide) (hspaces.marked_append (Plain.marked (by decide)))
  braces := fun _ h ↦ by cases h
  reads := by
    intro more fuel' hfuel _
    obtain ⟨steps, rfl, -⟩ := exists_succ_of_le hfuel
    rw [List.cons_append, List.append_assoc, readValue, skip_cons (by decide)]
    simp only [show (0x5B : CodeUnit) ≠ quotationMark by decide, if_true, if_false,
      List.singleton_append]
    rw [skip_spaces_cons hspaces (by decide)]
    rfl

theorem ItemsText.valueText {items : List (Json N)} (h : ItemsText numerals fuel used items) :
    ValueText numerals (fuel + 1) (0x5B :: used) (array items) where
  starts := ⟨0x5B, _, skip_cons (by decide) _, by decide⟩
  marked := Plain.marked_cons (by decide) h.marked
  braces := fun _ h ↦ by cases h
  reads := by
    intro more fuel' hfuel _
    obtain ⟨steps, rfl, hsteps⟩ := exists_succ_of_le hfuel
    obtain ⟨unit, rest, hskip, hstarts⟩ := h.starts
    rw [List.cons_append, readValue, skip_cons (by decide)]
    simp only [show (0x5B : CodeUnit) ≠ quotationMark by decide, if_true, if_false]
    rw [skip_append hskip]
    simp only [hstarts.2.1, if_false, h.reads hsteps, Option.map_some]

theorem valueText_object_nil {spaces : JSString} (hspaces : Spaces spaces) :
    ValueText numerals (fuel + 1) (0x7B :: (spaces ++ [0x7D])) (object []) where
  starts := ⟨0x7B, _, skip_cons (by decide) _, by decide⟩
  marked := Plain.marked_cons (by decide) (hspaces.marked_append (Plain.marked (by decide)))
  braces := fun _ _ ↦ ⟨⟨_, skip_cons (by decide) _⟩, 0x7B :: spaces, rfl⟩
  reads := by
    intro more fuel' hfuel _
    obtain ⟨steps, rfl, -⟩ := exists_succ_of_le hfuel
    rw [List.cons_append, List.append_assoc, readValue, skip_cons (by decide)]
    simp only [show (0x7B : CodeUnit) ≠ quotationMark by decide,
      show (0x7B : CodeUnit) ≠ 0x5B by decide, if_true, if_false, List.singleton_append]
    rw [skip_spaces_cons hspaces (by decide)]
    rfl

theorem FieldsText.valueText {fields : List (JSString × Json N)}
    (h : FieldsText numerals fuel used fields) :
    ValueText numerals (fuel + 1) (0x7B :: used) (object fields) where
  starts := ⟨0x7B, _, skip_cons (by decide) _, by decide⟩
  marked := Plain.marked_cons (by decide) h.marked
  braces := by
    intro _ _
    obtain ⟨front, rfl⟩ := h.closes
    exact ⟨⟨_, skip_cons (by decide) _⟩, 0x7B :: front, rfl⟩
  reads := by
    intro more fuel' hfuel _
    obtain ⟨steps, rfl, hsteps⟩ := exists_succ_of_le hfuel
    obtain ⟨rest, hskip⟩ := h.starts
    rw [List.cons_append, readValue, skip_cons (by decide)]
    simp only [show (0x7B : CodeUnit) ≠ quotationMark by decide,
      show (0x7B : CodeUnit) ≠ 0x5B by decide, if_true, if_false]
    rw [skip_append hskip]
    simp only [show quotationMark ≠ 0x7D by decide, if_false, h.reads hsteps, Option.map_some]

/-! ## Items and properties -/

theorem ValueText.itemsText {value : Json N} (h : ValueText numerals fuel used value)
    {spaces : JSString} (hspaces : Spaces spaces) :
    ItemsText numerals (fuel + 1) (used ++ (spaces ++ [0x5D])) [value] where
  starts := by
    obtain ⟨unit, rest, hskip, hstarts⟩ := h.starts
    exact ⟨unit, _, skip_append hskip _, hstarts⟩
  marked := h.marked.append (hspaces.marked_append (Plain.marked (by decide)))
  reads := by
    intro more fuel' hfuel
    obtain ⟨steps, rfl, hsteps⟩ := exists_succ_of_le hfuel
    have hread := @h.reads (spaces ++ 0x5D :: more) steps hsteps
      fun _ ↦ hspaces.ends (by decide) more
    rw [List.append_assoc, List.append_assoc, List.singleton_append, readItems, hread]
    dsimp only
    rw [skip_spaces_cons hspaces (by decide)]
    rfl

theorem ItemsText.cons {rest : JSString} {items : List (Json N)}
    (hitems : ItemsText numerals fuel rest items) {value : Json N}
    (h : ValueText numerals fuel used value) {spaces : JSString} (hspaces : Spaces spaces) :
    ItemsText numerals (fuel + 1) (used ++ (spaces ++ 0x2C :: rest)) (value :: items) where
  starts := by
    obtain ⟨unit, rest, hskip, hstarts⟩ := h.starts
    exact ⟨unit, _, skip_append hskip _, hstarts⟩
  marked := by
    rw [stringsItems, Nat.mul_add]
    exact h.marked.append (hspaces.marked_append (Plain.marked_cons (by decide) hitems.marked))
  reads := by
    intro more fuel' hfuel
    obtain ⟨steps, rfl, hsteps⟩ := exists_succ_of_le hfuel
    have hread := @h.reads (spaces ++ 0x2C :: (rest ++ more)) steps hsteps
      fun _ ↦ hspaces.ends (by decide) (rest ++ more)
    rw [List.append_assoc, List.append_assoc, List.cons_append, readItems, hread]
    dsimp only
    rw [skip_spaces_cons hspaces (by decide)]
    simp only [if_true, hitems.reads hsteps, Option.map_some]

/-- The text of a key with its colon. -/
structure KeyText (used key : JSString) : Prop where
  starts : ∃ rest, skip used = quotationMark :: rest
  marked : Marked used 2
  reads : ∀ more, readKey (used ++ more) = some (key, more)

theorem readKey_spec {text key tail : JSString} (h : readKey text = some (key, tail)) :
    ∃ used, text = used ++ tail ∧ KeyText used key := by
  unfold readKey at h
  split at h
  · cases h
  split at h
  rotate_left
  · cases h
  split at h
  · cases h
  split at h
  · cases h
  split at h
  rotate_left
  · cases h
  rename_i unit rest hskip hunit _ key' tail' hread _ colon tail'' hskip' hcolon
  obtain ⟨rfl, rfl⟩ := Prod.mk.injEq .. ▸ Option.some.inj h
  subst hunit hcolon
  obtain ⟨spaces, hspaces, -, rfl⟩ := exists_spaces_cons hskip
  obtain ⟨body, rfl, hmarked, hreads⟩ := readChars_spec hread
  obtain ⟨spaces', hspaces', -, rfl⟩ := exists_spaces_cons hskip'
  refine ⟨spaces ++ quotationMark :: (body ++ quotationMark :: (spaces' ++ [0x3A])), by simp, ?_⟩
  constructor
  · exact ⟨_, skip_spaces_cons hspaces (by decide) _⟩
  · have hcolon : Marked (spaces' ++ [0x3A]) 0 := hspaces'.marked_append (Plain.marked (by decide))
    exact hspaces.marked_append
      (marked_quotationMark.append (hmarked.append (marked_quotationMark.append hcolon)))
  · intro more
    simp only [List.append_assoc, List.cons_append, List.nil_append]
    rw [readKey, skip_spaces_cons hspaces (by decide)]
    simp only [if_true, hreads]
    rw [skip_spaces_cons hspaces' (by decide)]
    rfl

theorem KeyText.fieldsText {front key : JSString} (hkey : KeyText front key) {value : Json N}
    (h : ValueText numerals fuel used value) {spaces : JSString} (hspaces : Spaces spaces) :
    FieldsText numerals (fuel + 1) (front ++ (used ++ (spaces ++ [0x7D]))) [(key, value)] where
  starts := by
    obtain ⟨rest, hskip⟩ := hkey.starts
    exact ⟨_, skip_append hskip _⟩
  closes := ⟨front ++ (used ++ spaces), by simp⟩
  marked := by
    have hclose : Marked (spaces ++ [0x7D]) 0 := hspaces.marked_append (Plain.marked (by decide))
    have hcount : 2 * stringsFields [(key, value)] = 2 + (2 * strings value + 0) := by
      simp only [stringsFields]
      omega
    exact hcount ▸ hkey.marked.append (h.marked.append hclose)
  reads := by
    intro more fuel' hfuel
    obtain ⟨steps, rfl, hsteps⟩ := exists_succ_of_le hfuel
    have hread := @h.reads (spaces ++ 0x7D :: more) steps hsteps
      fun _ ↦ hspaces.ends (by decide) more
    rw [List.append_assoc, List.append_assoc, List.append_assoc, List.singleton_append, readFields,
      hkey.reads]
    simp only [hread]
    rw [skip_spaces_cons hspaces (by decide)]
    rfl

theorem FieldsText.cons {rest : JSString} {fields : List (JSString × Json N)}
    (hfields : FieldsText numerals fuel rest fields) {front key : JSString}
    (hkey : KeyText front key) {value : Json N} (h : ValueText numerals fuel used value)
    {spaces : JSString} (hspaces : Spaces spaces) :
    FieldsText numerals (fuel + 1) (front ++ (used ++ (spaces ++ 0x2C :: rest)))
      ((key, value) :: fields) where
  starts := by
    obtain ⟨rest, hskip⟩ := hkey.starts
    exact ⟨_, skip_append hskip _⟩
  closes := by
    obtain ⟨body, rfl⟩ := hfields.closes
    exact ⟨front ++ (used ++ (spaces ++ 0x2C :: body)), by simp⟩
  marked := by
    have hrest := hspaces.marked_append
      (Plain.marked_cons (by decide : Plain 0x2C) hfields.marked)
    have hcount : 2 * stringsFields ((key, value) :: fields) =
        2 + (2 * strings value + 2 * stringsFields fields) := by
      simp only [stringsFields]
      omega
    exact hcount ▸ hkey.marked.append (h.marked.append hrest)
  reads := by
    intro more fuel' hfuel
    obtain ⟨steps, rfl, hsteps⟩ := exists_succ_of_le hfuel
    have hread := @h.reads (spaces ++ 0x2C :: (rest ++ more)) steps hsteps
      fun _ ↦ hspaces.ends (by decide) (rest ++ more)
    rw [List.append_assoc, List.append_assoc, List.append_assoc, List.cons_append, readFields,
      hkey.reads]
    simp only [hread]
    rw [skip_spaces_cons hspaces (by decide)]
    simp only [if_true, hfields.reads hsteps, Option.map_some]

mutual

/-- What is read of a text is the text of the value that is read. -/
theorem readValue_spec {fuel : ℕ} {text tail : JSString} {value : Json N}
    (h : readValue numerals fuel text = some (value, tail)) :
    ∃ used, text = used ++ tail ∧ ValueText numerals fuel used value := by
  cases fuel with
  | zero => cases h
  | succ fuel =>
    rw [readValue] at h
    split at h
    · cases h
    rename_i unit rest hskip
    obtain ⟨spaces, hspaces, -, rfl⟩ := exists_spaces_cons hskip
    suffices ∃ used, unit :: rest = used ++ tail ∧ ValueText numerals (fuel + 1) used value by
      obtain ⟨used, heq, hused⟩ := this
      exact ⟨spaces ++ used, by rw [heq, List.append_assoc], hused.spaces hspaces⟩
    split at h
    · rename_i hunit
      obtain ⟨chars, hread, rfl⟩ := exists_of_map_fst h
      obtain ⟨body, rfl, hmarked, hreads⟩ := readChars_spec hread
      exact ⟨_, by simp [hunit], valueText_string hmarked hreads⟩
    split at h
    · rename_i hunit
      subst hunit
      split at h
      · cases h
      rename_i next after hnext
      split at h
      · rename_i hclose
        obtain ⟨rfl, rfl⟩ := Prod.mk.injEq .. ▸ Option.some.inj h
        obtain ⟨spaces', hspaces', -, rfl⟩ := exists_spaces_cons hnext
        exact ⟨_, by simp [hclose], valueText_array_nil hspaces'⟩
      · obtain ⟨items, hread, rfl⟩ := exists_of_map_fst h
        obtain ⟨used, rfl, hused⟩ := readItems_spec hread
        exact ⟨_, rfl, hused.valueText⟩
    split at h
    · rename_i hunit
      subst hunit
      split at h
      · cases h
      rename_i next after hnext
      split at h
      · rename_i hclose
        obtain ⟨rfl, rfl⟩ := Prod.mk.injEq .. ▸ Option.some.inj h
        obtain ⟨spaces', hspaces', -, rfl⟩ := exists_spaces_cons hnext
        exact ⟨_, by simp [hclose], valueText_object_nil hspaces'⟩
      · obtain ⟨fields, hread, rfl⟩ := exists_of_map_fst h
        obtain ⟨used, rfl, hused⟩ := readFields_spec hread
        exact ⟨_, rfl, hused.valueText⟩
    · obtain ⟨first, others, heq, hatom⟩ := readAtom_spec numerals h
      exact ⟨_, heq, hatom.valueText⟩

theorem readItems_spec {fuel : ℕ} {text tail : JSString} {items : List (Json N)}
    (h : readItems numerals fuel text = some (items, tail)) :
    ∃ used, text = used ++ tail ∧ ItemsText numerals fuel used items := by
  cases fuel with
  | zero => cases h
  | succ fuel =>
    rw [readItems] at h
    split at h
    · cases h
    rename_i value after hvalue
    obtain ⟨used, rfl, hused⟩ := readValue_spec hvalue
    split at h
    · cases h
    rename_i unit rest hskip
    obtain ⟨spaces, hspaces, -, rfl⟩ := exists_spaces_cons hskip
    split at h
    · rename_i hunit
      obtain ⟨others, hread, rfl⟩ := exists_of_map_fst h
      obtain ⟨more, rfl, hmore⟩ := readItems_spec hread
      exact ⟨_, by simp [hunit], hmore.cons hused hspaces⟩
    split at h
    · rename_i hunit
      obtain ⟨rfl, rfl⟩ := Prod.mk.injEq .. ▸ Option.some.inj h
      exact ⟨_, by simp [hunit], hused.itemsText hspaces⟩
    · cases h

theorem readFields_spec {fuel : ℕ} {text tail : JSString} {fields : List (JSString × Json N)}
    (h : readFields numerals fuel text = some (fields, tail)) :
    ∃ used, text = used ++ tail ∧ FieldsText numerals fuel used fields := by
  cases fuel with
  | zero => cases h
  | succ fuel =>
    rw [readFields] at h
    split at h
    · cases h
    rename_i key after hkey
    obtain ⟨front, rfl, hfront⟩ := readKey_spec hkey
    split at h
    · cases h
    rename_i value after hvalue
    obtain ⟨used, rfl, hused⟩ := readValue_spec hvalue
    split at h
    · cases h
    rename_i unit rest hskip
    obtain ⟨spaces, hspaces, -, rfl⟩ := exists_spaces_cons hskip
    split at h
    · rename_i hunit
      obtain ⟨others, hread, rfl⟩ := exists_of_map_fst h
      obtain ⟨more, rfl, hmore⟩ := readFields_spec hread
      exact ⟨_, by simp [hunit], hmore.cons hfront hused hspaces⟩
    split at h
    · rename_i hunit
      obtain ⟨rfl, rfl⟩ := Prod.mk.injEq .. ▸ Option.some.inj h
      exact ⟨_, by simp [hunit], hfront.fieldsText hused hspaces⟩
    · cases h

end

/-! ## Reading what was written -/

theorem ValueText.mono {value : Json N} (h : ValueText numerals fuel used value) {fuel' : ℕ}
    (hle : fuel ≤ fuel') : ValueText numerals fuel' used value :=
  { h with reads := fun hfuel ↦ h.reads (hle.trans hfuel) }

theorem ItemsText.mono {items : List (Json N)} (h : ItemsText numerals fuel used items) {fuel' : ℕ}
    (hle : fuel ≤ fuel') : ItemsText numerals fuel' used items :=
  { h with reads := fun hfuel ↦ h.reads (hle.trans hfuel) }

theorem FieldsText.mono {fields : List (JSString × Json N)}
    (h : FieldsText numerals fuel used fields) {fuel' : ℕ} (hle : fuel ≤ fuel') :
    FieldsText numerals fuel' used fields :=
  { h with reads := fun hfuel ↦ h.reads (hle.trans hfuel) }

theorem valueText_quote (text : JSString) :
    ValueText numerals (fuel + 1) (quote text) (string text) := by
  obtain ⟨body, heq, hmarked, hreads⟩ := readChars_spec (readChars_escapeUnits text [])
  obtain rfl := List.append_cancel_right heq
  exact valueText_string hmarked hreads

theorem keyText_quote (key : JSString) : KeyText (quote key ++ [0x3A]) key := by
  obtain ⟨used, heq, hused⟩ := readKey_spec (readKey_quote key [])
  rw [List.append_nil] at heq
  exact heq ▸ hused

theorem atomText_text {number : N} (hexact : numerals.exact number = true) :
    ∃ unit rest, numerals.text number = unit :: rest ∧
      AtomText numerals unit rest (Json.number number) := by
  have hnumeral := numerals.numeral hexact
  obtain ⟨unit, rest, heq⟩ := List.exists_cons_of_ne_nil (token_ne_nil hnumeral)
  have hvalue := numerals.value_text hexact
  rw [heq] at hnumeral hvalue
  exact ⟨unit, rest, heq, hvalue ▸ atomText_number numerals hnumeral⟩

mutual

/-- What was written is the text of the value. -/
theorem valueText_stringify (value : Json N) (hexact : Exact numerals value) :
    ValueText numerals (stringify numerals value).length (stringify numerals value) value := by
  cases value with
  | null => exact (atomText_null numerals).valueText
  | bool value =>
    cases value with
    | false => exact (atomText_false numerals).valueText
    | true => exact (atomText_true numerals).valueText
  | number number =>
    obtain ⟨unit, rest, heq, hatom⟩ := atomText_text hexact
    rw [stringify, heq]
    exact hatom.valueText
  | string value => exact valueText_quote value
  | array items =>
    rw [stringify]
    cases items with
    | nil => exact valueText_array_nil spaces_nil
    | cons first rest =>
      exact (itemsText_stringifyItems _ (List.cons_ne_nil first rest) hexact).valueText
  | object fields =>
    rw [stringify]
    cases fields with
    | nil => exact valueText_object_nil spaces_nil
    | cons first rest =>
      exact (fieldsText_stringifyFields _ (List.cons_ne_nil first rest) hexact.2).valueText

theorem itemsText_stringifyItems (items : List (Json N)) (hne : items ≠ [])
    (hexact : ExactItems numerals items) :
    ItemsText numerals (stringifyItems numerals items).length (stringifyItems numerals items)
      items := by
  match items with
  | [] => exact absurd rfl hne
  | [value] =>
    have hvalue := valueText_stringify value hexact.1
    rw [stringifyItems, List.length_append]
    exact hvalue.itemsText spaces_nil
  | value :: next :: rest =>
    have hvalue := valueText_stringify value hexact.1
    have hrest := itemsText_stringifyItems (next :: rest) (List.cons_ne_nil _ _) hexact.2
    rw [stringifyItems, List.length_append]
    exact (hrest.mono (Nat.le_add_left _ _)).cons (hvalue.mono (Nat.le_add_right _ _)) spaces_nil

theorem fieldsText_stringifyFields (fields : List (JSString × Json N)) (hne : fields ≠ [])
    (hexact : ExactFields numerals fields) :
    FieldsText numerals (stringifyFields numerals fields).length (stringifyFields numerals fields)
      fields := by
  match fields with
  | [] => exact absurd rfl hne
  | [(key, value)] =>
    have hvalue := valueText_stringify value hexact.1
    rw [stringifyFields, List.append_cons]
    refine ((keyText_quote key).fieldsText hvalue spaces_nil).mono ?_
    simp only [List.length_append, List.length_cons]
    omega
  | (key, value) :: next :: rest =>
    have hvalue := valueText_stringify value hexact.1
    have hrest := fieldsText_stringifyFields (next :: rest) (List.cons_ne_nil _ _) hexact.2
    have htext := (hrest.mono (Nat.le_add_left _ _)).cons (keyText_quote key)
      (hvalue.mono (Nat.le_add_right _ _)) spaces_nil
    rw [stringifyFields, List.append_cons]
    refine htext.mono ?_
    simp only [List.length_append, List.length_cons]
    omega

end

/-- `JSON.parse` undoes `JSON.stringify`. -/
theorem parse_stringify {value : Json N} (hexact : Exact numerals value) :
    parse numerals (stringify numerals value) = some value := by
  have hread := @(valueText_stringify value hexact).reads [] _ (Nat.le_succ _)
    fun _ unit hunit ↦ by cases hunit
  rw [List.append_nil] at hread
  rw [parse, hread]
  exact congrArg some (merge_of_exact numerals value hexact)

/-! ## Whole texts -/

theorem stringsFields_setField_le (key : JSString) (value : Json N)
    (fields : List (JSString × Json N)) :
    stringsFields (setField key value fields) ≤ stringsFields fields + (1 + strings value) := by
  induction fields with
  | nil =>
    simp only [setField, stringsFields]
    omega
  | cons field rest ih =>
    obtain ⟨other, old⟩ := field
    rw [setField]
    split
    · simp only [stringsFields]
      omega
    · simp only [stringsFields]
      omega

mutual

theorem strings_merge_le (value : Json N) : strings (merge value) ≤ strings value := by
  cases value with
  | array items => exact stringsItems_mergeItems_le items
  | object fields =>
    have hfields := stringsFields_mergeFields_le [] fields
    rwa [stringsFields, Nat.zero_add] at hfields
  | _ => exact Nat.le_refl _

theorem stringsItems_mergeItems_le (items : List (Json N)) :
    stringsItems (mergeItems items) ≤ stringsItems items := by
  cases items with
  | nil => exact Nat.le_refl _
  | cons value rest =>
    exact Nat.add_le_add (strings_merge_le value) (stringsItems_mergeItems_le rest)

theorem stringsFields_mergeFields_le (merged fields : List (JSString × Json N)) :
    stringsFields (mergeFields merged fields) ≤ stringsFields merged + stringsFields fields := by
  match fields with
  | [] => exact Nat.le_refl _
  | (key, value) :: rest =>
    have hrest := stringsFields_mergeFields_le (setField key (merge value) merged) rest
    have hset := stringsFields_setField_le key (merge value) merged
    have hvalue := strings_merge_le value
    rw [mergeFields]
    simp only [stringsFields]
    omega

end

theorem parse_spec {text : JSString} {value : Json N} (h : parse numerals text = some value) :
    ∃ used spaces read, text = used ++ spaces ∧ Spaces spaces ∧ merge read = value ∧
      ValueText numerals (text.length + 1) used read := by
  unfold parse at h
  split at h
  · cases h
  rename_i read tail hread
  split at h
  · rename_i hskip
    obtain ⟨used, htext, hused⟩ := readValue_spec hread
    obtain ⟨spaces, hspaces, htail⟩ := exists_spaces tail
    rw [hskip, List.append_nil] at htail
    exact ⟨used, tail, read, htext, htail ▸ hspaces, Option.some.inj h, hused⟩
  · cases h

/-- A text has the quotation marks for the strings of its value. -/
theorem strings_le_of_parse {text : JSString} {value : Json N}
    (h : parse numerals text = some value) : 2 * strings value ≤ marks false (asciiPart text) := by
  obtain ⟨used, spaces, read, rfl, -, rfl, hused⟩ := parse_spec h
  have hmerge := strings_merge_le read
  rw [asciiPart_append, marks_append, hused.marked.marks]
  omega

theorem object_of_merge {read : Json N} {fields : List (JSString × Json N)}
    (h : merge read = object fields) : ∃ others, read = object others := by
  cases read with
  | object others => exact ⟨others, rfl⟩
  | _ => cases h

theorem lt_of_isSpace {unit : CodeUnit} (h : isSpace unit = true) : unit.toNat < 0x80 := by
  simp only [isSpace, Bool.or_eq_true, decide_eq_true_eq] at h
  rcases h with ((rfl | rfl) | rfl) | rfl <;> decide

/-- A unit that the text of an object can start with. -/
def StartsObject (unit : CodeUnit) : Prop := isSpace unit = true ∨ unit = 0x7B

theorem StartsObject.lt {unit : CodeUnit} (h : StartsObject unit) : unit.toNat < 0x80 := by
  rcases h with hspace | rfl
  · exact lt_of_isSpace hspace
  · decide

/-- It is no quotation mark, and does not stand behind a backslash. -/
theorem StartsObject.notMem {unit : CodeUnit} (h : StartsObject unit) : unit ∉ escapeLetters := by
  rcases h with hspace | rfl
  · simp only [isSpace, Bool.or_eq_true, decide_eq_true_eq] at hspace
    rcases hspace with ((rfl | rfl) | rfl) | rfl <;> decide
  · decide

theorem head_of_parse {text : JSString} {fields : List (JSString × Json N)}
    (h : parse numerals text = some (object fields)) :
    ∃ unit rest, text = unit :: rest ∧ StartsObject unit := by
  obtain ⟨used, spaces, read, rfl, -, hmerge, hused⟩ := parse_spec h
  obtain ⟨others, rfl⟩ := object_of_merge hmerge
  obtain ⟨rest, hskip⟩ := (hused.braces others rfl).1
  obtain ⟨front, hfront, -, rfl⟩ := exists_spaces_cons hskip
  cases front with
  | nil => exact ⟨_, _, rfl, .inr rfl⟩
  | cons unit front => exact ⟨_, _, rfl, .inl (hfront unit (List.mem_cons_self ..))⟩

theorem last_of_parse {text : JSString} {fields : List (JSString × Json N)}
    (h : parse numerals text = some (object fields)) :
    ∃ front unit, text = front ++ [unit] ∧ unit.toNat < 0x80 := by
  obtain ⟨used, spaces, read, rfl, hspaces, hmerge, hused⟩ := parse_spec h
  obtain ⟨others, rfl⟩ := object_of_merge hmerge
  obtain ⟨front, rfl⟩ := (hused.braces others rfl).2
  rcases List.eq_nil_or_concat spaces with rfl | ⟨rest, unit, rfl⟩
  · exact ⟨front, 0x7D, by simp, by decide⟩
  · exact ⟨front ++ [0x7D] ++ rest, unit, by simp, lt_of_isSpace (hspaces unit (by simp))⟩

/-- The text of an object is no proper part of a text that was written. -/
theorem eq_nil_of_append_eq_stringify {text more : JSString} {fields : List (JSString × Json N)}
    (h : parse numerals text = some (object fields)) {value : Json N}
    (hexact : Exact numerals value) (heq : text ++ more = stringify numerals value) :
    more = [] := by
  obtain ⟨used, spaces, read, rfl, -, hmerge, hused⟩ := parse_spec h
  obtain ⟨others, rfl⟩ := object_of_merge hmerge
  obtain ⟨fuel, hfuel⟩ : ∃ fuel, fuel = (stringify numerals value).length +
      ((used ++ spaces).length + 1) := ⟨_, rfl⟩
  have hwritten := @(valueText_stringify value hexact).reads [] fuel (by omega)
    fun _ unit hunit ↦ by cases hunit
  have hread := @hused.reads (spaces ++ more) fuel (by omega) fun hnumber ↦ by cases hnumber
  rw [List.append_nil, ← heq, List.append_assoc, hread] at hwritten
  exact (List.append_eq_nil_iff.1 (Prod.mk.inj (Option.some.inj hwritten)).2).2

/-- A text that was written is not parsed with something behind it. -/
theorem parse_stringify_append {value : Json N} (hexact : Exact numerals value) {unit : CodeUnit}
    (hspace : isSpace unit = false) (hunit : isNumeralUnit unit = false) (rest : JSString) :
    parse numerals (stringify numerals value ++ unit :: rest) = none := by
  have hlength : (stringify numerals value).length ≤
      (stringify numerals value ++ unit :: rest).length + 1 := by
    rw [List.length_append]
    omega
  have hread := (valueText_stringify value hexact).reads hlength fun _ ↦ ends_of_not hunit rest
  rw [parse, hread]
  dsimp only
  rw [skip_cons hspace, if_neg (List.cons_ne_nil _ _)]

end P2PApp.Json
