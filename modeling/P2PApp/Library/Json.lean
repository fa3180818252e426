import P2PApp.Library.Utf8

/-!
# JSON texts

Values, what `JSON.stringify` writes for them and what `JSON.parse` makes of a text, on strings as
the language has them. The reader goes from left to right and returns what follows the value; the
number of its steps is bounded. Properties that are repeated are merged afterwards.

Numbers are those of a format that knows their numerals and values. Some numbers are not carried by
their texts, as the infinities and the negative zero; values without them, in which no property is
repeated, are read as they were written.
-/

namespace P2PApp

open JsonString

inductive Json (N : Type)
  | null
  | bool (value : Bool)
  | number (value : N)
  | string (value : JSString)
  | array (items : List (Json N))
  | object (fields : List (JSString × Json N))

namespace Json

/-! ## Numerals -/

def isDigit (unit : CodeUnit) : Bool := 0x30 ≤ unit.toNat ∧ unit.toNat ≤ 0x39

/-- What can occur in a numeral: digits, signs, the point and the letter of the exponent. -/
def isNumeralUnit (unit : CodeUnit) : Bool :=
  isDigit unit || unit = 0x2D || unit = 0x2B || unit = 0x2E || unit = 0x65 || unit = 0x45

/-- What follows a sequence of digits, if there is one. -/
def scanDigits (text : JSString) : Option JSString :=
  if (text.takeWhile isDigit).isEmpty then none else some (text.dropWhile isDigit)

/-- What follows an integer without a sign; a leading zero stands alone. -/
def scanInteger : JSString → Option JSString
  | [] => none
  | unit :: rest => if unit = 0x30 then some rest else scanDigits (unit :: rest)

def scanFraction : JSString → Option JSString
  | [] => some []
  | unit :: rest => if unit = 0x2E then scanDigits rest else some (unit :: rest)

def scanExponent : JSString → Option JSString
  | [] => some []
  | unit :: rest =>
    if unit = 0x65 ∨ unit = 0x45 then
      scanDigits (if rest.head? = some 0x2B ∨ rest.head? = some 0x2D then rest.tail else rest)
    else some (unit :: rest)

/-- A numeral of JSON. -/
def isNumeral (token : JSString) : Bool :=
  token.all isNumeralUnit &&
    ((scanInteger (if token.head? = some 0x2D then token.tail else token)).bind fun rest ↦
      (scanFraction rest).bind scanExponent) == some []

/-- How the language writes and reads numbers. -/
structure Numerals (N : Type) where
  text : N → JSString
  value : JSString → N
  /-- The number has a numeral of its own. -/
  exact : N → Bool
  numeral : ∀ {number}, exact number = true → isNumeral (text number) = true
  value_text : ∀ {number}, exact number = true → value (text number) = number

variable {N : Type} (numerals : Numerals N)

/-! ## Writing -/

mutual

def stringify : Json N → JSString
  | null => ascii "null"
  | bool value => if value then ascii "true" else ascii "false"
  | number value => numerals.text value
  | string value => quote value
  | array items => 0x5B :: stringifyItems items
  | object fields => 0x7B :: stringifyFields fields

/-- The items up to the closing bracket. -/
def stringifyItems : List (Json N) → JSString
  | [] => [0x5D]
  | [value] => stringify value ++ [0x5D]
  | value :: next :: rest => stringify value ++ 0x2C :: stringifyItems (next :: rest)

/-- The properties up to the closing brace. -/
def stringifyFields : List (JSString × Json N) → JSString
  | [] => [0x7D]
  | [(key, value)] => quote key ++ 0x3A :: (stringify value ++ [0x7D])
  | (key, value) :: next :: rest =>
    quote key ++ 0x3A :: (stringify value ++ 0x2C :: stringifyFields (next :: rest))

end

/-! ## Reading -/

def isSpace (unit : CodeUnit) : Bool :=
  unit = 0x20 || unit = 0x09 || unit = 0x0A || unit = 0x0D

def skip (text : JSString) : JSString := text.dropWhile isSpace

def hexDigitValue (unit : CodeUnit) : Option ℕ :=
  if 0x30 ≤ unit.toNat ∧ unit.toNat ≤ 0x39 then some (unit.toNat - 0x30)
  else if 0x61 ≤ unit.toNat ∧ unit.toNat ≤ 0x66 then some (unit.toNat - 0x57)
  else if 0x41 ≤ unit.toNat ∧ unit.toNat ≤ 0x46 then some (unit.toNat - 0x37)
  else none

/-- The unit that four hexadecimal digits stand for. -/
def hexUnit (first second third fourth : CodeUnit) : Option CodeUnit :=
  match hexDigitValue first, hexDigitValue second, hexDigitValue third, hexDigitValue fourth with
  | some first, some second, some third, some fourth =>
    some (.ofNat 16 (4096 * first + 256 * second + 16 * third + fourth))
  | _, _, _, _ => none

/-- The letters behind a backslash but for `u`. -/
def shortLetters : List CodeUnit := [0x22, 0x5C, 0x2F, 0x62, 0x66, 0x6E, 0x72, 0x74]

/-- A string up to its closing quotation mark, and what follows. -/
def readChars : JSString → Option (JSString × JSString)
  | [] => none
  | unit :: rest =>
    if unit = quotationMark then some ([], rest)
    else if unit = reverseSolidus then
      match rest with
      | [] => none
      | letter :: rest =>
        if letter = letterU then
          match rest with
          | first :: second :: third :: fourth :: rest =>
            match hexUnit first second third fourth with
            | some unit => (readChars rest).map fun (text, tail) ↦ (unit :: text, tail)
            | none => none
          | _ => none
        else if letter ∈ shortLetters then
          (readChars rest).map fun (text, tail) ↦ (shortUnescape letter :: text, tail)
        else none
    else if unit.toNat < 0x20 then none
    else (readChars rest).map fun (text, tail) ↦ (unit :: text, tail)

/-- The key of a property, with its colon. -/
def readKey (text : JSString) : Option (JSString × JSString) :=
  match skip text with
  | [] => none
  | unit :: rest =>
    if unit = quotationMark then
      match readChars rest with
      | none => none
      | some (key, tail) =>
        match skip tail with
        | [] => none
        | unit :: tail => if unit = 0x3A then some (key, tail) else none
    else none

def readWord (word : JSString) (value : Json N) (text : JSString) : Option (Json N × JSString) :=
  if word.isPrefixOf text then some (value, text.drop word.length) else none

def readNumber (text : JSString) : Option (Json N × JSString) :=
  if isNumeral (text.takeWhile isNumeralUnit) then
    some (number (numerals.value (text.takeWhile isNumeralUnit)), text.dropWhile isNumeralUnit)
  else none

/-- A word or a number. -/
def readAtom (text : JSString) : Option (Json N × JSString) :=
  readWord (ascii "true") (bool true) text <|> readWord (ascii "false") (bool false) text <|>
    readWord (ascii "null") null text <|> readNumber numerals text

mutual

def readValue : ℕ → JSString → Option (Json N × JSString)
  | 0, _ => none
  | fuel + 1, text =>
    match skip text with
    | [] => none
    | unit :: rest =>
      if unit = quotationMark then
        (readChars rest).map fun (value, tail) ↦ (string value, tail)
      else if unit = 0x5B then
        match skip rest with
        | [] => none
        | next :: tail =>
          if next = 0x5D then some (array [], tail)
          else (readItems fuel rest).map fun (items, tail) ↦ (array items, tail)
      else if unit = 0x7B then
        match skip rest with
        | [] => none
        | next :: tail =>
          if next = 0x7D then some (object [], tail)
          else (readFields fuel rest).map fun (fields, tail) ↦ (object fields, tail)
      else readAtom numerals (unit :: rest)

/-- One item or more, up to the closing bracket. -/
def readItems : ℕ → JSString → Option (List (Json N) × JSString)
  | 0, _ => none
  | fuel + 1, text =>
    match readValue fuel text with
    | none => none
    | some (value, tail) =>
      match skip tail with
      | [] => none
      | unit :: tail =>
        if unit = 0x2C then
          (readItems fuel tail).map fun (items, tail) ↦ (value :: items, tail)
        else if unit = 0x5D then some ([value], tail)
        else none

/-- One property or more, up to the closing brace. -/
def readFields : ℕ → JSString → Option (List (JSString × Json N) × JSString)
  | 0, _ => none
  | fuel + 1, text =>
    match readKey text with
    | none => none
    | some (key, tail) =>
      match readValue fuel tail with
      | none => none
      | some (value, tail) =>
        match skip tail with
        | [] => none
        | unit :: tail =>
          if unit = 0x2C then
            (readFields fuel tail).map fun (fields, tail) ↦ ((key, value) :: fields, tail)
          else if unit = 0x7D then some ([(key, value)], tail)
          else none

end

/-- The properties with one added, in the place of an earlier one of the same key. -/
def setField (key : JSString) (value : Json N) :
    List (JSString × Json N) → List (JSString × Json N)
  | [] => [(key, value)]
  | (other, old) :: rest =>
    if other = key then (key, value) :: rest else (other, old) :: setField key value rest

mutual

/-- The value with repeated properties merged. -/
def merge : Json N → Json N
  | array items => array (mergeItems items)
  | object fields => object (mergeFields [] fields)
  | value => value

def mergeItems : List (Json N) → List (Json N)
  | [] => []
  | value :: rest => merge value :: mergeItems rest

def mergeFields (merged : List (JSString × Json N)) :
    List (JSString × Json N) → List (JSString × Json N)
  | [] => merged
  | (key, value) :: rest => mergeFields (setField key (merge value) merged) rest

end

/-- `JSON.parse`, with `none` for an exception. -/
def parse (text : JSString) : Option (Json N) :=
  match readValue numerals (text.length + 1) text with
  | none => none
  | some (value, tail) => if skip tail = [] then some (merge value) else none

/-! ## Values that texts carry -/

mutual

/-- All numbers are exact, and no object has two properties of one key. -/
def Exact : Json N → Prop
  | number value => numerals.exact value = true
  | array items => ExactItems items
  | object fields => (fields.map Prod.fst).Nodup ∧ ExactFields fields
  | _ => True

def ExactItems : List (Json N) → Prop
  | [] => True
  | value :: rest => Exact value ∧ ExactItems rest

def ExactFields : List (JSString × Json N) → Prop
  | [] => True
  | (_, value) :: rest => Exact value ∧ ExactFields rest

end

/-! ## Reading strings, words and numbers -/

theorem hexDigitValue_hexDigit {digit : ℕ} (h : digit < 16) :
    hexDigitValue (hexDigit digit) = some digit := by
  interval_cases digit <;> rfl

@[simp] theorem readChars_quotationMark (rest : JSString) :
    readChars (quotationMark :: rest) = some ([], rest) := by
  rw [readChars.eq_def]
  simp only [if_true]

theorem readChars_plain {unit : CodeUnit} (hquote : unit ≠ quotationMark)
    (hsolidus : unit ≠ reverseSolidus) (hcontrol : ¬unit.toNat < 0x20) (rest : JSString) :
    readChars (unit :: rest) = (readChars rest).map fun (text, tail) ↦ (unit :: text, tail) := by
  rw [readChars.eq_def]
  simp only [hquote, hsolidus, hcontrol, if_false]

theorem readChars_letter {letter : CodeUnit} (h : letter ∈ shortLetters) (rest : JSString) :
    readChars (reverseSolidus :: letter :: rest) =
      (readChars rest).map fun (text, tail) ↦ (shortUnescape letter :: text, tail) := by
  have hletter : letter ≠ letterU := by
    rintro rfl
    exact absurd h (by decide)
  rw [readChars.eq_def]
  simp only [show reverseSolidus ≠ quotationMark by decide, hletter, h, if_true, if_false]

theorem readChars_letterU {first second third fourth unit : CodeUnit}
    (h : hexUnit first second third fourth = some unit) (rest : JSString) :
    readChars (reverseSolidus :: letterU :: first :: second :: third :: fourth :: rest) =
      (readChars rest).map fun (text, tail) ↦ (unit :: text, tail) := by
  rw [readChars.eq_def]
  simp only [show reverseSolidus ≠ quotationMark by decide, if_true, if_false, h]

theorem hexUnit_hexDigit (unit : CodeUnit) :
    hexUnit (hexDigit (unit.toNat / 4096)) (hexDigit (unit.toNat / 256 % 16))
      (hexDigit (unit.toNat / 16 % 16)) (hexDigit (unit.toNat % 16)) = some unit := by
  have hlt := unit.isLt
  have hsum : 4096 * (unit.toNat / 4096) + 256 * (unit.toNat / 256 % 16) +
      16 * (unit.toNat / 16 % 16) + unit.toNat % 16 = unit.toNat := by omega
  rw [hexUnit, hexDigitValue_hexDigit (by omega), hexDigitValue_hexDigit (by omega),
    hexDigitValue_hexDigit (by omega), hexDigitValue_hexDigit (by omega)]
  dsimp only
  rw [hsum, BitVec.ofNat_toNat, BitVec.setWidth_eq]

theorem mem_shortLetters {unit letter : CodeUnit} (h : shortEscape unit = some letter) :
    letter ∈ shortLetters := by
  unfold shortEscape at h
  split_ifs at h <;> cases h <;> decide

theorem readChars_escapeUnit (unit : CodeUnit) (rest : JSString) :
    readChars (escapeUnit unit ++ rest) =
      (readChars rest).map fun (text, tail) ↦ (unit :: text, tail) := by
  unfold escapeUnit
  cases hshort : shortEscape unit with
  | some letter =>
    have hunit := (shortEscape_cases hshort).2
    simp only [List.cons_append, List.nil_append, readChars_letter (mem_shortLetters hshort), hunit]
  | none =>
    obtain ⟨hquote, hsolidus⟩ := shortEscape_none hshort
    dsimp only
    split
    · simp only [unicodeEscape, List.cons_append, List.nil_append,
        readChars_letterU (hexUnit_hexDigit unit)]
    · rename_i hplain
      have hcontrol : ¬unit.toNat < 0x20 := by
        intro hlt
        exact hplain (.inl (BitVec.lt_def.2 hlt))
      exact readChars_plain hquote hsolidus hcontrol rest

theorem not_control_of_isSurrogate {unit : CodeUnit}
    (h : isLeadingSurrogate unit = true ∨ isTrailingSurrogate unit = true) :
    ¬unit.toNat < 0x20 := by
  rw [Utf8.isLeadingSurrogate_iff, Utf8.isTrailingSurrogate_iff] at h
  omega

/-- The reader of strings stops exactly where the literal ends. -/
theorem readChars_escapeUnits (text rest : JSString) :
    readChars (escapeUnits text ++ quotationMark :: rest) = some (text, rest) := by
  fun_induction escapeUnits text with
  | case1 => exact readChars_quotationMark rest
  | case2 unit => rw [readChars_escapeUnit, readChars_quotationMark, Option.map_some]
  | case3 unit next tail hpair ih =>
    obtain ⟨hquote, hsolidus⟩ := ne_of_isSurrogate (.inl hpair.1)
    obtain ⟨hquote', hsolidus'⟩ := ne_of_isSurrogate (.inr hpair.2)
    rw [List.cons_append,
      readChars_plain hquote hsolidus (not_control_of_isSurrogate (.inl hpair.1)),
      List.cons_append,
      readChars_plain hquote' hsolidus' (not_control_of_isSurrogate (.inr hpair.2)), ih]
    rfl
  | case4 unit next tail hpair ih =>
    rw [List.append_assoc, readChars_escapeUnit, ih]
    rfl

def isNumber : Json N → Bool
  | number _ => true
  | _ => false

/-- What follows does not continue a numeral. -/
def Ends (rest : JSString) : Prop := ∀ unit ∈ rest.head?, isNumeralUnit unit = false

theorem skip_cons {unit : CodeUnit} (h : isSpace unit = false) (rest : JSString) :
    skip (unit :: rest) = unit :: rest := by
  rw [skip, List.dropWhile_cons_of_neg (by simp [h])]

theorem isNumeralUnit_of_mem {token : JSString} (h : isNumeral token = true) :
    ∀ unit ∈ token, isNumeralUnit unit = true := by
  rw [isNumeral, Bool.and_eq_true] at h
  exact List.all_eq_true.1 h.1

theorem token_ne_nil {token : JSString} (h : isNumeral token = true) : token ≠ [] := by
  rintro rfl
  exact absurd h (by decide)

theorem readNumber_token {token : JSString} (h : isNumeral token = true) {rest : JSString}
    (hends : Ends rest) :
    readNumber numerals (token ++ rest) = some (.number (numerals.value token), rest) := by
  have hall := isNumeralUnit_of_mem h
  have hstop : rest.takeWhile isNumeralUnit = [] ∧ rest.dropWhile isNumeralUnit = rest := by
    cases rest with
    | nil => exact ⟨rfl, rfl⟩
    | cons unit rest =>
      have hunit := hends unit rfl
      simp [hunit]
  rw [readNumber, List.takeWhile_append_of_pos hall, List.dropWhile_append_of_pos hall, hstop.1,
    hstop.2, List.append_nil, if_pos h]

theorem lt_of_isNumeralUnit {unit : CodeUnit} (h : isNumeralUnit unit = true) :
    unit.toNat < 0x80 := by
  simp only [isNumeralUnit, isDigit, Bool.or_eq_true, decide_eq_true_eq] at h
  rcases h with ((((h | rfl) | rfl) | rfl) | rfl) | rfl
  · omega
  all_goals decide

/-- A text that begins like a numeral is no word. -/
theorem readAtom_of_isNumeralUnit {unit : CodeUnit} (h : isNumeralUnit unit = true)
    (rest : JSString) : readAtom numerals (unit :: rest) = readNumber numerals (unit :: rest) := by
  have hword (letter : CodeUnit) (word : JSString) (value : Json N)
      (hletter : isNumeralUnit letter = false) :
      readWord (letter :: word) value (unit :: rest) = none := by
    rw [readWord, if_neg]
    rw [List.isPrefixOf_cons_cons, Bool.and_eq_true, beq_iff_eq]
    rintro ⟨rfl, -⟩
    rw [h] at hletter
    cases hletter
  unfold readAtom
  rw [show ascii "true" = [0x74, 0x72, 0x75, 0x65] by rfl,
    show ascii "false" = [0x66, 0x61, 0x6C, 0x73, 0x65] by rfl,
    show ascii "null" = [0x6E, 0x75, 0x6C, 0x6C] by rfl,
    hword _ _ _ (by decide), hword _ _ _ (by decide), hword _ _ _ (by decide)]
  rfl

/-- A unit that a value can start with: no space and no closing bracket or brace. -/
def Starts (unit : CodeUnit) : Prop := isSpace unit = false ∧ unit ≠ 0x5D ∧ unit ≠ 0x7D

instance : DecidablePred Starts := fun _ ↦ inferInstanceAs (Decidable (_ ∧ _ ∧ _))

theorem starts_of_isNumeralUnit {unit : CodeUnit} (h : isNumeralUnit unit = true) :
    Starts unit := by
  refine ⟨?_, ?_, ?_⟩
  · rw [← Bool.not_eq_true]
    intro hspace
    simp only [isSpace, Bool.or_eq_true, decide_eq_true_eq] at hspace
    rcases hspace with ((rfl | rfl) | rfl) | rfl <;> exact absurd h (by decide)
  · rintro rfl
    exact absurd h (by decide)
  · rintro rfl
    exact absurd h (by decide)

theorem readValue_atom {unit : CodeUnit} (hspace : isSpace unit = false)
    (hquote : unit ≠ quotationMark) (hbracket : unit ≠ 0x5B) (hbrace : unit ≠ 0x7B) (fuel : ℕ)
    (rest : JSString) :
    readValue numerals (fuel + 1) (unit :: rest) = readAtom numerals (unit :: rest) := by
  rw [readValue, skip_cons hspace]
  simp only [hquote, hbracket, hbrace, if_false]

theorem readAtom_null (rest : JSString) :
    readAtom numerals (ascii "null" ++ rest) = some (null, rest) := by
  rw [show ascii "null" = [0x6E, 0x75, 0x6C, 0x6C] by rfl]
  simp only [readAtom, readWord, List.cons_append, List.nil_append]
  rfl

theorem readAtom_true (rest : JSString) :
    readAtom numerals (ascii "true" ++ rest) = some (bool true, rest) := by
  rw [show ascii "true" = [0x74, 0x72, 0x75, 0x65] by rfl]
  simp only [readAtom, readWord, List.cons_append, List.nil_append]
  rfl

theorem readAtom_false (rest : JSString) :
    readAtom numerals (ascii "false" ++ rest) = some (bool false, rest) := by
  rw [show ascii "false" = [0x66, 0x61, 0x6C, 0x73, 0x65] by rfl]
  simp only [readAtom, readWord, List.cons_append, List.nil_append]
  rfl

theorem ends_of_not {unit : CodeUnit} (h : isNumeralUnit unit = false) (rest : JSString) :
    Ends (unit :: rest) := by
  intro first hfirst
  obtain rfl := Option.some.inj hfirst
  exact h

theorem exists_stringifyFields_cons {fields : List (JSString × Json N)} (hne : fields ≠ []) :
    ∃ rest, stringifyFields numerals fields = quotationMark :: rest := by
  match fields with
  | [(key, value)] => exact ⟨_, by rw [stringifyFields, quote_append]⟩
  | (key, value) :: next :: others => exact ⟨_, by rw [stringifyFields, quote_append]⟩

theorem readKey_quote (key rest : JSString) :
    readKey (quote key ++ 0x3A :: rest) = some (key, rest) := by
  rw [quote_append, readKey, skip_cons (by decide)]
  simp only [if_true, readChars_escapeUnits]
  rw [skip_cons (by decide)]
  rfl

/-! ## Repeated properties -/

theorem setField_of_notMem {key : JSString} {fields : List (JSString × Json N)}
    (h : key ∉ fields.map Prod.fst) (value : Json N) :
    setField key value fields = fields ++ [(key, value)] := by
  induction fields with
  | nil => rfl
  | cons field rest ih =>
    obtain ⟨other, old⟩ := field
    rw [List.map_cons, List.mem_cons, not_or] at h
    rw [setField, if_neg (Ne.symm h.1), ih h.2, List.cons_append]

mutual

theorem merge_of_exact (value : Json N) (h : Exact numerals value) : merge value = value := by
  cases value with
  | array items => exact congrArg array (mergeItems_of_exact items h)
  | object fields => exact congrArg object (mergeFields_of_exact [] fields h.1 h.2)
  | _ => rfl

theorem mergeItems_of_exact (items : List (Json N)) (h : ExactItems numerals items) :
    mergeItems items = items := by
  cases items with
  | nil => rfl
  | cons value rest =>
    exact congrArg₂ List.cons (merge_of_exact value h.1) (mergeItems_of_exact rest h.2)

theorem mergeFields_of_exact (merged fields : List (JSString × Json N))
    (hnodup : ((merged ++ fields).map Prod.fst).Nodup) (h : ExactFields numerals fields) :
    mergeFields merged fields = merged ++ fields := by
  match fields with
  | [] => rw [mergeFields, List.append_nil]
  | (key, value) :: rest =>
    have hkey : key ∉ merged.map Prod.fst := by
      rw [List.map_append, List.nodup_append] at hnodup
      intro hmem
      exact hnodup.2.2 key hmem key (List.mem_cons_self ..) rfl
    have happend : merged ++ [(key, value)] ++ rest = merged ++ (key, value) :: rest := by simp
    rw [mergeFields, merge_of_exact value h.1, setField_of_notMem hkey,
      mergeFields_of_exact _ rest (happend ▸ hnodup) h.2, happend]

end

/-! ## Surrogates -/

open Utf8

theorem toNat_hexDigit_lt {digit : ℕ} (h : digit < 16) : (hexDigit digit).toNat < 0x80 := by
  interval_cases digit <;> decide

theorem wellFormed_escapeUnit (unit : CodeUnit) : WellFormed (escapeUnit unit) := by
  unfold escapeUnit
  split
  · rename_i letter hshort
    have hletters : shortLetters.all (fun other ↦ other.toNat < 0x80) = true := by decide
    have hletter := List.all_eq_true.1 hletters letter (mem_shortLetters hshort)
    apply wellFormed_of_lt
    simp only [List.forall_mem_cons, List.not_mem_nil, false_implies, implies_true, and_true]
    exact ⟨by decide, of_decide_eq_true hletter⟩
  split
  · have hlt := unit.isLt
    apply wellFormed_of_lt
    simp only [unicodeEscape, List.forall_mem_cons, List.not_mem_nil, false_implies, implies_true,
      and_true]
    exact ⟨by decide, by decide, toNat_hexDigit_lt (by omega), toNat_hexDigit_lt (by omega),
      toNat_hexDigit_lt (by omega), toNat_hexDigit_lt (by omega)⟩
  · rename_i hplain
    simp only [not_or, Bool.not_eq_true] at hplain
    exact hplain.2

theorem wellFormed_escapeUnits (text : JSString) : WellFormed (escapeUnits text) := by
  fun_induction escapeUnits text with
  | case1 => trivial
  | case2 unit => exact wellFormed_escapeUnit unit
  | case3 unit next tail hpair ih =>
    rw [WellFormed, if_pos hpair]
    exact ih
  | case4 unit next tail _ ih => exact (wellFormed_escapeUnit unit).append ih

theorem wellFormed_word {word : JSString}
    (h : word.all (fun unit ↦ decide (unit.toNat < 0x80)) = true) : WellFormed word :=
  wellFormed_of_lt fun unit hunit ↦ of_decide_eq_true (List.all_eq_true.1 h unit hunit)

theorem wellFormed_quote (text : JSString) : WellFormed (quote text) := by
  have hquote : WellFormed [quotationMark] := wellFormed_word (by decide)
  exact hquote.append ((wellFormed_escapeUnits text).append hquote)

mutual

/-- Lone surrogates are escaped, so that what is written can be encoded without loss. -/
theorem wellFormed_stringify (value : Json N) (hexact : Exact numerals value) :
    WellFormed (stringify numerals value) := by
  cases value with
  | null =>
    rw [stringify]
    exact wellFormed_word (by decide)
  | bool value =>
    rw [stringify]
    cases value <;> exact wellFormed_word (by decide)
  | number number =>
    apply wellFormed_of_lt
    intro unit hunit
    exact lt_of_isNumeralUnit (isNumeralUnit_of_mem (numerals.numeral hexact) unit hunit)
  | string value => exact wellFormed_quote value
  | array items =>
    exact WellFormed.cons (by decide) (by decide) (wellFormed_stringifyItems items hexact)
  | object fields =>
    exact WellFormed.cons (by decide) (by decide) (wellFormed_stringifyFields fields hexact.2)

theorem wellFormed_stringifyItems (items : List (Json N)) (hexact : ExactItems numerals items) :
    WellFormed (stringifyItems numerals items) := by
  match items with
  | [] =>
    rw [stringifyItems]
    exact wellFormed_word (by decide)
  | [value] => exact (wellFormed_stringify value hexact.1).append (wellFormed_word (by decide))
  | value :: next :: rest =>
    have hrest := wellFormed_stringifyItems (next :: rest) hexact.2
    have hvalue := wellFormed_stringify value hexact.1
    exact hvalue.append (WellFormed.cons (by decide) (by decide) hrest)

theorem wellFormed_stringifyFields (fields : List (JSString × Json N))
    (hexact : ExactFields numerals fields) :
    WellFormed (stringifyFields numerals fields) := by
  match fields with
  | [] =>
    rw [stringifyFields]
    exact wellFormed_word (by decide)
  | [(key, value)] =>
    have hclose : WellFormed [0x7D] := wellFormed_word (by decide)
    have hvalue := (wellFormed_stringify value hexact.1).append hclose
    exact (wellFormed_quote key).append (WellFormed.cons (by decide) (by decide) hvalue)
  | (key, value) :: next :: rest =>
    have hrest := wellFormed_stringifyFields (next :: rest) hexact.2
    have hvalue := (wellFormed_stringify value hexact.1).append
      (hrest.cons (by decide : isLeadingSurrogate 0x2C = false) (by decide))
    exact (wellFormed_quote key).append (WellFormed.cons (by decide) (by decide) hvalue)

end

end Json

end P2PApp
