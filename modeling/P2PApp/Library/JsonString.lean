import Mathlib.Data.BitVec
import Mathlib.Data.List.Basic
import Mathlib.Tactic.IntervalCases

/-!
# JSON string literals

The serialisation of strings by `JSON.stringify`, on strings as the language has them: sequences of
UTF-16 code units, with lone surrogates where they occur. Quotation marks, backslashes and control
characters are escaped, and so are surrogates that are not part of a pair.

A reader of literals undoes the serialisation, whatever follows the literal. Objects whose
properties are strings are therefore determined by their text.
-/

namespace P2PApp.JsonString

abbrev CodeUnit := BitVec 16

/-- A string of the language. -/
abbrev JSString := List CodeUnit

/-- The code units of a text without supplementary characters. -/
def ascii (text : String) : JSString := text.toList.map fun character ↦ .ofNat 16 character.toNat

def quotationMark : CodeUnit := 0x22
def reverseSolidus : CodeUnit := 0x5C

/-- The letter `u` of an escape by number. -/
def letterU : CodeUnit := 0x75

/-- The letter that stands for a unit behind a backslash, for the units that have one. -/
def shortEscape (unit : CodeUnit) : Option CodeUnit :=
  if unit = 0x08 then some 0x62
  else if unit = 0x09 then some 0x74
  else if unit = 0x0A then some 0x6E
  else if unit = 0x0C then some 0x66
  else if unit = 0x0D then some 0x72
  else if unit = quotationMark then some quotationMark
  else if unit = reverseSolidus then some reverseSolidus
  else none

def isLeadingSurrogate (unit : CodeUnit) : Bool := 0xD800 ≤ unit ∧ unit ≤ 0xDBFF

def isTrailingSurrogate (unit : CodeUnit) : Bool := 0xDC00 ≤ unit ∧ unit ≤ 0xDFFF

/-- A lower-case hexadecimal digit. -/
def hexDigit (digit : ℕ) : CodeUnit := .ofNat 16 (if digit < 10 then 0x30 + digit else 0x57 + digit)

def unicodeEscape (unit : CodeUnit) : JSString :=
  [reverseSolidus, letterU, hexDigit (unit.toNat / 4096), hexDigit (unit.toNat / 256 % 16),
    hexDigit (unit.toNat / 16 % 16), hexDigit (unit.toNat % 16)]

/-- The serialisation of a unit that is not part of a surrogate pair. -/
def escapeUnit (unit : CodeUnit) : JSString :=
  match shortEscape unit with
  | some letter => [reverseSolidus, letter]
  | none =>
    if unit < 0x20 ∨ isLeadingSurrogate unit ∨ isTrailingSurrogate unit then unicodeEscape unit
    else [unit]

def escapeUnits : JSString → JSString
  | [] => []
  | [unit] => escapeUnit unit
  | unit :: next :: rest =>
    if isLeadingSurrogate unit ∧ isTrailingSurrogate next then unit :: next :: escapeUnits rest
    else escapeUnit unit ++ escapeUnits (next :: rest)

/-- `QuoteJSONString`. -/
def quote (text : JSString) : JSString := quotationMark :: escapeUnits text ++ [quotationMark]

/-! ## Reading a literal -/

def hexValue (unit : CodeUnit) : ℕ :=
  if unit.toNat < 0x3A then unit.toNat - 0x30 else unit.toNat - 0x57

/-- The unit that a letter behind a backslash stands for. -/
def shortUnescape (letter : CodeUnit) : CodeUnit :=
  if letter = 0x62 then 0x08
  else if letter = 0x74 then 0x09
  else if letter = 0x6E then 0x0A
  else if letter = 0x66 then 0x0C
  else if letter = 0x72 then 0x0D
  else letter

/-- The string up to the closing quotation mark, and what follows. -/
def readBody : JSString → Option (JSString × JSString)
  | [] => none
  | unit :: rest =>
    if unit = quotationMark then some ([], rest)
    else if unit = reverseSolidus then
      match rest with
      | [] => none
      | letter :: rest =>
        if letter = letterU then
          match rest with
          | first :: second :: third :: fourth :: rest =>
            let unit := .ofNat 16 (4096 * hexValue first + 256 * hexValue second +
              16 * hexValue third + hexValue fourth)
            (readBody rest).map fun (text, tail) ↦ (unit :: text, tail)
          | _ => none
        else (readBody rest).map fun (text, tail) ↦ (shortUnescape letter :: text, tail)
    else (readBody rest).map fun (text, tail) ↦ (unit :: text, tail)

theorem hexValue_hexDigit {digit : ℕ} (h : digit < 16) : hexValue (hexDigit digit) = digit := by
  interval_cases digit <;> rfl

theorem readBody_plain {unit : CodeUnit} (hquote : unit ≠ quotationMark)
    (hsolidus : unit ≠ reverseSolidus) (rest : JSString) :
    readBody (unit :: rest) = (readBody rest).map fun (text, tail) ↦ (unit :: text, tail) := by
  rw [readBody.eq_def]
  simp only [hquote, hsolidus, if_false]

@[simp] theorem readBody_quotationMark (rest : JSString) :
    readBody (quotationMark :: rest) = some ([], rest) := by
  rw [readBody.eq_def]
  simp only [if_true]

theorem readBody_letter {letter : CodeUnit} (h : letter ≠ letterU) (rest : JSString) :
    readBody (reverseSolidus :: letter :: rest) =
      (readBody rest).map fun (text, tail) ↦ (shortUnescape letter :: text, tail) := by
  rw [readBody.eq_def]
  simp only [show reverseSolidus ≠ quotationMark by decide, h, if_true, if_false]

theorem readBody_letterU (first second third fourth : CodeUnit) (rest : JSString) :
    readBody (reverseSolidus :: letterU :: first :: second :: third :: fourth :: rest) =
      (readBody rest).map fun (text, tail) ↦
        (.ofNat 16 (4096 * hexValue first + 256 * hexValue second + 16 * hexValue third +
          hexValue fourth) :: text, tail) := by
  rw [readBody.eq_def]
  simp only [show reverseSolidus ≠ quotationMark by decide, if_true, if_false]

theorem readBody_unicodeEscape (unit : CodeUnit) (rest : JSString) :
    readBody (unicodeEscape unit ++ rest) =
      (readBody rest).map fun (text, tail) ↦ (unit :: text, tail) := by
  have hunit : BitVec.ofNat 16 (4096 * (unit.toNat / 4096) + 256 * (unit.toNat / 256 % 16) +
      16 * (unit.toNat / 16 % 16) + unit.toNat % 16) = unit := by
    apply BitVec.eq_of_toNat_eq
    have hlt := unit.isLt
    rw [BitVec.toNat_ofNat]
    omega
  have hlt := unit.isLt
  simp only [unicodeEscape, List.cons_append, List.nil_append, readBody_letterU]
  rw [hexValue_hexDigit (by omega), hexValue_hexDigit (by omega), hexValue_hexDigit (by omega),
    hexValue_hexDigit (by omega), hunit]

/-- A letter behind a backslash is read as the unit that it stands for. -/
theorem shortEscape_cases {unit letter : CodeUnit} (h : shortEscape unit = some letter) :
    letter ≠ letterU ∧ shortUnescape letter = unit := by
  unfold shortEscape at h
  split_ifs at h with h1 h2 h3 h4 h5 h6 h7 <;> cases h <;> subst_vars <;> decide

theorem shortEscape_none {unit : CodeUnit} (h : shortEscape unit = none) :
    unit ≠ quotationMark ∧ unit ≠ reverseSolidus := by
  constructor
  · rintro rfl
    exact absurd h (by decide)
  · rintro rfl
    exact absurd h (by decide)

theorem readBody_escapeUnit (unit : CodeUnit) (rest : JSString) :
    readBody (escapeUnit unit ++ rest) =
      (readBody rest).map fun (text, tail) ↦ (unit :: text, tail) := by
  unfold escapeUnit
  cases hshort : shortEscape unit with
  | some letter =>
    obtain ⟨hletter, hunit⟩ := shortEscape_cases hshort
    simp only [List.cons_append, List.nil_append, readBody_letter hletter, hunit]
  | none =>
    obtain ⟨hquote, hsolidus⟩ := shortEscape_none hshort
    dsimp only
    split
    · exact readBody_unicodeEscape unit rest
    · exact readBody_plain hquote hsolidus rest

theorem ne_of_isSurrogate {unit : CodeUnit}
    (h : isLeadingSurrogate unit = true ∨ isTrailingSurrogate unit = true) :
    unit ≠ quotationMark ∧ unit ≠ reverseSolidus := by
  constructor
  · rintro rfl
    exact absurd h (by decide)
  · rintro rfl
    exact absurd h (by decide)

/-- The reader stops exactly where the literal ends. -/
theorem readBody_escapeUnits (text rest : JSString) :
    readBody (escapeUnits text ++ quotationMark :: rest) = some (text, rest) := by
  fun_induction escapeUnits text with
  | case1 => exact readBody_quotationMark rest
  | case2 unit => rw [readBody_escapeUnit, readBody_quotationMark, Option.map_some]
  | case3 unit next tail hpair ih =>
    obtain ⟨hquote, hsolidus⟩ := ne_of_isSurrogate (.inl hpair.1)
    obtain ⟨hquote', hsolidus'⟩ := ne_of_isSurrogate (.inr hpair.2)
    rw [List.cons_append, readBody_plain hquote hsolidus, List.cons_append,
      readBody_plain hquote' hsolidus', ih]
    rfl
  | case4 unit next tail hpair ih =>
    rw [List.append_assoc, readBody_escapeUnit, ih]
    rfl

theorem quote_append (text rest : JSString) :
    quote text ++ rest = quotationMark :: (escapeUnits text ++ quotationMark :: rest) := by
  simp [quote]

/-- Two literals at the start of one text are the same literal. -/
theorem quote_append_inj {left right rest other : JSString} :
    quote left ++ rest = quote right ++ other ↔ left = right ∧ rest = other := by
  constructor
  · intro h
    rw [quote_append, quote_append] at h
    have hread := congrArg readBody (List.cons.inj h).2
    rw [readBody_escapeUnits, readBody_escapeUnits] at hread
    exact Prod.mk.inj (Option.some.inj hread)
  · rintro ⟨rfl, rfl⟩
    rfl

/-! ## Objects -/

/-- A property whose value is a string. -/
structure Property where
  key : JSString
  value : JSString
  deriving DecidableEq

def stringifyProperty (property : Property) : JSString :=
  quote property.key ++ 0x3A :: quote property.value

/-- The properties of an object, separated by commas and closed with a brace. -/
def stringifyProperties : List Property → JSString
  | [] => [0x7D]
  | [property] => stringifyProperty property ++ [0x7D]
  | property :: next :: rest =>
    stringifyProperty property ++ 0x2C :: stringifyProperties (next :: rest)

/-- `JSON.stringify` of an object with string properties. -/
def stringify (properties : List Property) : JSString := 0x7B :: stringifyProperties properties

theorem stringifyProperty_append_inj {left right : Property} {rest other : JSString} :
    stringifyProperty left ++ rest = stringifyProperty right ++ other ↔
      left = right ∧ rest = other := by
  constructor
  · intro h
    simp only [stringifyProperty, List.append_assoc, List.cons_append] at h
    obtain ⟨hkey, htail⟩ := quote_append_inj.1 h
    obtain ⟨hvalue, hrest⟩ := quote_append_inj.1 (List.cons.inj htail).2
    exact ⟨by cases left; cases right; simp_all, hrest⟩
  · rintro ⟨rfl, rfl⟩
    rfl

theorem stringifyProperty_ne_brace (property : Property) (rest : JSString) :
    stringifyProperty property ++ rest ≠ [0x7D] := by
  intro h
  rw [stringifyProperty, List.append_assoc, quote_append] at h
  exact absurd (List.cons.inj h).1 (by decide)

theorem stringifyProperties_injective {left right : List Property}
    (h : stringifyProperties left = stringifyProperties right) : left = right := by
  induction left generalizing right with
  | nil =>
    match right with
    | [] => rfl
    | [property] => exact absurd h.symm (stringifyProperty_ne_brace property _)
    | property :: _ :: _ => exact absurd h.symm (stringifyProperty_ne_brace property _)
  | cons property rest ih =>
    match rest, right with
    | [], [] => exact absurd h (stringifyProperty_ne_brace property _)
    | _ :: _, [] => exact absurd h (stringifyProperty_ne_brace property _)
    | [], [other] =>
      obtain ⟨rfl, -⟩ := stringifyProperty_append_inj.1 h
      rfl
    | [], other :: _ :: _ =>
      have htail := (stringifyProperty_append_inj.1 h).2
      exact absurd (List.cons.inj htail).1 (by decide)
    | _ :: _, [other] =>
      have htail := (stringifyProperty_append_inj.1 h).2
      exact absurd (List.cons.inj htail).1 (by decide)
    | next :: rest, other :: following :: others =>
      obtain ⟨rfl, htail⟩ := stringifyProperty_append_inj.1 h
      rw [ih (List.cons.inj htail).2]

/-- The text of an object determines its properties. -/
theorem stringify_inj {left right : List Property} :
    stringify left = stringify right ↔ left = right :=
  ⟨fun h ↦ stringifyProperties_injective (List.cons.inj h).2, fun h ↦ h ▸ rfl⟩

example : quote (ascii "a\"\n" ++ [0xD83D, 0xDE00, 0xD83D]) =
    ascii "\"a\\\"\\n" ++ [0xD83D, 0xDE00] ++ ascii "\\ud83d\"" := by decide

end P2PApp.JsonString
