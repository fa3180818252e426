import Mathlib.Data.List.Lex
import Mathlib.Data.Nat.Digits.Defs
import Mathlib.Data.String.Basic
import Mathlib.Order.Lattice.Nat
import Mathlib.Tactic.IntervalCases

/-!
# Lexicographic ranges and padded numerals

Lists between two lists with a common stem have that stem, so a range scan with such bounds is a
scan by prefix followed by a comparison of what comes after it. Numerals padded to a fixed width
compare like the numbers they write.
-/

namespace P2PApp.LexicographicRange

section Stem

variable {α : Type*} [LinearOrder α]

theorem cons_le_cons_iff {head other : α} {left right : List α} :
    head :: left ≤ other :: right ↔ head < other ∨ (head = other ∧ left ≤ right) := by
  rw [← not_lt, List.cons_lt_cons_iff, ← @not_lt (List α) _ right left]
  constructor
  · intro h
    rcases lt_trichotomy head other with hlt | heq | hgt
    · exact .inl hlt
    · exact .inr ⟨heq, fun hless ↦ h (.inr ⟨heq.symm, hless⟩)⟩
    · exact absurd (.inl hgt) h
  · intro h hgreater
    rcases h with hlt | ⟨rfl, hless⟩
    · rcases hgreater with hgt | ⟨heq, _⟩
      · exact hlt.asymm hgt
      · exact hlt.ne heq.symm
    · rcases hgreater with hgt | ⟨_, hmore⟩
      · exact lt_irrefl head hgt
      · exact hless hmore

theorem append_le_append_iff (stem left right : List α) :
    stem ++ left ≤ stem ++ right ↔ left ≤ right := by
  induction stem with
  | nil => rfl
  | cons head stem ih =>
    rw [List.cons_append, List.cons_append, cons_le_cons_iff, ih]
    simp

/-- Between two lists with a common stem there are only lists with that stem. -/
theorem between_iff (stem low high xs : List α) :
    stem ++ low ≤ xs ∧ xs ≤ stem ++ high ↔
      ∃ rest, xs = stem ++ rest ∧ low ≤ rest ∧ rest ≤ high := by
  constructor
  · induction stem generalizing xs with
    | nil => exact fun h ↦ ⟨xs, rfl, h⟩
    | cons first stem ih =>
      rintro ⟨hlow, hhigh⟩
      cases xs with
      | nil => exact absurd hlow (not_le.2 (List.nil_lt_cons _ _))
      | cons head tail =>
        rw [List.cons_append, cons_le_cons_iff] at hlow hhigh
        have hhead : head = first := by
          apply le_antisymm
          · exact hhigh.elim le_of_lt fun h ↦ h.1.le
          · exact hlow.elim le_of_lt fun h ↦ h.1.le
        subst hhead
        simp only [lt_self_iff_false, true_and, false_or] at hlow hhigh
        obtain ⟨rest, rfl, hrest⟩ := ih tail ⟨hlow, hhigh⟩
        exact ⟨rest, rfl, hrest⟩
  · rintro ⟨rest, heq, hlow, hhigh⟩
    rw [heq]
    exact ⟨(append_le_append_iff stem low rest).2 hlow,
      (append_le_append_iff stem rest high).2 hhigh⟩

/-- Lists that start with parts of the same length are compared by these parts first. -/
theorem append_lt_append_iff {left right : List α} (h : left.length = right.length)
    (left' right' : List α) :
    left ++ left' < right ++ right' ↔ left < right ∨ (left = right ∧ left' < right') := by
  induction left generalizing right with
  | nil =>
    obtain rfl := List.length_eq_zero_iff.1 h.symm
    simp
  | cons head left ih =>
    cases right with
    | nil => cases h
    | cons other right =>
      have hlength : left.length = right.length := Nat.succ.inj h
      simp only [List.cons_append, List.cons_lt_cons_iff, ih hlength, List.cons.injEq]
      tauto

/-- A strictly monotone map of the elements keeps the order of lists. -/
theorem map_lt_map_iff {β : Type*} [LinearOrder β] {f : α → β} (hf : StrictMono f)
    (left right : List α) : left.map f < right.map f ↔ left < right := by
  induction left generalizing right with
  | nil => cases right <;> simp
  | cons head left ih =>
    cases right with
    | nil => simp
    | cons other right =>
      simp only [List.map_cons, List.cons_lt_cons_iff, ih, hf.lt_iff_lt, hf.injective.eq_iff]

end Stem

/-- Between two strings with a common stem there are only strings with that stem. -/
theorem string_between_iff (stem low high text : String) :
    stem ++ low ≤ text ∧ text ≤ stem ++ high ↔
      ∃ rest, text = stem ++ rest ∧ low ≤ rest ∧ rest ≤ high := by
  simp only [String.le_iff_toList_le, String.toList_append, between_iff]
  constructor
  · rintro ⟨rest, heq, hlow, hhigh⟩
    refine ⟨String.ofList rest, ?_, ?_, ?_⟩
    · rw [← String.toList_inj, String.toList_append, String.toList_ofList]
      exact heq
    · rw [String.toList_ofList]
      exact hlow
    · rw [String.toList_ofList]
      exact hhigh
  · rintro ⟨rest, heq, hlow, hhigh⟩
    exact ⟨rest.toList, by rw [heq, String.toList_append], hlow, hhigh⟩

/-! ## Padded numerals -/

/-- The last `width` decimal digits of a number. -/
def digits : (width n : ℕ) → List Char
  | 0, _ => []
  | width + 1, n => digits width (n / 10) ++ [(n % 10).digitChar]

@[simp] theorem length_digits (width n : ℕ) : (digits width n).length = width := by
  induction width generalizing n with
  | zero => rfl
  | succ width ih => rw [digits, List.length_append, ih, List.length_singleton]

theorem digitChar_lt_iff {left right : ℕ} (hleft : left < 10) (hright : right < 10) :
    left.digitChar < right.digitChar ↔ left < right := by
  interval_cases left <;> interval_cases right <;> decide

theorem digitChar_lt_tilde {digit : ℕ} (h : digit < 10) : digit.digitChar < '~' := by
  interval_cases digit <;> decide

/-- Padding the decimal numeral with zeros gives all digits of the width. -/
theorem leftpad_toDigits {width n : ℕ} (hwidth : 0 < width) (hn : n < 10 ^ width) :
    (Nat.toDigits 10 n).leftpad width '0' = digits width n := by
  induction width generalizing n with
  | zero => cases hwidth
  | succ width ih =>
    rcases Nat.eq_zero_or_pos width with rfl | hpos
    · have hdigit : n < 10 := by simpa using hn
      rw [Nat.toDigits_of_lt_base hdigit, digits, Nat.mod_eq_of_lt hdigit]
      rfl
    · have hquotient : n / 10 < 10 ^ width := by
        rw [Nat.div_lt_iff_lt_mul (by norm_num), ← pow_succ]
        exact hn
      rw [digits, ← ih hpos hquotient]
      by_cases hdigit : n < 10
      · rw [Nat.toDigits_of_lt_base hdigit, Nat.div_eq_of_lt hdigit, Nat.toDigits_zero,
          Nat.mod_eq_of_lt hdigit]
        calc [n.digitChar].leftpad (width + 1) '0'
            = List.replicate width '0' ++ [n.digitChar] := rfl
          _ = List.replicate (width - 1 + 1) '0' ++ [n.digitChar] := by
              rw [Nat.sub_add_cancel hpos]
          _ = ['0'].leftpad width '0' ++ [n.digitChar] := by
              rw [List.replicate_succ']
              rfl
      · rw [Nat.toDigits_of_base_le (by norm_num) (not_lt.1 hdigit)]
        simp [List.leftpad]

/-- Padding with zeros does not change the number. -/
theorem ofDigitChars_leftpad (width n : ℕ) :
    Nat.ofDigitChars 10 ((Nat.toDigits 10 n).leftpad width '0') 0 = n := by
  rw [List.leftpad, Nat.ofDigitChars_append, Nat.ofDigitChars_replicate_zero, mul_zero,
    Nat.ofDigitChars_ten_toDigits]

/-- Padded numerals differ, also those that are longer than the width. -/
theorem leftpad_toDigits_injective (width : ℕ) :
    Function.Injective fun n ↦ (Nat.toDigits 10 n).leftpad width '0' := by
  intro left right h
  have hvalue := congrArg (Nat.ofDigitChars 10 · 0) h
  simpa only [ofDigitChars_leftpad] using hvalue

/-- A padded numeral consists of digits. -/
theorem isDigit_of_mem_leftpad {width n : ℕ} {character : Char}
    (h : character ∈ (Nat.toDigits 10 n).leftpad width '0') : character.isDigit = true := by
  rcases List.mem_append.1 h with hzero | hdigit
  · rw [List.eq_of_mem_replicate hzero]
    rfl
  · exact Nat.isDigit_of_mem_toDigits (by norm_num) (by norm_num) hdigit

/-- Numerals of the same width compare like their numbers. -/
theorem digits_lt_iff {width left right : ℕ} (hleft : left < 10 ^ width)
    (hright : right < 10 ^ width) : digits width left < digits width right ↔ left < right := by
  induction width generalizing left right with
  | zero =>
    rw [pow_zero, Nat.lt_one_iff] at hleft hright
    simp [digits, hleft, hright]
  | succ width ih =>
    have hquotient {n : ℕ} (h : n < 10 ^ (width + 1)) : n / 10 < 10 ^ width := by
      rw [Nat.div_lt_iff_lt_mul (by norm_num), ← pow_succ]
      exact h
    have hdigit (n : ℕ) : n % 10 < 10 := Nat.mod_lt n (by norm_num)
    have hinjective : digits width (left / 10) = digits width (right / 10) ↔
        left / 10 = right / 10 := by
      constructor
      · intro heq
        have hless := ih (hquotient hleft) (hquotient hright)
        have hmore := ih (hquotient hright) (hquotient hleft)
        rw [heq] at hless hmore
        have hnot := lt_irrefl (digits width (right / 10))
        exact le_antisymm (not_lt.1 (mt hmore.2 hnot)) (not_lt.1 (mt hless.2 hnot))
      · exact congrArg _
    have hlast : [(left % 10).digitChar] < [(right % 10).digitChar] ↔ left % 10 < right % 10 := by
      rw [List.cons_lt_cons_iff, digitChar_lt_iff (hdigit left) (hdigit right)]
      simp
    rw [digits, digits, append_lt_append_iff (by simp), ih (hquotient hleft) (hquotient hright),
      hinjective, hlast]
    omega

/-- Whatever follows it, a numeral comes before every text that starts with a tilde. -/
theorem digits_append_lt_tilde {width : ℕ} (hwidth : 0 < width) (n : ℕ) (rest : List Char) :
    digits width n ++ rest < ['~'] := by
  induction width generalizing n rest with
  | zero => cases hwidth
  | succ width ih =>
    rw [digits, List.append_assoc]
    rcases Nat.eq_zero_or_pos width with rfl | hpos
    · exact List.Lex.rel (digitChar_lt_tilde (Nat.mod_lt n (by norm_num)))
    · exact ih hpos (n / 10) _

end P2PApp.LexicographicRange
