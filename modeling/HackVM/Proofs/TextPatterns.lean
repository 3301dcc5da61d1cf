import HackVM.Proofs.SymbolText

/-! # Patterns of texts

Names and numerals by the shape of their texts, spelled out in characters: a word
starts with a letter or one of some marks and goes on with letters, digits and
these marks, and a numeral is a row of ASCII digits.  The tests that the reader
makes are exactly these patterns (`isSymbolName_iff_isWord`,
`isNumeral_iff_isDigits`), and a numeral of at most `Text.digitLimit` digits denotes
a number that can be written again (`isWritable_numeralValue`). -/
namespace HackVM

namespace Text

/-- The letters of ASCII. -/
def IsLetter (c : Char) : Prop := ('A' ≤ c ∧ c ≤ 'Z') ∨ ('a' ≤ c ∧ c ≤ 'z')

/-- The digits of ASCII. -/
def IsDigit (c : Char) : Prop := '0' ≤ c ∧ c ≤ '9'

/-- A text that starts with a letter or a mark and goes on with letters, digits and
marks. -/
def IsWord (marks : List Char) (t : String) : Prop :=
  ∃ c cs, t.toList = c :: cs ∧ (IsLetter c ∨ c ∈ marks) ∧
    ∀ x ∈ cs, IsLetter x ∨ IsDigit x ∨ x ∈ marks

/-- A text of one or more digits. -/
def IsDigits (t : String) : Prop := t ≠ "" ∧ ∀ c ∈ t.toList, IsDigit c

/-! ## Characters -/

theorem isAlpha_iff {c : Char} : c.isAlpha = true ↔ IsLetter c := by
  have hupper : c.isUpper = true ↔ 'A' ≤ c ∧ c ≤ 'Z' := decide_eq_true_iff
  have hlower : c.isLower = true ↔ 'a' ≤ c ∧ c ≤ 'z' :=
    Bool.and_eq_true_iff.trans (and_congr decide_eq_true_iff decide_eq_true_iff)
  exact Bool.or_eq_true_iff.trans (or_congr hupper hlower)

theorem isDigit_iff {c : Char} : c.isDigit = true ↔ IsDigit c := by
  simp [Char.isDigit, IsDigit, Char.le_def]

theorem isSymbolStart_iff {c : Char} :
    isSymbolStart c = true ↔ IsLetter c ∨ c ∈ ['_', '.', ':'] := by
  simp [isSymbolStart, isAlpha_iff, or_assoc]

theorem isModuleStart_iff {c : Char} : isModuleStart c = true ↔ IsLetter c ∨ c ∈ ['_', ':'] := by
  simp [isModuleStart, isAlpha_iff, or_assoc]

/-- What may continue a word is what may start it, or a digit. -/
theorem part_iff {start : Char → Bool} {marks : List Char} {c : Char}
    (h : start c = true ↔ IsLetter c ∨ c ∈ marks) :
    (start c || c.isDigit) = true ↔ IsLetter c ∨ IsDigit c ∨ c ∈ marks := by
  rw [Bool.or_eq_true, h, isDigit_iff, or_assoc, or_comm (a := c ∈ marks)]

end Text

open Text

/-! ## Names -/

theorem isSymbolName_iff_isWord {t : String} :
    isSymbolName t = true ↔ IsWord ['_', '.', ':'] t := by
  simp only [isSymbolName_iff, IsWord, isSymbolPart, part_iff isSymbolStart_iff, isSymbolStart_iff]

theorem isModuleName_iff_isWord {t : String} : isModuleName t = true ↔ IsWord ['_', ':'] t := by
  simp only [isModuleName_iff, IsWord, isModulePart, part_iff isModuleStart_iff, isModuleStart_iff]

/-! ## Numerals -/

namespace Text

theorem isNumeral_iff_isDigits {t : String} : isNumeral t = true ↔ IsDigits t := by
  simp [isNumeral, IsDigits, isDigit_iff]

/-- A row of digits denotes a number below the power of ten of its length. -/
theorem ofDigitChars_lt {cs : List Char} (h : ∀ c ∈ cs, IsDigit c) :
    Nat.ofDigitChars 10 cs 0 < Nat.pow 10 cs.length := by
  induction cs with
  | nil => exact Nat.one_pos
  | cons c cs ih =>
    have hc : c.toNat ≤ 57 := (h c (List.mem_cons_self ..)).2
    have hrest := ih fun x hx => h x (List.mem_cons_of_mem _ hx)
    rw [Nat.ofDigitChars_cons, Nat.ofDigitChars_eq_ofDigitChars_zero, List.length_cons]
    show 10 ^ cs.length * (10 * 0 + (c.toNat - 48)) + Nat.ofDigitChars 10 cs 0 <
      10 ^ (cs.length + 1)
    have hdigit : 10 ^ cs.length * (10 * 0 + (c.toNat - 48)) ≤ 10 ^ cs.length * 9 :=
      Nat.mul_le_mul_left _ (by omega)
    have hpow : 10 ^ (cs.length + 1) = 10 ^ cs.length * 9 + 10 ^ cs.length := by
      rw [Nat.pow_succ, Nat.mul_succ]
    exact hpow ▸ Nat.add_lt_add_of_le_of_lt hdigit hrest

/-- A number can be written exactly when its numeral has no more digits than the
limit. -/
theorem isWritable_iff {n : Nat} :
    isWritable n = true ↔ (Nat.toDigits 10 n).length ≤ digitLimit := by
  have hlimit : 0 < digitLimit := by decide
  unfold isWritable
  -- the limit itself is never computed
  generalize digitLimit = k at hlimit ⊢
  rw [decide_eq_true_eq, Nat.length_toDigits_le_iff (by decide) hlimit]
  rfl

/-- A number below a power of ten within the limit can be written. -/
theorem isWritable_of_lt_pow {n k : Nat} (hk : k ≤ digitLimit) (h : n < Nat.pow 10 k) :
    isWritable n = true := by
  unfold isWritable
  generalize digitLimit = limit at hk ⊢
  exact decide_eq_true (Nat.lt_of_lt_of_le h (Nat.pow_le_pow_right (by decide) hk))

/-- **What can be read can be written.** -/
theorem isWritable_numeralValue {t : String} (h : IsDigits t) (hl : t.length ≤ digitLimit) :
    isWritable (numeralValue t) = true := by
  refine isWritable_of_lt_pow hl ?_
  rw [← String.length_toList]
  exact ofDigitChars_lt h.2

end Text
end HackVM
