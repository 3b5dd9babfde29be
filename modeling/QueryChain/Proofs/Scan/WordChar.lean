import QueryChain.Proofs.Scan.State
import QueryChain.Text.AsciiCase
import QueryChain.Text.Letter

namespace QueryChain

theorem isUpper_iff (c : Char) : c.isUpper ↔ 65 ≤ c.toNat ∧ c.toNat ≤ 90 := by
  have decided : c.isUpper ↔ 'A'.val ≤ c.val ∧ c.val ≤ 'Z'.val := decide_eq_true_iff
  rw [decided, UInt32.le_iff_toNat_le, UInt32.le_iff_toNat_le]
  exact Iff.rfl

theorem isLower_iff (c : Char) : c.isLower ↔ 97 ≤ c.toNat ∧ c.toNat ≤ 122 := by
  change (decide ('a'.val ≤ c.val) && decide (c.val ≤ 'z'.val)) = true ↔ _
  rw [Bool.and_eq_true, decide_eq_true_iff, decide_eq_true_iff, UInt32.le_iff_toNat_le,
    UInt32.le_iff_toNat_le]
  exact Iff.rfl

theorem isAlpha_of_isUpper {c : Char} (upper : c.isUpper) : c.isAlpha :=
  Bool.or_eq_true_iff.mpr (.inl upper)

theorem isAlpha_iff (c : Char) :
    c.isAlpha ↔ (65 ≤ c.toNat ∧ c.toNat ≤ 90) ∨ (97 ≤ c.toNat ∧ c.toNat ≤ 122) := by
  rw [← isUpper_iff, ← isLower_iff]
  exact Bool.or_eq_true_iff

theorem isDigit_iff (c : Char) : c.isDigit ↔ 48 ≤ c.toNat ∧ c.toNat ≤ 57 := by
  simp only [Char.isDigit, Bool.and_eq_true, decide_eq_true_eq, ge_iff_le, UInt32.le_iff_toNat_le]
  exact Iff.rfl

theorem toUpper_eq_self (c : Char) (notLower : ¬(97 ≤ c.toNat ∧ c.toNat ≤ 122)) : c.toUpper = c := by
  unfold Char.toUpper
  split
  · rename_i lower
    simp only [UInt32.le_iff_toNat_le] at lower
    exact absurd lower notLower
  · rfl

def blankCodes : List Nat :=
  [0x09, 0x0a, 0x0b, 0x0c, 0x0d, 0x20, 0x85, 0xa0, 0x1680, 0x2000, 0x2001, 0x2002, 0x2003, 0x2004,
    0x2005, 0x2006, 0x2007, 0x2008, 0x2009, 0x200a, 0x2028, 0x2029, 0x202f, 0x205f, 0x3000]

theorem toNat_mem_blankCodes (c : Char) (blank : isBlank c) : c.toNat ∈ blankCodes := by
  have lines : List.range' 0x09 5 ⊆ blankCodes := by decide
  have spaces : List.range' 0x2000 11 ⊆ blankCodes := by decide
  simp only [isBlank, Bool.or_eq_true, Bool.and_eq_true, decide_eq_true_eq, beq_iff_eq] at blank
  rcases blank with (((((((((line | one) | one) | one) | one) | space) | one) | one) | one) | one) | one
  case inl.inl.inl.inl.inl.inl.inl.inl.inl.inl => exact lines (List.mem_range'_1.mpr (by omega))
  case inl.inl.inl.inl.inl.inr => exact spaces (List.mem_range'_1.mpr (by omega))
  all_goals
    rw [one]
    decide

theorem blankCodes_apart : ∀ n ∈ blankCodes,
    letterRanges.any (fun (lo, hi) => lo ≤ n && n ≤ hi) = false ∧ n ∉ "_$@.".toList.map Char.toNat ∧
    ¬(65 ≤ n ∧ n ≤ 90) ∧ ¬(97 ≤ n ∧ n ≤ 122) ∧ ¬(48 ≤ n ∧ n ≤ 57) := by
  -- the comparisons by which the kernel gets through the ranges quickly
  have far : ∀ n ∈ blankCodes, letterRanges.any (fun (lo, hi) => lo.ble n && n.ble hi) = false := by decide +kernel
  have near : ∀ n ∈ blankCodes, n ∉ "_$@.".toList.map Char.toNat ∧
      ¬(65 ≤ n ∧ n ≤ 90) ∧ ¬(97 ≤ n ∧ n ≤ 122) ∧ ¬(48 ≤ n ∧ n ≤ 57) := by decide
  refine fun n member => ⟨?_, near n member⟩
  rw [← far n member]
  refine congrArg letterRanges.any (funext fun (lo, hi) => ?_)
  simp only [← Nat.ble_eq, Bool.decide_eq_true]

theorem isWordChar_of_isBlank (c : Char) (blank : isBlank c) : isWordChar c = false := by
  obtain ⟨other, marks, upper, lower, digit⟩ := blankCodes_apart c.toNat (toNat_mem_blankCodes c blank)
  have letter : c.isAlpha = false := by
    rw [Bool.eq_false_iff, ne_eq, isAlpha_iff]
    omega
  have figure : c.isDigit = false := by
    rw [Bool.eq_false_iff, ne_eq, isDigit_iff]
    exact digit
  have far : isLetterOrNumber c = false := by
    unfold isLetterOrNumber
    split
    · simp [Char.isAlphanum, letter, figure]
    · exact other
  have apart (d : Char) (member : d ∈ "_$@.".toList) : (c == d) = false := by
    rw [beq_eq_false_iff_ne]
    rintro rfl
    exact marks (List.mem_map_of_mem member)
  simp [isWordChar, far, apart '_' (by decide), apart '$' (by decide), apart '@' (by decide),
    apart '.' (by decide)]

def isKeywordChar (c : Char) : Bool := c.isAlpha || c == '_'

theorem isWordChar_of_isKeywordChar (c : Char) (letter : isKeywordChar c) : isWordChar c := by
  rw [isKeywordChar, Bool.or_eq_true, beq_iff_eq] at letter
  rcases letter with letter | rfl
  · have ascii : c.toNat < 0x80 := by
      rw [isAlpha_iff] at letter
      omega
    simp [isWordChar, isLetterOrNumber, ascii, Char.isAlphanum, letter]
  · decide

theorem isBlank_of_isKeywordChar (c : Char) (letter : isKeywordChar c) : isBlank c = false := by
  by_contra blank
  have word := isWordChar_of_isKeywordChar c letter
  rw [isWordChar_of_isBlank c (by simpa using blank)] at word
  cases word

theorem ne_of_isKeywordChar {c d : Char} (letter : isKeywordChar c) (other : isKeywordChar d = false) : c ≠ d := by
  rintro rfl
  rw [letter] at other
  cases other

theorem isPlain_of_isKeywordChar (c : Char) (letter : isKeywordChar c) : isPlain c := by
  by_contra special
  have cases : c = '#' ∨ c = '-' ∨ c = '/' ∨ c = '\'' ∨ c = '"' ∨ c = '`' ∨ c = '(' ∨ c = ')' := by
    simp only [isPlain, isQuote] at special
    grind
  rcases cases with rfl | rfl | rfl | rfl | rfl | rfl | rfl | rfl <;> revert letter <;> decide

def isCapital (c : Char) : Bool := c.isUpper || c == '_'

theorem toUpper_of_isCapital (c : Char) (capital : isCapital c) : c.toUpper = c := by
  apply toUpper_eq_self
  rw [isCapital, Bool.or_eq_true, beq_iff_eq] at capital
  rcases capital with upper | rfl
  · have code := (isUpper_iff c).mp upper
    omega
  · decide

theorem isKeywordChar_of_sameLetter (w c : Char) (capital : isCapital w) (same : sameLetter w c) :
    isKeywordChar c := by
  rw [sameLetter, beq_iff_eq, toUpper_of_isCapital w capital] at same
  by_cases lower : 97 ≤ c.toNat ∧ c.toNat ≤ 122
  · simp [isKeywordChar, (isAlpha_iff c).mpr (.inr lower)]
  · rw [toUpper_eq_self c lower] at same
    subst same
    rw [isCapital, Bool.or_eq_true, beq_iff_eq] at capital
    rcases capital with upper | rfl
    · simp [isKeywordChar, isAlpha_of_isUpper upper]
    · decide

end QueryChain
