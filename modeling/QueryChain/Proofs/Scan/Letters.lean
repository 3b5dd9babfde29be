import QueryChain.Proofs.Scan.Tracker
import QueryChain.Proofs.Scan.WordChar

namespace QueryChain

section Letters

variable {c d : Char} {t u : Text}

theorem isAlpha_of_toUpper_ne (other : c.toUpper ≠ c) : c.isAlpha ∧ c.toUpper.isAlpha := by
  by_cases lower : 97 ≤ c.toNat ∧ c.toNat ≤ 122
  · refine ⟨(isAlpha_iff c).mpr (.inr lower), (isAlpha_iff _).mpr (.inl ?_)⟩
    have isLower : 'a'.val ≤ c.val ∧ c.val ≤ 'z'.val := by
      rw [UInt32.le_iff_toNat_le, UInt32.le_iff_toNat_le]
      exact lower
    have code : c.toUpper.toNat = c.toNat - 32 := by
      unfold Char.toUpper
      rw [dif_pos isLower]
      change (c.val + ('A'.val - 'a'.val)).toNat = c.val.toNat - 32
      have low : 97 ≤ c.val.toNat := lower.1
      have high : c.val.toNat ≤ 122 := lower.2
      rw [UInt32.toNat_add, show ('A'.val - 'a'.val).toNat = 2 ^ 32 - 32 from rfl]
      omega
    omega
  · exact absurd (toUpper_eq_self c lower) other

theorem sameLetter_cases (same : sameLetter c d) : c = d ∨ c.isAlpha ∧ d.isAlpha := by
  rw [sameLetter, beq_iff_eq] at same
  by_cases first : c.toUpper = c
  · by_cases second : d.toUpper = d
    · exact .inl (by rw [← first, same, second])
    · obtain ⟨alpha, capital⟩ := isAlpha_of_toUpper_ne second
      exact .inr ⟨by rwa [← first, same], alpha⟩
  · obtain ⟨alpha, capital⟩ := isAlpha_of_toUpper_ne first
    refine .inr ⟨alpha, ?_⟩
    by_cases second : d.toUpper = d
    · rwa [← second, ← same]
    · exact (isAlpha_of_toUpper_ne second).1

/-- No letter is the same as another character. -/
theorem eq_iff_of_sameLetter {x : Char} (same : sameLetter c d) (other : x.isAlpha = false) : c = x ↔ d = x := by
  rcases sameLetter_cases same with rfl | ⟨first, second⟩
  · rfl
  · constructor
    · rintro rfl
      rw [first] at other
      cases other
    · rintro rfl
      rw [second] at other
      cases other

/-- A question that all letters answer alike is answered alike in either case. -/
theorem congr_of_sameLetter {α : Type} {f : Char → α} (letters : ∀ c, c.isAlpha → f c = f 'a')
    (same : sameLetter c d) : f c = f d := by
  rcases sameLetter_cases same with rfl | ⟨first, second⟩
  · rfl
  · rw [letters c first, letters d second]

theorem isKeywordChar_of_isAlpha (alpha : c.isAlpha) : isKeywordChar c := by
  simp [isKeywordChar, alpha]

theorem isBlank_of_sameLetter (same : sameLetter c d) : isBlank c = isBlank d :=
  congr_of_sameLetter (fun c alpha => isBlank_of_isKeywordChar c (isKeywordChar_of_isAlpha alpha)) same

theorem isWordChar_of_sameLetter (same : sameLetter c d) : isWordChar c = isWordChar d :=
  congr_of_sameLetter
    (fun c alpha => isWordChar_of_isKeywordChar c (isKeywordChar_of_isAlpha alpha)) same

def SameHead (t u : Text) : Prop := t.head?.map Char.toUpper = u.head?.map Char.toUpper

theorem SameHead.cases (same : SameHead t u) : t = [] ∧ u = [] ∨
    ∃ a t' b u', t = a :: t' ∧ u = b :: u' ∧ sameLetter a b := by
  cases t with
  | nil =>
    cases u with
    | nil => exact .inl ⟨rfl, rfl⟩
    | cons b u => cases same
  | cons a t =>
    cases u with
    | nil => cases same
    | cons b u => exact .inr ⟨a, t, b, u, rfl, rfl, by simpa [sameLetter] using Option.some.inj same⟩

theorem SameHead.all {f : Char → Bool} (folds : ∀ a b, sameLetter a b → f a = f b) (same : SameHead t u) :
    t.head?.all f = u.head?.all f := by
  rcases same.cases with ⟨rfl, rfl⟩ | ⟨a, t', b, u', rfl, rfl, letters⟩
  · rfl
  · simpa using folds a b letters

theorem SameHead.eq_some_iff {x : Char} (other : x.isAlpha = false) (same : SameHead t u) :
    t.head? = some x ↔ u.head? = some x := by
  rcases same.cases with ⟨rfl, rfl⟩ | ⟨a, t', b, u', rfl, rfl, letters⟩
  · rfl
  · simpa using eq_iff_of_sameLetter letters other

structure SameStart (t u : Text) : Prop where
  head : SameHead t u
  second : t.head? = some '-' → SameHead t.tail u.tail

theorem opensLineComment_dash (t : Text) :
    opensLineComment '-' t = (t.head? == some '-' && t.tail.head?.all isBlank) := by
  cases t with
  | nil => rfl
  | cons d t =>
    by_cases dash : d = '-'
    · subst dash
      rfl
    · simp [opensLineComment, dash]

theorem opensLineComment_other (hash : c ≠ '#') (dash : c ≠ '-') (t : Text) : opensLineComment c t = false := by
  unfold opensLineComment
  split
  · exact absurd rfl hash
  · exact absurd rfl dash
  · rfl

theorem role_of_same (same : sameLetter c d) (start : SameStart t u) : Role.of c t = Role.of d u := by
  rcases sameLetter_cases same with rfl | ⟨first, second⟩
  · have line : opensLineComment c t = opensLineComment c u := by
      by_cases dash : c = '-'
      · subst dash
        rw [opensLineComment_dash, opensLineComment_dash]
        by_cases again : t.head? = some '-'
        · have behind := (start.second again).all (f := isBlank) fun a b => isBlank_of_sameLetter
          have other := (start.head.eq_some_iff (x := '-') (by decide)).mp again
          rw [again, other, behind]
        · have other : u.head? ≠ some '-' := fun found =>
            again ((start.head.eq_some_iff (x := '-') (by decide)).mpr found)
          rw [beq_eq_false_iff_ne.mpr again, beq_eq_false_iff_ne.mpr other, Bool.false_and, Bool.false_and]
      · by_cases hash : c = '#'
        · rw [hash]
          rfl
        · rw [opensLineComment_other hash dash, opensLineComment_other hash dash]
    have block : opensBlockComment c t = opensBlockComment c u := by
      have star := start.head.eq_some_iff (x := '*') (by decide)
      rw [opensBlockComment, opensBlockComment]
      congr 1
      rw [Bool.eq_iff_iff]
      simpa using star
    rw [Role.of, Role.of, line, block]
  · rw [role_of_plain c t (isPlain_of_isKeywordChar c (isKeywordChar_of_isAlpha first)),
      role_of_plain d u (isPlain_of_isKeywordChar d (isKeywordChar_of_isAlpha second))]

end Letters

def ScanState.Proper (s : ScanState) : Prop := ∀ q escaped, s.mode = .quote q escaped → isQuote q

section Steps

variable {s : ScanState} {c d : Char} {t u : Text}

theorem ScanState.Proper.next (proper : s.Proper) (c : Char) (t : Text) : (s.next c t).Proper := by
  intro q escaped quote
  obtain ⟨mode, depth⟩ := s
  cases mode with
  | code =>
    rw [ScanState.next] at quote
    cases role : Role.of c t <;> rw [role] at quote <;> cases quote
    rcases @isQuote_of_role c t with isQuote | line | block
    · rw [isQuote, role]
      rfl
    · rw [line] at role
      cases role
    · rw [block] at role
      cases role
  | quote q' escaped' =>
    have quoteChar := proper q' escaped' rfl
    cases escaped' with
    | true =>
      cases quote
      exact quoteChar
    | false =>
      rw [ScanState.next] at quote
      dsimp only at quote
      split_ifs at quote <;> cases quote <;> exact quoteChar
  | lineComment =>
    rw [ScanState.next] at quote
    dsimp only at quote
    split_ifs at quote
  | opener => cases quote
  | blockComment star =>
    rw [ScanState.next] at quote
    dsimp only at quote
    split_ifs at quote

/-- A step of the scan does not see the case of a letter. -/
theorem ScanState.next_of_same (proper : s.Proper) (same : sameLetter c d) (start : SameStart t u) :
    s.next c t = s.next d u := by
  obtain ⟨mode, depth⟩ := s
  have role := role_of_same same start
  have is (x : Char) (other : x.isAlpha = false) := eq_iff_of_sameLetter (x := x) same other
  cases mode with
  | code =>
    rw [ScanState.next, ScanState.next, role]
    cases quote : Role.of d u <;> try rfl
    have isQuote : isQuote c := by
      rcases @isQuote_of_role c t with isQuote | line | block
      · rw [isQuote, role, quote]
        rfl
      · rw [line, quote] at role
        cases role
      · rw [block, quote] at role
        cases role
    rcases sameLetter_cases same with rfl | ⟨alpha, -⟩
    · rfl
    · have plain := isPlain_of_isKeywordChar c (isKeywordChar_of_isAlpha alpha)
      simp [isPlain, isQuote] at plain
  | quote q escaped =>
    cases escaped with
    | true => rfl
    | false =>
      have quoteChar := proper q false rfl
      have letter : q.isAlpha = false := by
        rw [Bool.eq_false_iff]
        intro alpha
        have plain := isPlain_of_isKeywordChar q (isKeywordChar_of_isAlpha alpha)
        simp [isPlain, quoteChar] at plain
      simp only [ScanState.next, is '\\' (by decide), is q letter]
  | lineComment => simp only [ScanState.next, is '\n' (by decide)]
  | opener => rfl
  | blockComment star =>
    have isStar : (c == '*') = (d == '*') := by
      rw [Bool.eq_iff_iff]
      simpa using is '*' (by decide)
    simp only [ScanState.next, is '/' (by decide), isStar]

theorem ScanState.mark_of_same (same : sameLetter c d) (start : SameStart t u) :
    s.mark c t = { s.mark d u with char := c } := by
  obtain ⟨mode, depth⟩ := s
  have role := role_of_same same start
  cases mode with
  | code =>
    rw [ScanState.mark, ScanState.mark, role]
    cases Role.of d u <;> rfl
  | lineComment =>
    simp only [ScanState.mark, eq_iff_of_sameLetter (x := '\n') same (by decide)]
  | quote q escaped => rfl
  | opener => rfl
  | blockComment star => rfl

theorem ScanState.mode_next {s' : ScanState} (mode : s.mode = s'.mode) :
    (s.next c t).mode = (s'.next c t).mode := by
  obtain ⟨m, depth⟩ := s
  obtain ⟨m', depth'⟩ := s'
  obtain rfl : m = m' := mode
  cases m with
  | code =>
    rw [ScanState.next, ScanState.next]
    cases Role.of c t <;> rfl
  | quote q escaped =>
    cases escaped with
    | true => rfl
    | false =>
      simp only [ScanState.next]
      split_ifs <;> rfl
  | lineComment =>
    simp only [ScanState.next]
    split_ifs <;> rfl
  | opener => rfl
  | blockComment star =>
    simp only [ScanState.next]
    split_ifs <;> rfl

end Steps
end QueryChain
