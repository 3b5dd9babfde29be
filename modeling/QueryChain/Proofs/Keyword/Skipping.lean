import QueryChain.Proofs.Keyword.Layout

namespace QueryChain

variable {sql : Text} {k : Keyword} {n p : Nat}

theorem atTop_of_plain {c : Char} (start : stateAt sql p = {}) (first : (sql.drop p).head? = some c)
    (plain : isPlain c) : (cursorAt sql p).atTop := by
  obtain ⟨rest, text⟩ := List.head?_eq_some_iff.mp first
  rw [Cursor.atTop, marks_cursorAt, drop_scan, start, text, ScanState.marks, List.head?_cons,
    Option.any_some, ScanState.mark_plain {} rfl c rest plain]
  rfl

theorem stands_of_keyword? {after : Cursor} (isKeyword : IsKeyword k) (inText : p ≤ sql.length)
    (start : stateAt sql p = {}) (found : (cursorAt sql p).keyword? k = some after) :
    ∃ q, Stands sql k p q ∧ after = cursorAt sql q := by
  obtain ⟨q, le, bound, spells, -⟩ := (keyword?_cursorAt_iff isKeyword inText).mp found
  obtain ⟨c, first, letter⟩ := spells.head? isKeyword
  have here : (sql.drop p).head? = some c := by
    rw [slice_eq_take_drop, List.head?_take] at first
    split at first
    · cases first
    · exact first
  have top := atTop_of_plain start here (isPlain_of_isKeywordChar c letter)
  exact (keyword?_cursorAt isKeyword inText).mp ⟨top, found⟩

theorem skipBlanks_cursorAt (inText : n ≤ sql.length) :
    ∃ m, n ≤ m ∧ m ≤ sql.length ∧ (∀ c ∈ slice n m sql, isBlank c) ∧
      Cursor.skipBlanks (cursorAt sql n).before (cursorAt sql n).marks = cursorAt sql m := by
  have text : markText (cursorAt sql n).marks = sql.drop n := text_cursorAt
  have short := (List.takeWhile_prefix isBlank (l := sql.drop n)).length_le
  rw [List.length_drop] at short
  refine ⟨n + ((sql.drop n).takeWhile isBlank).length, by omega, by omega, ?_, ?_⟩
  · intro c member
    rw [slice_eq_take_drop, Nat.add_sub_cancel_left,
      ← List.prefix_iff_eq_take.mp (List.takeWhile_prefix isBlank)] at member
    exact List.mem_takeWhile_imp member
  · rw [Cursor.skipBlanks_eq_skip, text]
    exact skip_cursorAt

structure Foreign (ks : List Keyword) (k : Keyword) : Prop where
  isKeyword : IsKeyword k
  areKeywords : ∀ l ∈ ks, IsKeyword l
  apart : ∀ l ∈ ks, ApartFrom l k
  words : ∀ l ∈ ks, upper (l.headD []) ≠ upper (k.headD [])

instance (ks : List Keyword) (k : Keyword) : Decidable (Foreign ks k) :=
  decidable_of_iff (IsKeyword k ∧ (∀ l ∈ ks, IsKeyword l) ∧ (∀ l ∈ ks, ApartFrom l k) ∧
      ∀ l ∈ ks, upper (l.headD []) ≠ upper (k.headD []))
    ⟨fun ⟨a, b, c, d⟩ => ⟨a, b, c, d⟩, fun ⟨a, b, c, d⟩ => ⟨a, b, c, d⟩⟩

/-- Passing over blanks and a run of keywords leaves nothing open and passes over no other keyword. -/
theorem skipRun_cursorAt (ks : List Keyword) (areKeywords : ∀ k ∈ ks, IsKeyword k) (fuel : Nat)
    (inText : n ≤ sql.length) (start : stateAt sql n = {}) :
    ∃ m, n ≤ m ∧ m ≤ sql.length ∧ stateAt sql m = {} ∧
      (cursorAt sql n).skipRun ks fuel = cursorAt sql m ∧
      ∀ k, Foreign ks k → ∀ p q, Stands sql k p q → n ≤ p → m ≤ p := by
  induction fuel generalizing n with
  | zero => exact ⟨n, Nat.le_refl n, inText, start, rfl, fun _ _ _ _ _ behind => behind⟩
  | succ fuel ih =>
    obtain ⟨m₁, le₁, bound₁, blank, atBlanks⟩ := skipBlanks_cursorAt inText
    have start₁ : stateAt sql m₁ = {} :=
      stateAt_plain le₁ (fun c member => isPlain_of_isBlank c (blank c member)) start
    rw [Cursor.skipRun, atBlanks]
    cases found : ks.findSome? (cursorAt sql m₁).keyword? with
    | none => exact ⟨n, Nat.le_refl n, inText, start, rfl, fun _ _ _ _ _ behind => behind⟩
    | some after =>
      obtain ⟨l, member, here⟩ := List.exists_of_findSome?_eq_some found
      obtain ⟨m₂, stands, rfl⟩ := stands_of_keyword? (areKeywords l member) bound₁ start₁ here
      obtain ⟨m, le, bound, last, run, behind⟩ :=
        ih stands.bound (stands.state_eq_end (areKeywords l member))
      have le₂ := stands.le
      refine ⟨m, by omega, bound, last, run, ?_⟩
      intro k foreign p q other from_
      apply behind k foreign p q other
      obtain ⟨c, first, letter⟩ := other.spells.head? foreign.isKeyword
      have notBlank : m₁ ≤ p := by
        by_contra inBlanks
        have inText := other.inText foreign.isKeyword
        have at_ : sql[p]? = some c := by
          rw [slice_eq_take_drop, List.head?_take] at first
          split at first
          · cases first
          · rwa [List.head?_drop] at first
        have inSlice : c ∈ slice n m₁ sql := by
          apply List.mem_of_getElem? (i := p - n)
          rwa [slice_eq_take_drop, List.getElem?_take, if_pos (by omega), List.getElem?_drop,
            Nat.add_sub_cancel' from_]
        have isBlank := blank c inSlice
        rw [isBlank_of_isKeywordChar c letter] at isBlank
        cases isBlank
      have notHere : m₁ ≠ p := by
        rintro rfl
        exact foreign.words l member (stands.same_word other (areKeywords l member) foreign.isKeyword)
      exact stands.not_inside other (areKeywords l member) foreign.isKeyword (foreign.apart l member)
        (by omega)

theorem suffix_of_keyword? {c after : Cursor} {k : Keyword} (found : c.keyword? k = some after) :
    after.text <:+ c.text := by
  obtain ⟨spelling, parts, -⟩ := Cursor.keyword?_eq_some found
  exact ⟨spelling, parts.symm⟩

theorem suffix_of_find? {c after : Cursor} {ks : List Keyword} {passed : Text}
    (found : c.find? ks = some (passed, after)) : after.text <:+ c.text := by
  obtain ⟨here, parts, answer⟩ := Cursor.seekFrom_eq_some found
  rw [Cursor.topKeyword?] at answer
  split at answer
  · obtain ⟨k, -, there⟩ := List.exists_of_findSome?_eq_some answer
    exact (suffix_of_keyword? there).trans ⟨passed, parts.symm⟩
  · cases answer

theorem suffix_skipRun (ks : List Keyword) (fuel : Nat) (c : Cursor) : (c.skipRun ks fuel).text <:+ c.text := by
  induction fuel generalizing c with
  | zero => exact List.suffix_refl _
  | succ fuel ih =>
    rw [Cursor.skipRun]
    cases found : ks.findSome? (Cursor.skipBlanks c.before c.marks).keyword? with
    | none => exact List.suffix_refl _
    | some after =>
      obtain ⟨k, -, there⟩ := List.exists_of_findSome?_eq_some found
      obtain ⟨blanks, parts, -⟩ := Cursor.text_skipBlanks c.before c.marks
      exact ((ih after).trans (suffix_of_keyword? there)).trans ⟨blanks, parts.symm⟩

theorem suffix_skipAny (ks : List Keyword) (c : Cursor) : (c.skipAny ks).text <:+ c.text :=
  suffix_skipRun ks _ c

end QueryChain
