import QueryChain.Proofs.Keyword.Spelling

namespace QueryChain

def cursorAt (sql : Text) (n : Nat) : Cursor := (Cursor.start sql).skip n

def stateAt (sql : Text) (n : Nat) : ScanState :=
  ({} : ScanState).behind (sql.take n) (sql.drop n)

section Places

variable {sql : Text} {n m : Nat}

@[simp] theorem cursorAt_zero : cursorAt sql 0 = Cursor.start sql := by simp [cursorAt]

@[simp] theorem stateAt_zero : stateAt sql 0 = {} := by simp [stateAt]

theorem skip_cursorAt : (cursorAt sql n).skip m = cursorAt sql (n + m) := Cursor.skip_skip n m _

@[simp] theorem marks_cursorAt : (cursorAt sql n).marks = (scan sql).drop n := by
  simp [cursorAt, Cursor.start]

@[simp] theorem text_cursorAt : (cursorAt sql n).text = sql.drop n := by
  simp [cursorAt, Cursor.start, Cursor.text_mk]

@[simp] theorem length_scan : (scan sql).length = sql.length := ScanState.length_marks _ sql

theorem drop_scan : (scan sql).drop n = (stateAt sql n).marks (sql.drop n) := by
  have whole := ScanState.drop_marks {} (sql.take n) (sql.drop n)
  rw [List.take_append_drop] at whole
  by_cases bound : n ≤ sql.length
  · rw [List.length_take, Nat.min_eq_left bound] at whole
    exact whole
  · rw [List.drop_eq_nil_of_le (by simp; omega), List.drop_eq_nil_of_le (by omega)]
    rfl

theorem stateAt_add : stateAt sql (n + m) =
    (stateAt sql n).behind ((sql.drop n).take m) (sql.drop (n + m)) := by
  rw [stateAt, List.take_add, ScanState.behind_append, stateAt]
  congr 1
  rw [← List.drop_drop, List.take_append_drop]

/-- Plain characters leave nothing open. -/
theorem stateAt_plain (le : n ≤ m) (plain : ∀ c ∈ slice n m sql, isPlain c)
    (start : stateAt sql n = {}) : stateAt sql m = {} := by
  have moved : stateAt sql (n + (m - n)) = _ := stateAt_add
  rw [Nat.add_sub_cancel' le, start, ← slice_eq_take_drop, ScanState.behind_plain {} rfl _ _ plain] at moved
  exact moved

theorem before_cursorAt (bound : n < sql.length) : (cursorAt sql (n + 1)).before = some sql[n] := by
  rw [cursorAt, Cursor.before_skip n _ (by simpa [Cursor.start] using bound)]
  have chars : (markText (scan sql))[n]? = some sql[n] := by
    rw [markText_scan, List.getElem?_eq_getElem bound]
  rw [markText, List.getElem?_map] at chars
  obtain ⟨mark, at_, char⟩ := Option.map_eq_some_iff.mp chars
  obtain ⟨_, rfl⟩ := List.getElem?_eq_some_iff.mp at_
  exact congrArg some char

end Places

/-- The keyword is written at the top level from place `p` up to place `q`. -/
structure Stands (sql : Text) (k : Keyword) (p q : Nat) : Prop where
  le : p ≤ q
  bound : q ≤ sql.length
  spells : Spells k (slice p q sql)
  top : (cursorAt sql p).atTop
  before : (cursorAt sql p).before.any isWordChar = false
  after : (sql.drop q).head?.any isWordChar = false

theorem keyword?_cursorAt {sql : Text} {k : Keyword} {p : Nat} {after : Cursor}
    (isKeyword : IsKeyword k) (inText : p ≤ sql.length) :
    (cursorAt sql p).atTop ∧ (cursorAt sql p).keyword? k = some after ↔
      ∃ q, Stands sql k p q ∧ after = cursorAt sql q := by
  rw [Cursor.keyword?_eq_some_iff isKeyword, text_cursorAt]
  constructor
  · rintro ⟨top, before, t, rest, text, spells, stop, rfl⟩
    have lengths := congrArg List.length text
    rw [List.length_drop, List.length_append] at lengths
    have written : slice p (p + t.length) sql = t := by
      rw [slice_eq_take_drop, text]
      simp
    refine ⟨p + t.length, ⟨by omega, by omega, by rwa [written], top, before, ?_⟩, skip_cursorAt⟩
    rw [← List.drop_drop, text]
    simpa using stop
  · rintro ⟨q, stands, rfl⟩
    refine ⟨stands.top, stands.before, slice p q sql, sql.drop q, ?_, stands.spells, stands.after, ?_⟩
    · exact (slice_append_drop stands.le stands.bound).symm
    · rw [skip_cursorAt, length_slice stands.bound, Nat.add_sub_cancel' stands.le]

def StandsOne (sql : Text) (ks : List Keyword) (p : Nat) : Prop := ∃ k ∈ ks, ∃ q, Stands sql k p q

namespace Stands

variable {sql : Text} {k : Keyword} {p q : Nat}

theorem lt (stands : Stands sql k p q) (isKeyword : IsKeyword k) : p < q := by
  have full := List.length_pos_iff.mpr (stands.spells.ne_nil isKeyword)
  rw [length_slice stands.bound] at full
  omega

theorem state_eq (stands : Stands sql k p q) (isKeyword : IsKeyword k) : stateAt sql p = {} := by
  obtain ⟨c, first, letter⟩ := stands.spells.head? isKeyword
  have before := stands.lt isKeyword
  have bound := stands.bound
  have text : sql.drop p = c :: sql.drop (p + 1) := by
    rw [slice_eq_take_drop, List.head?_take, if_neg (by omega), List.head?_drop] at first
    obtain ⟨_, rfl⟩ := List.getElem?_eq_some_iff.mp first
    exact List.drop_eq_getElem_cons _
  have top := stands.top
  rw [Cursor.atTop, marks_cursorAt, drop_scan, text] at top
  exact ScanState.state_of_plain_top _ c _ (isPlain_of_isKeywordChar c letter) (ne_of_isKeywordChar letter (by decide))
    (by simpa [ScanState.marks] using top)

theorem state_eq_end (stands : Stands sql k p q) (isKeyword : IsKeyword k) : stateAt sql q = {} :=
  stateAt_plain stands.le (stands.spells.isPlain isKeyword) (stands.state_eq isKeyword)

end Stands

theorem topKeyword?_cursorAt {sql : Text} {ks : List Keyword} {p : Nat} {after : Cursor}
    (areKeywords : ∀ k ∈ ks, IsKeyword k) (inText : p ≤ sql.length)
    (found : (cursorAt sql p).topKeyword? ks = some after) :
    ∃ k ∈ ks, ∃ q, Stands sql k p q ∧ after = cursorAt sql q := by
  rw [Cursor.topKeyword?] at found
  split at found
  · rename_i top
    obtain ⟨k, member, here⟩ := List.exists_of_findSome?_eq_some found
    exact ⟨k, member, (keyword?_cursorAt (areKeywords k member) inText).mp ⟨top, here⟩⟩
  · cases found

theorem topKeyword?_eq_none_iff {sql : Text} {ks : List Keyword} {p : Nat}
    (areKeywords : ∀ k ∈ ks, IsKeyword k) (inText : p ≤ sql.length) :
    (cursorAt sql p).topKeyword? ks = none ↔ ¬StandsOne sql ks p := by
  constructor
  · rintro missed ⟨k, member, q, stands⟩
    obtain ⟨top, here⟩ := (keyword?_cursorAt (areKeywords k member) inText).mpr ⟨q, stands, rfl⟩
    rw [Cursor.topKeyword?, if_pos top, List.findSome?_eq_none_iff] at missed
    rw [missed k member] at here
    cases here
  · intro missed
    rw [Option.eq_none_iff_forall_ne_some]
    intro after found
    obtain ⟨k, member, q, stands, -⟩ := topKeyword?_cursorAt areKeywords inText found
    exact missed ⟨k, member, q, stands⟩

theorem find?_cursorAt {sql passed : Text} {ks : List Keyword} {n : Nat} {after : Cursor}
    (areKeywords : ∀ k ∈ ks, IsKeyword k) (inText : n ≤ sql.length)
    (found : (cursorAt sql n).find? ks = some (passed, after)) :
    ∃ p ≥ n, passed = slice n p sql ∧ (∀ i, n ≤ i → i < p → ¬StandsOne sql ks i) ∧
      ∃ k ∈ ks, ∃ q, Stands sql k p q ∧ after = cursorAt sql q := by
  obtain ⟨m, bound, here, missed, rfl⟩ := Cursor.seek_eq_some_iff.mp found
  rw [marks_cursorAt, List.length_drop, length_scan] at bound
  rw [skip_cursorAt] at here
  refine ⟨n + m, by omega, ?_, ?_, topKeyword?_cursorAt areKeywords (by omega) here⟩
  · rw [text_cursorAt, slice_eq_take_drop, Nat.add_sub_cancel_left]
  · intro i from_ below
    have none := missed (i - n) (by omega)
    rw [skip_cursorAt, Nat.add_sub_cancel' from_] at none
    exact (topKeyword?_eq_none_iff areKeywords (by omega)).mp none

theorem find?_cursorAt_eq_none {sql : Text} {ks : List Keyword} {n : Nat}
    (areKeywords : ∀ k ∈ ks, IsKeyword k) (missed : (cursorAt sql n).find? ks = none) :
    ∀ i, n ≤ i → i < sql.length → ¬StandsOne sql ks i := by
  intro i from_ below
  have none := Cursor.seek_eq_none_iff.mp missed (i - n) (by simp; omega)
  rw [skip_cursorAt, Nat.add_sub_cancel' from_] at none
  exact (topKeyword?_eq_none_iff areKeywords (by omega)).mp none

/-- The text up to the first of some keywords ends at such a keyword or with the whole text. -/
theorem upTo_cursorAt {sql : Text} {ks : List Keyword} {n : Nat}
    (areKeywords : ∀ k ∈ ks, IsKeyword k) (inText : n ≤ sql.length) :
    ∃ e, n ≤ e ∧ e ≤ sql.length ∧ (cursorAt sql n).upTo ks = slice n e sql ∧
      (∀ i, n ≤ i → i < e → ¬StandsOne sql ks i) ∧ (e = sql.length ∨ StandsOne sql ks e) := by
  rw [Cursor.upTo]
  split
  · rename_i passed after found
    obtain ⟨p, le, rfl, none, k, member, q, stands, -⟩ := find?_cursorAt areKeywords inText found
    exact ⟨p, le, stands.le.trans stands.bound, rfl, none, .inr ⟨k, member, q, stands⟩⟩
  · rename_i missed
    refine ⟨sql.length, inText, Nat.le_refl _, ?_, find?_cursorAt_eq_none areKeywords missed, .inl rfl⟩
    rw [text_cursorAt, slice_eq_take_drop, List.take_of_length_le (by simp)]

end QueryChain
