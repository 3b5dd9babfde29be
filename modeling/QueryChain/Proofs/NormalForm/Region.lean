import Mathlib.Data.Option.Basic
import QueryChain.Proofs.NormalForm.Basic

namespace QueryChain

def Boundary (sql : Text) (n : Nat) : Prop :=
  (sql.take n).getLast?.any isWordChar = false ∨ (sql.drop n).head?.any isWordChar = false

theorem any_eq_false {p : Char → Bool} {o : Option Char} (none : ∀ c ∈ o, p c = false) :
    o.any p = false := by
  cases o with
  | none => rfl
  | some c => exact none c rfl

theorem before_eq_getLast? {sql : Text} {n : Nat} (inText : n ≤ sql.length) :
    (cursorAt sql n).before = (sql.take n).getLast? := by
  cases n with
  | zero => rfl
  | succ n =>
    rw [before_cursorAt (by omega), List.getLast?_eq_getElem?, List.length_take,
      Nat.min_eq_left inText, List.getElem?_take, if_pos (by omega), Nat.add_sub_cancel,
      List.getElem?_eq_getElem]

/-- A part of a statement that starts where nothing is open, with no blank, and tears no word. -/
structure Region (sql : Text) (b e : Nat) : Prop where
  le : b ≤ e
  bound : e ≤ sql.length
  start : stateAt sql b = {}
  head : (slice b e sql).head?.any isBlank = false
  left : Boundary sql b
  right : Boundary sql e

theorem getLast?_append_of_ne_nil {front back : Text} (full : back ≠ []) :
    (front ++ back).getLast? = back.getLast? := by
  rw [List.getLast?_append, List.getLast?_eq_some_getLast full, Option.some_or]

theorem getLast?_take_of_append {sql front back : Text} {b e : Nat} (le : b ≤ e)
    (bound : e ≤ sql.length) (parts : slice b e sql = front ++ back) (full : front ≠ []) :
    (sql.take (b + front.length)).getLast? = front.getLast? := by
  have first := (slice_of_append_pair le bound parts).1
  have upTo : sql.take (b + front.length) = sql.take b ++ front := by
    rw [List.take_add, ← first, slice_eq_take_drop, Nat.add_sub_cancel_left]
    simp
  rw [upTo, getLast?_append_of_ne_nil full]

namespace Region

variable {sql front back : Text} {b e : Nat}

/-- Text can be taken off the end where no word is torn. -/
theorem cut (region : Region sql b e) (parts : slice b e sql = front ++ back)
    (apart : front.getLast?.any isWordChar = false ∨ back.head?.any isWordChar = false) :
    ∃ e' ≤ e, Region sql b e' ∧ front = slice b e' sql := by
  have length := congrArg List.length parts
  rw [length_slice region.bound, List.length_append] at length
  have le := region.le
  have bound := region.bound
  obtain ⟨first, last⟩ := slice_of_append_pair le bound parts
  by_cases whole : back = []
  · rw [whole, List.append_nil] at parts
    exact ⟨e, Nat.le_refl e, region, parts.symm⟩
  refine ⟨b + front.length, by omega, ⟨by omega, by omega, region.start, ?_, region.left, ?_⟩, first.symm⟩
  · have start := region.head
    rw [parts] at start
    rw [first]
    cases front with
    | nil => rfl
    | cons c front => exact start
  · by_cases empty : front = []
    · simpa [empty] using region.left
    · rcases apart with noWord | noWord
      · left
        rwa [getLast?_take_of_append le bound parts empty]
      · right
        rw [← slice_append_drop (b := b + front.length) (by omega) bound,
          show b + front.length = e - back.length by omega, last]
        obtain ⟨c, more, rfl⟩ := List.exists_cons_of_ne_nil whole
        exact noWord

theorem code_of_code (region : Region sql b e) (free : CommentFree sql) {i : Nat} {m : Mark}
    (at_ : (scan (slice b e sql))[i]? = some m) (code : m.isCode) : (scan sql)[b + i]? = some m := by
  have same := scan_slice free region.le region.bound region.start
  have inSlice : (slice b e (scan sql))[i]? = some m := by
    generalize scan (slice b e sql) = fresh, slice b e (scan sql) = placed at same at_ ⊢
    cases same with
    | same => exact at_
    | dashes ms d =>
      by_cases inFront : i < ms.length
      · rwa [List.getElem?_append_left inFront] at at_ ⊢
      · rw [List.getElem?_append_right (by omega)] at at_
        have comment := List.mem_of_getElem? at_
        simp only [List.mem_cons, List.not_mem_nil, or_false, or_self] at comment
        subst comment
        cases code
  rw [slice_eq_take_drop, List.getElem?_take] at inSlice
  split at inSlice
  · rwa [List.getElem?_drop] at inSlice
  · cases inSlice

/-- Collapsing a region of a text in normal form cuts off its end. -/
theorem collapse_eq (region : Region sql b e) (normal : IsNormal sql) :
    ∃ e' ≤ e, Region sql b e' ∧ collapse (slice b e sql) = slice b e' sql := by
  have same := scan_slice normal.commentFree region.le region.bound region.start
  have spaced : Spaced false (slice b e (scan sql)) := by
    have split : scan sql = (scan sql).take b ++ (slice b e (scan sql) ++ (scan sql).drop e) := by
      rw [slice_append_drop region.le (by simpa using region.bound), List.take_append_drop]
    have whole := normal.spaced
    rw [split] at whole
    by_cases empty : slice b e (scan sql) = []
    · simp [empty, Spaced]
    refine (whole.right ?_).left
    obtain ⟨m, more, here⟩ := List.exists_cons_of_ne_nil empty
    have start := region.head
    rw [← markText_scan sql, markText, ← map_slice, here] at start
    have inScan : m ∈ scan sql := by
      have member : m ∈ slice b e (scan sql) := by simp [here]
      exact List.mem_of_mem_take (List.mem_of_mem_drop member)
    have kind := normal.commentFree m inScan
    simp only [List.map_cons, List.head?_cons, Option.any_some] at start
    simp [here, Mark.isGap, start, kind]
  have text : markText (slice b e (scan sql)) = slice b e sql := by
    rw [markText, map_slice, ← markText, markText_scan]
  suffices parts : ∃ back, slice b e sql = collapse (slice b e sql) ++ back ∧
      back.head?.any isWordChar = false by
    obtain ⟨back, parts, apart⟩ := parts
    exact region.cut parts (.inr apart)
  rw [collapse]
  generalize scan (slice b e sql) = fresh, slice b e (scan sql) = placed at same spaced text ⊢
  rw [← text]
  cases same with
  | same =>
    obtain ⟨back, small, whole⟩ := collapseMarks_of_spaced false false fresh (by simp) spaced
    refine ⟨back, by simpa using whole.symm, ?_⟩
    rcases small with rfl | rfl <;> decide
  | dashes ms d =>
    obtain ⟨back, small, whole⟩ := collapseMarks_of_spaced false false ms (by simp) spaced.left
    have front : collapseMarks false false (ms ++ [⟨'-', d, .comment⟩, ⟨'-', d, .comment⟩]) =
        collapseMarks false false ms :=
      collapseMarks_gaps _ _ _ _ (by simp [Mark.isGap])
    simp only [Bool.false_eq_true, if_false, List.nil_append] at whole
    refine ⟨back ++ ['-', '-'], ?_, ?_⟩
    · rw [front, ← List.append_assoc, whole]
      simp [markText]
    · rcases small with rfl | rfl <;> decide

theorem dropSemicolons_eq (region : Region sql b e) :
    ∃ e' ≤ e, Region sql b e' ∧ dropSemicolons (slice b e sql) = slice b e' sql := by
  have parts := dropEndWhile_append_takeWhile (fun c => c == ';' || isBlank c) (slice b e sql)
  refine region.cut parts.symm (.inr ?_)
  apply any_eq_false
  intro c first
  have member : c ∈ (slice b e sql).reverse.takeWhile fun c => c == ';' || isBlank c :=
    List.mem_reverse.mp (List.mem_of_head? first)
  have dropped := List.mem_takeWhile_imp member
  simp only [Bool.or_eq_true, beq_iff_eq] at dropped
  rcases dropped with rfl | blank
  · decide
  · exact isWordChar_of_isBlank c blank

end Region

theorem startsWithKeyword_append {k : Keyword} {rest more : Text} (isKeyword : IsKeyword k)
    (starts : startsWithKeyword k rest)
    (apart : rest.getLast?.any isWordChar = false ∨ more.head?.any isWordChar = false) :
    startsWithKeyword k (rest ++ more) := by
  have startText (t : Text) : (Cursor.start t).text = t := by simp [Cursor.start, Cursor.text_mk]
  simp only [startsWithKeyword, afterKeyword?, Option.isSome_map] at starts ⊢
  obtain ⟨after, found⟩ := Option.isSome_iff_exists.mp starts
  obtain ⟨start, t, r, text, spells, stop, -⟩ := (Cursor.keyword?_eq_some_iff isKeyword).mp found
  rw [startText] at text
  have still : (r ++ more).head?.any isWordChar = false := by
    cases r with
    | cons c r => exact stop
    | nil =>
      rw [text, List.append_nil] at apart
      obtain ⟨c, last, letter⟩ := spells.getLast isKeyword
      rw [last, Option.any_some, isWordChar_of_isKeywordChar c letter] at apart
      simpa using apart
  rw [Option.isSome_iff_exists]
  exact ⟨_, (Cursor.keyword?_eq_some_iff isKeyword).mpr
    ⟨start, t, r ++ more, by rw [startText, text, List.append_assoc], spells, still, rfl⟩⟩

theorem endsCondition_append {rest more : Text} (ends : endsCondition rest) (full : rest ≠ [])
    (apart : rest.getLast?.any isWordChar = false ∨ more.head?.any isWordChar = false) :
    endsCondition (rest ++ more) := by
  rw [endsCondition, Bool.or_eq_true, Bool.or_eq_true] at ends ⊢
  rcases ends with (empty | closing) | keyword
  · exact absurd (by simpa using empty) full
  · left; right
    obtain ⟨c, more', rfl⟩ := List.exists_cons_of_ne_nil full
    exact closing
  · right
    obtain ⟨k, member, starts⟩ := List.any_eq_true.mp keyword
    have isKeyword : IsKeyword k := by
      clear starts
      revert k
      decide
    exact List.any_eq_true.mpr ⟨k, member, startsWithKeyword_append isKeyword starts apart⟩

/-- An `AND NULL` that ends a condition stands in code from place `i` up to place `j`. -/
structure StrayNull (sql : Text) (i j : Nat) : Prop where
  le : i ≤ j
  bound : j ≤ sql.length
  code : ∃ m, (scan sql)[i]? = some m ∧ m.isCode
  spells : Spells ["AND", "NULL"] (slice i j sql)
  before : (sql.take i).getLast?.any isWordChar = false
  after : (sql.drop j).head?.any isWordChar = false
  ends : endsCondition (trimStart (sql.drop j))

theorem isKeyword_andNull : IsKeyword ["AND", "NULL"] := by decide

theorem keyword?_cursorAt_iff {sql : Text} {k : Keyword} {i : Nat} {after : Cursor}
    (isKeyword : IsKeyword k) (inText : i ≤ sql.length) :
    (cursorAt sql i).keyword? k = some after ↔
      ∃ j, i ≤ j ∧ j ≤ sql.length ∧ Spells k (slice i j sql) ∧
        (sql.take i).getLast?.any isWordChar = false ∧
        (sql.drop j).head?.any isWordChar = false ∧ after = cursorAt sql j := by
  rw [Cursor.keyword?_eq_some_iff isKeyword, text_cursorAt, before_eq_getLast? inText]
  constructor
  · rintro ⟨before, t, rest, text, spells, stop, rfl⟩
    have lengths := congrArg List.length text
    rw [List.length_drop, List.length_append] at lengths
    have written : slice i (i + t.length) sql = t := by
      rw [slice_eq_take_drop, text]
      simp
    refine ⟨i + t.length, by omega, by omega, by rwa [written], before, ?_, skip_cursorAt⟩
    rw [← List.drop_drop, text]
    simpa using stop
  · rintro ⟨j, le, bound, spells, before, stop, rfl⟩
    refine ⟨before, slice i j sql, sql.drop j, (slice_append_drop le bound).symm, spells, stop, ?_⟩
    rw [skip_cursorAt, length_slice bound, Nat.add_sub_cancel' le]

theorem dropStrayNull?_eq_some {sql u : Text} (dropped : dropStrayNull? sql = some u) :
    ∃ i j, StrayNull sql i j ∧ u = trimEnd (sql.take i) ++
      spaceBefore (trimStart (sql.drop j)) ++ trimStart (sql.drop j) := by
  obtain ⟨⟨head, rest⟩, found, rfl⟩ := Option.map_eq_some_iff.mp dropped
  obtain ⟨i, inText, answer, -, rfl⟩ := Cursor.seek_eq_some_iff.mp found
  rw [← cursorAt_zero, skip_cursorAt, Nat.zero_add] at answer
  rw [← cursorAt_zero, marks_cursorAt, List.drop_zero, length_scan] at inText
  obtain ⟨_, code, answer⟩ := Option.bind_eq_some_iff.mp answer
  obtain ⟨after, match_, answer⟩ := Option.bind_eq_some_iff.mp answer
  obtain ⟨_, ends, last⟩ := Option.bind_eq_some_iff.mp answer
  obtain ⟨j, le, bound, spells, before, stop, rfl⟩ :=
    (keyword?_cursorAt_iff isKeyword_andNull (by omega)).mp match_
  simp only [text_cursorAt] at ends last
  cases last
  refine ⟨i, j, ⟨le, bound, ?_, spells, before, stop, ?_⟩, by simp [Cursor.start, Cursor.text_mk]⟩
  · have isCode : (cursorAt sql i).inCode := (Option.guard_eq_some' _).mp code
    rw [Cursor.inCode, marks_cursorAt, List.head?_drop, Option.any_eq_true] at isCode
    exact isCode
  · exact (Option.guard_eq_some' _).mp ends

theorem dropStrayNull?_eq_none {sql : Text} (kept : dropStrayNull? sql = none) (i j : Nat) :
    ¬StrayNull sql i j := by
  intro stray
  rw [dropStrayNull?, Option.map_eq_none_iff] at kept
  have inText : i < sql.length := by
    obtain ⟨m, here, -⟩ := stray.code
    rw [← length_scan]
    exact (List.getElem?_eq_some_iff.mp here).1
  have fails := Cursor.seek_eq_none_iff.mp kept i (by simpa [Cursor.start] using inText)
  rw [← cursorAt_zero, skip_cursorAt, Nat.zero_add] at fails
  have match_ := (keyword?_cursorAt_iff isKeyword_andNull (by omega)).mpr
    ⟨j, stray.le, stray.bound, stray.spells, stray.before, stray.after, rfl⟩
  have code : (cursorAt sql i).inCode := by
    rw [Cursor.inCode, marks_cursorAt, List.head?_drop, Option.any_eq_true]
    exact stray.code
  rw [(Option.guard_eq_some' ()).mpr code, match_] at fails
  have fails : (guard (endsCondition (trimStart (cursorAt sql j).text)) : Option Unit).bind
      (fun _ => some (trimStart (cursorAt sql j).text)) = none := fails
  rw [text_cursorAt, (Option.guard_eq_some' ()).mpr stray.ends] at fails
  cases fails

theorem trimStart_append {t more : Text} (full : trimStart t ≠ []) :
    trimStart (t ++ more) = trimStart t ++ more := by
  rw [trimStart] at full ⊢
  rw [List.dropWhile_append, if_neg (by simpa using full)]
  rfl

/-- An `AND NULL` of a region that more text follows ends a condition of the whole, too. -/
theorem StrayNull.of_region {sql : Text} {b e i j : Nat} (region : Region sql b e)
    (free : CommentFree sql) (stray : StrayNull (slice b e sql) i j)
    (followed : trimStart ((slice b e sql).drop j) ≠ []) : StrayNull sql (b + i) (b + j) := by
  have length := length_slice region.bound (b := b)
  have le := stray.le
  have bound := stray.bound
  have inText := region.bound
  have order := region.le
  have behind : sql.drop (b + j) = (slice b e sql).drop j ++ sql.drop e := by
    rw [← List.drop_append_of_le_length bound, slice_append_drop order inText, List.drop_drop]
  have full : (slice b e sql).drop j ≠ [] := by
    intro empty
    exact followed (by rw [empty]; rfl)
  refine ⟨by omega, by omega, ?_, ?_, ?_, ?_, ?_⟩
  · obtain ⟨m, at_, code⟩ := stray.code
    exact ⟨m, region.code_of_code free at_ code, code⟩
  · have spells := stray.spells
    rwa [slice_slice (by omega)] at spells
  · have upTo : sql.take (b + i) = sql.take b ++ (slice b e sql).take i := by
      rw [List.take_add, slice_eq_take_drop, List.take_take, Nat.min_eq_left (by omega)]
    by_cases atStart : i = 0
    · subst atStart
      obtain ⟨c, first, letter⟩ := stray.spells.head? isKeyword_andNull
      have first' : (sql.drop b).head? = some c := by
        rw [slice_slice (by omega), slice_eq_take_drop, List.head?_take] at first
        split at first
        · cases first
        · exact first
      rcases region.left with noWord | noWord
      · exact noWord
      · rw [first', Option.any_some, isWordChar_of_isKeywordChar c letter] at noWord
        cases noWord
    · have before := stray.before
      have some_ : (slice b e sql).take i ≠ [] := by
        rw [ne_eq, List.take_eq_nil_iff]
        rintro (zero | empty)
        · exact atStart zero
        · rw [empty, List.length_nil] at bound
          omega
      rwa [upTo, getLast?_append_of_ne_nil some_]
  · rw [behind]
    obtain ⟨c, more, here⟩ := List.exists_cons_of_ne_nil full
    have after := stray.after
    rw [here] at after ⊢
    exact after
  · rw [behind, trimStart_append followed]
    apply endsCondition_append stray.ends followed
    have upTo : sql.take e = sql.take b ++ (slice b e sql).take j ++
        ((slice b e sql).drop j).takeWhile isBlank ++ trimStart ((slice b e sql).drop j) := by
      rw [trimStart, List.append_assoc, List.takeWhile_append_dropWhile, List.append_assoc,
        List.take_append_drop, slice_eq_take_drop, ← List.take_add, Nat.add_sub_cancel' order]
    have right := region.right
    rwa [Boundary, upTo, getLast?_append_of_ne_nil followed] at right

namespace Region

variable {sql : Text} {b e : Nat}

theorem dropStrayNull_eq (region : Region sql b e) (normal : IsNormal sql) :
    ∃ e' ≤ e, Region sql b e' ∧ dropStrayNull (slice b e sql) = slice b e' sql := by
  rw [dropStrayNull]
  cases dropped : dropStrayNull? (slice b e sql) with
  | none => exact ⟨e, Nat.le_refl e, region, rfl⟩
  | some u =>
    obtain ⟨i, j, stray, rfl⟩ := dropStrayNull?_eq_some dropped
    have last : trimStart ((slice b e sql).drop j) = [] := by
      by_contra followed
      exact dropStrayNull?_eq_none normal.noStray _ _ (stray.of_region region normal.commentFree followed)
    have le := stray.le
    have parts : slice b e sql = trimEnd ((slice b e sql).take i) ++
        (((slice b e sql).take i).reverse.takeWhile isBlank).reverse ++ (slice b e sql).drop i := by
      rw [trimEnd, dropEndWhile_append_takeWhile, List.take_append_drop]
    rw [List.append_assoc] at parts
    rw [last, Option.getD_some, show spaceBefore [] = [] from rfl, List.append_nil, List.append_nil]
    apply region.cut parts
    generalize blanks : (((slice b e sql).take i).reverse.takeWhile isBlank).reverse = back at parts ⊢
    cases back with
    | nil =>
      left
      have whole := dropEndWhile_append_takeWhile isBlank ((slice b e sql).take i)
      rw [blanks, List.append_nil] at whole
      rw [trimEnd, whole]
      exact stray.before
    | cons c back =>
      right
      have member : c ∈ ((slice b e sql).take i).reverse.takeWhile isBlank := by
        rw [← List.mem_reverse, blanks]
        simp
      simpa using isWordChar_of_isBlank c (List.mem_takeWhile_imp member)

theorem cleanUp_eq (region : Region sql b e) (normal : IsNormal sql) :
    ∃ e' ≤ e, Region sql b e' ∧ cleanUp (slice b e sql) = slice b e' sql := by
  obtain ⟨e₁, le₁, region₁, collapsed⟩ := region.collapse_eq normal
  obtain ⟨e₂, le₂, region₂, dropped⟩ := region₁.dropSemicolons_eq
  obtain ⟨e₃, le₃, region₃, final⟩ := region₂.dropStrayNull_eq normal
  refine ⟨e₃, by omega, region₃, ?_⟩
  rw [cleanUp, collapsed, dropped, final]

/-- Normalizing a region of a text in normal form cuts off its end. -/
theorem normalize_eq (region : Region sql b e) (normal : IsNormal sql) :
    ∃ e' ≤ e, Region sql b e' ∧ normalize (slice b e sql) = slice b e' sql := by
  generalize part : slice b e sql = u
  fun_induction normalize u generalizing e with
  | case1 u fixed => exact ⟨e, Nat.le_refl e, region, part.symm⟩
  | case2 u changed ih =>
    subst part
    obtain ⟨e₁, le₁, region₁, cleaned⟩ := region.cleanUp_eq normal
    obtain ⟨e₂, le₂, region₂, final⟩ := ih region₁ cleaned.symm
    exact ⟨e₂, by omega, region₂, final⟩

end Region
end QueryChain
