import QueryChain.Proofs.NormalForm.Region
import QueryChain.Proofs.Keyword.TopWord

namespace QueryChain

def wordAt (t : Text) (i : Nat) : Text :=
  if (t.take i).getLast?.any isWordChar then [] else upper ((t.drop i).takeWhile isWordChar)

section Words

variable {s u t : Text} {i j : Nat}

theorem wordAt_left (divided : Divided s u) (inText : i < s.length) : wordAt (s ++ u) i = wordAt s i := by
  have full : s.drop i ≠ [] := by simpa using inText
  have divided' : Divided (s.drop i) u := by
    rcases divided with noWord | noWord
    · left
      rwa [List.getLast?_drop, if_neg (by omega)]
    · exact .inr noWord
  rw [wordAt, wordAt, List.take_append_of_le_length (Nat.le_of_lt inText),
    List.drop_append_of_le_length (Nat.le_of_lt inText), takeWhile_append divided' full]

theorem wordAt_right (divided : Divided s u) (i : Nat) : wordAt (s ++ u) (s.length + i) = wordAt u i := by
  rw [wordAt, wordAt, List.drop_length_add_append, List.take_length_add_append]
  by_cases start : u.take i = []
  · rw [start, List.append_nil, List.getLast?_nil, Option.any_none]
    rcases divided with noWord | noWord
    · rw [noWord]
    · have stop : upper ((u.drop i).takeWhile isWordChar) = [] := by
        rcases List.take_eq_nil_iff.mp start with rfl | rfl
        · cases u with
          | nil => rfl
          | cons c u => simp [upper, show isWordChar c = false from noWord]
        · rw [List.drop_nil]
          rfl
      rw [stop, ite_self, ite_self]
  · rw [getLast?_append_of_ne_nil start]

theorem topWord_cursorAt {i : Nat} (inText : i ≤ t.length) :
    (cursorAt t i).topWord = if (cursorAt t i).atTop then wordAt t i else [] := by
  rw [Cursor.topWord, wordAt, text_cursorAt, before_eq_getLast? inText]
  cases (cursorAt t i).atTop <;> cases (t.take i).getLast?.any isWordChar <;> simp

theorem isKeywordChar_of_word {w : Text} (isKeyword : IsKeyword [w]) (spells : Spells [w] t) :
    ∀ c ∈ t, isKeywordChar c := by
  intro c member
  cases spells with
  | word letters =>
    have capitals := (isKeyword.2 w (by simp)).2
    rw [upper_of_isCapital capitals] at letters
    have capital := capitals c.toUpper (by rw [letters]; exact List.mem_map_of_mem member)
    exact isKeywordChar_of_sameLetter _ c capital (by rw [sameLetter, toUpper_of_isCapital _ capital, beq_self_eq_true])

end Words
section Strays

variable {t u p b : Text} {i j k : Nat}

theorem StrayNull.found (stray : StrayNull t i j) : (cursorAt t i).keyword? ["AND", "NULL"] = some (cursorAt t j) :=
  (keyword?_cursorAt_iff isKeyword_andNull (stray.le.trans stray.bound)).mpr
    ⟨j, stray.le, stray.bound, stray.spells, stray.before, stray.after, rfl⟩

theorem StrayNull.lt (stray : StrayNull t i j) : i < t.length := by
  obtain ⟨m, here, -⟩ := stray.code
  rw [← length_scan]
  exact (List.getElem?_eq_some_iff.mp here).1

theorem wordAt_of_keyword {k : Keyword} {after : Cursor} (isKeyword : IsKeyword k) (inText : i ≤ t.length)
    (found : (cursorAt t i).keyword? k = some after) : wordAt t i = upper (k.headD []) := by
  have before := ((Cursor.keyword?_eq_some_iff isKeyword).mp found).1
  rw [before_eq_getLast? inText] at before
  rw [wordAt, before, if_neg nofun, ← text_cursorAt]
  exact Cursor.first_word isKeyword found

theorem StrayNull.word (stray : StrayNull t i j) : wordAt t i = "AND".toList :=
  (wordAt_of_keyword isKeyword_andNull (Nat.le_of_lt stray.lt) stray.found).trans (by decide)

/-- The second word of a stray stands right in front of its end. -/
theorem StrayNull.null (stray : StrayNull t i j) : i + 8 ≤ j ∧ wordAt t (j - 4) = "NULL".toList ∧
    ∀ c ∈ slice (i + 3) (j - 4) t, isBlank c := by
  obtain ⟨le, bound, -, spells, -, after, -⟩ := stray
  generalize parts : slice i j t = w at spells
  cases spells with
  | @words _ _ first blanks rest _ letters apart blank later =>
    cases later with
    | word last =>
      have three : first.length = 3 := (length_of_upper letters).symm
      have four : rest.length = 4 := (length_of_upper last).symm
      have some_ : 0 < blanks.length := List.length_pos_iff.mpr apart
      have lengths := congrArg List.length parts
      rw [length_slice bound, List.length_append, List.length_append] at lengths
      obtain ⟨-, middle, behind⟩ := slice_of_append le bound parts
      rw [three] at middle
      rw [four] at middle behind
      have letter := isKeywordChar_of_upper (w := "NULL".toList) (by decide) last
      have before : (t.take (j - 4)).getLast?.any isWordChar = false := by
        have upTo : t.take (j - 4) = t.take (i + 3) ++ blanks := by
          rw [← middle, take_append_slice (by omega)]
        rw [upTo, getLast?_append_of_ne_nil apart]
        refine any_eq_false fun c member => isWordChar_of_isBlank c (blank c (List.mem_of_getLast? member))
      have word : (t.drop (j - 4)).takeWhile isWordChar = rest := by
        rw [← slice_append_drop (b := j - 4) (e := j) (by omega) bound, behind]
        exact takeWhile_of_stop (fun c member => isWordChar_of_isKeywordChar c (letter c member)) after
      refine ⟨by omega, ?_, by rwa [middle]⟩
      rw [wordAt, before, if_neg nofun, word, ← last]
      decide

end Strays
section First

variable {t u p b : Text} {i j k : Nat}

def strayAt? (c : Cursor) : Option Text := do
  guard c.inCode
  let after ← c.keyword? ["AND", "NULL"]
  let rest := trimStart after.text
  guard (endsCondition rest)
  return rest

theorem strayAt?_cursorAt {rest : Text} (inText : i ≤ t.length) : strayAt? (cursorAt t i) = some rest ↔
    ∃ j, StrayNull t i j ∧ rest = trimStart (t.drop j) := by
  rw [strayAt?]
  simp only [Option.bind_eq_bind, Option.bind_eq_some_iff]
  constructor
  · rintro ⟨_, code, after, match_, _, ends, last⟩
    obtain ⟨j, le, bound, spells, before, stop, rfl⟩ :=
      (keyword?_cursorAt_iff isKeyword_andNull inText).mp match_
    have isCode : (cursorAt t i).inCode := (Option.guard_eq_some' _).mp code
    rw [Cursor.inCode, marks_cursorAt, List.head?_drop, Option.any_eq_true] at isCode
    rw [text_cursorAt] at ends last
    exact ⟨j, ⟨le, bound, isCode, spells, before, stop, (Option.guard_eq_some' _).mp ends⟩,
      (Option.some.inj last).symm⟩
  · rintro ⟨j, stray, rfl⟩
    have isCode : (cursorAt t i).inCode := by
      rw [Cursor.inCode, marks_cursorAt, List.head?_drop, Option.any_eq_true]
      exact stray.code
    refine ⟨(), (Option.guard_eq_some' _).mpr isCode, _, stray.found, (), ?_, ?_⟩
    · rw [text_cursorAt]
      exact (Option.guard_eq_some' _).mpr stray.ends
    · rw [text_cursorAt]
      rfl

def withoutStray (t : Text) (i j : Nat) : Text :=
  trimEnd (t.take i) ++ spaceBefore (trimStart (t.drop j)) ++ trimStart (t.drop j)

/-- It is the first stray that is cut out. -/
theorem dropStrayNull?_eq_some_iff : dropStrayNull? t = some u ↔
    ∃ i j, StrayNull t i j ∧ (∀ i' < i, ∀ j', ¬StrayNull t i' j') ∧ u = withoutStray t i j := by
  have unfolded : dropStrayNull? t = ((Cursor.start t).seek strayAt?).map
      fun found => trimEnd found.1 ++ spaceBefore found.2 ++ found.2 := rfl
  have noStray (i : Nat) (inText : i ≤ t.length) : strayAt? (cursorAt t i) = none ↔ ∀ j, ¬StrayNull t i j := by
    rw [Option.eq_none_iff_forall_ne_some]
    simp only [ne_eq, strayAt?_cursorAt inText, not_exists, not_and]
    exact ⟨fun none j stray => none _ j stray rfl, fun none _ j stray _ => none j stray⟩
  rw [unfolded, Option.map_eq_some_iff]
  constructor
  · rintro ⟨⟨head, rest⟩, found, rfl⟩
    obtain ⟨i, inText, answer, earlier, rfl⟩ := Cursor.seek_eq_some_iff.mp found
    rw [← cursorAt_zero, skip_cursorAt, Nat.zero_add] at answer
    rw [← cursorAt_zero, marks_cursorAt, List.drop_zero, length_scan] at inText
    obtain ⟨j, stray, rfl⟩ := (strayAt?_cursorAt (Nat.le_of_lt inText)).mp answer
    refine ⟨i, j, stray, fun i' less => ?_, ?_⟩
    · have missed := earlier i' less
      rw [← cursorAt_zero, skip_cursorAt, Nat.zero_add] at missed
      exact (noStray i' (by omega)).mp missed
    · simp [withoutStray, Cursor.start, Cursor.text_mk]
  · rintro ⟨i, j, stray, earlier, rfl⟩
    refine ⟨(t.take i, trimStart (t.drop j)), Cursor.seek_eq_some_iff.mpr ⟨i, ?_, ?_, ?_, ?_⟩, rfl⟩
    · rw [← cursorAt_zero, marks_cursorAt, List.drop_zero, length_scan]
      exact stray.lt
    · rw [← cursorAt_zero, skip_cursorAt, Nat.zero_add]
      exact (strayAt?_cursorAt (Nat.le_of_lt stray.lt)).mpr ⟨j, stray, rfl⟩
    · intro i' less
      rw [← cursorAt_zero, skip_cursorAt, Nat.zero_add]
      exact (noStray i' (by have := stray.lt; omega)).mpr (earlier i' less)
    · simp [Cursor.start, Cursor.text_mk]

end First
section Behind

variable {s s' : ScanState} {t p b : Text} {i j : Nat}

/-- How deep a place is does not matter for what is code there. -/
theorem kind_marks (same : s.mode = s'.mode) (t : Text) :
    (s.marks t).map (fun m => (m.char, m.kind)) = (s'.marks t).map fun m => (m.char, m.kind) := by
  induction t generalizing s s' with
  | nil => rfl
  | cons c t ih =>
    have step : (s.mark c t).kind = (s'.mark c t).kind ∧ (s.next c t).mode = (s'.next c t).mode := by
      obtain ⟨mode, depth⟩ := s
      obtain ⟨mode', depth'⟩ := s'
      obtain rfl : mode = mode' := same
      cases mode with
      | code => cases role : Role.of c t <;> simp [ScanState.mark, ScanState.next, role]
      | quote q escaped =>
        cases escaped with
        | true => exact ⟨rfl, rfl⟩
        | false =>
          refine ⟨rfl, ?_⟩
          simp only [ScanState.next]
          split
          · rfl
          · split <;> rfl
      | lineComment =>
        refine ⟨rfl, ?_⟩
        simp only [ScanState.next]
        split <;> rfl
      | opener => exact ⟨rfl, rfl⟩
      | blockComment star =>
        refine ⟨rfl, ?_⟩
        simp only [ScanState.next]
        split <;> rfl
    simp only [ScanState.marks, List.map_cons, ScanState.mark_char, ih step.2, step.1]

theorem kind_scan (code : s.mode = .code) (t : Text) :
    (s.marks t).map (fun m => (m.char, m.kind)) = (scan t).map fun m => (m.char, m.kind) := kind_marks code t

/-- A stray behind a part that ends in code is a stray of what stands there alone. -/
theorem strayNull_append (code : (({} : ScanState).behind p b).mode = .code) (divided : Divided p b) :
    StrayNull (p ++ b) (p.length + i) (p.length + j) ↔ StrayNull b i j := by
  have marks : (scan (p ++ b))[p.length + i]?.map Mark.kind = (scan b)[i]?.map Mark.kind := by
    have kinds := congrArg (·[i]?) (congrArg (List.map Prod.snd) (kind_scan code b))
    rw [← List.getElem?_drop, scan, ScanState.drop_marks]
    simpa [Function.comp_def, scan] using kinds
  have isCode : (∃ m, (scan (p ++ b))[p.length + i]? = some m ∧ m.isCode) ↔ ∃ m, (scan b)[i]? = some m ∧ m.isCode := by
    have byKind (o : Option Mark) : (∃ m, o = some m ∧ m.isCode) ↔ o.map Mark.kind = some .code := by
      cases o <;> simp [Mark.isCode]
    rw [byKind, byKind, marks]
  have part : slice (p.length + i) (p.length + j) (p ++ b) = slice i j b := by
    rw [slice_eq_take_drop, slice_eq_take_drop, List.drop_length_add_append, Nat.add_sub_add_left]
  have before (spells : Spells ["AND", "NULL"] (slice i j b)) :
      ((p ++ b).take (p.length + i)).getLast?.any isWordChar = false ↔ (b.take i).getLast?.any isWordChar = false := by
    rw [List.take_length_add_append]
    by_cases start : b.take i = []
    · rw [start, List.append_nil]
      have noWord : p.getLast?.any isWordChar = false := by
        refine divided.resolve_right fun noWord => ?_
        obtain ⟨c, first, letter⟩ := spells.head? isKeyword_andNull
        have here : b.head? = some c := by
          rcases List.take_eq_nil_iff.mp start with rfl | rfl
          · rw [slice, List.drop_zero, List.head?_take] at first
            split at first
            · cases first
            · exact first
          · simp [slice] at first
        rw [here, Option.any_some, isWordChar_of_isKeywordChar c letter] at noWord
        cases noWord
      simp [noWord]
    · rw [getLast?_append_of_ne_nil start]
  constructor
  · rintro ⟨le, bound, code, spells, noWord, after, ends⟩
    rw [part] at spells
    rw [List.drop_length_add_append] at after ends
    rw [List.length_append] at bound
    exact ⟨by omega, by omega, isCode.mp code, spells, (before spells).mp noWord, after, ends⟩
  · rintro ⟨le, bound, code, spells, noWord, after, ends⟩
    refine ⟨by omega, by simpa using bound, isCode.mpr code, by rwa [part], (before spells).mpr noWord, ?_, ?_⟩
    · rwa [List.drop_length_add_append]
    · rwa [List.drop_length_add_append]

end Behind
end QueryChain
