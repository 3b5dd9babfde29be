import QueryChain.Proofs.NormalForm.CodeKept
import QueryChain.Proofs.Keyword.Lacks
import QueryChain.Proofs.NormalForm.Stray

namespace QueryChain

section Parts

variable {gap inner : Bool} {ms ns : Marks}

theorem partedInk_append (gap inner : Bool) (ms ns : Marks) : partedInk gap inner (ms ++ ns) =
    partedInk gap inner ms ++ partedInk ((ms.getLast?.map Mark.isGap).getD gap) (inner || ms.any (!·.isGap)) ns := by
  induction ms generalizing gap inner with
  | nil => simp [partedInk]
  | cons m ms ih =>
    have last (g : Bool) (same : m.isGap = g) :
        ((m :: ms).getLast?.map Mark.isGap).getD gap = (ms.getLast?.map Mark.isGap).getD g := by
      rw [List.getLast?_cons]
      cases ms.getLast? <;> simp [same]
    rw [List.cons_append, partedInk, partedInk]
    by_cases isGap : m.isGap
    · rw [if_pos isGap, if_pos isGap, ih, last true isGap]
      simp [isGap]
    · rw [if_neg isGap, if_neg isGap, ih, last false (by simpa using isGap)]
      simp [isGap]

/-- Collapsing keeps what is written, and what parts it. -/
theorem collapseMarks_eq (gap inner : Bool) (ms : Marks) : collapseMarks gap inner ms =
    (partedInk gap inner ms).flatMap fun written => if written.1 then [' ', written.2.char] else [written.2.char] := by
  induction ms generalizing gap inner with
  | nil => rfl
  | cons m ms ih =>
    rw [collapseMarks, partedInk, ih, ih]
    by_cases isGap : m.isGap
    · rw [if_pos isGap, if_pos isGap]
    · rw [if_neg isGap, if_neg isGap, List.flatMap_cons]
      by_cases parted : gap && inner
      · rw [if_pos parted, if_pos parted]
        rfl
      · rw [if_neg parted, if_neg parted]
        rfl

/-- A text is collapsed part by part; a gap at the end of a part is written in front of the next. -/
theorem collapseMarks_append (gap inner : Bool) (ms ns : Marks) : collapseMarks gap inner (ms ++ ns) =
    collapseMarks gap inner ms ++
      collapseMarks ((ms.getLast?.map Mark.isGap).getD gap) (inner || ms.any (!·.isGap)) ns := by
  rw [collapseMarks_eq, partedInk_append, List.flatMap_append, ← collapseMarks_eq, ← collapseMarks_eq]

theorem collapseMarks_of_gaps (all : ∀ m ∈ ms, m.isGap) : collapseMarks gap inner ms = [] := by
  have nothing := collapseMarks_gaps gap inner [] ms all
  rwa [List.nil_append] at nothing

theorem collapseMarks_before (gap : Bool) (ms : Marks) : collapseMarks gap false ms = collapseMarks false false ms := by
  induction ms generalizing gap with
  | nil => rfl
  | cons m ms ih => rw [collapseMarks, collapseMarks, ih true]; simp

/-- What was passed before is seen in a space at the start only. -/
theorem collapseMarks_start (gap inner : Bool) (some_ : ∃ m ∈ ms, m.isGap = false) : collapseMarks gap inner ms =
    (if (gap || ms.head?.any Mark.isGap) && inner then [' '] else []) ++ collapseMarks false false ms := by
  induction ms generalizing gap with
  | nil => simp at some_
  | cons m ms ih =>
    rw [collapseMarks, collapseMarks, List.head?_cons, Option.any_some]
    by_cases isGap : m.isGap
    · have later : ∃ n ∈ ms, n.isGap = false := by simpa [isGap] using some_
      rw [if_pos isGap, if_pos isGap, ih true later, collapseMarks_before true, isGap, Bool.true_or, Bool.or_true]
    · rw [if_neg isGap, if_neg isGap, Bool.eq_false_iff.mpr isGap, Bool.or_false]
      split <;> simp

theorem head?_collapseMarks_gap (ms : Marks) : (collapseMarks true true ms).head?.any isWordChar = false := by
  rcases collapseMarks_gap ms with empty | ⟨rest, space⟩
  · rw [empty]
    rfl
  · rw [space]
    rfl

theorem divided_collapse (gap inner : Bool) (divided : Divided (markText ms) (markText ns)) :
    Divided (collapseMarks gap inner ms)
      (collapseMarks ((ms.getLast?.map Mark.isGap).getD gap) (inner || ms.any (!·.isGap)) ns) := by
  rcases List.eq_nil_or_concat ms with rfl | ⟨front, m, rfl⟩
  · exact .inl rfl
  rw [List.concat_eq_append] at divided ⊢
  rw [List.getLast?_concat, Option.map_some, Option.getD_some]
  by_cases isGap : m.isGap
  · by_cases ink : inner || (front ++ [m]).any (!·.isGap)
    · rw [ink, isGap]
      exact .inr (head?_collapseMarks_gap ns)
    · left
      simp only [Bool.or_eq_true, not_or, List.any_eq_true, not_exists, not_and, Bool.not_eq_true',
        Bool.not_eq_false] at ink
      rw [collapseMarks_of_gaps ink.2]
      rfl
  · have ink : (inner || (front ++ [m]).any (!·.isGap)) = true := by simp [isGap]
    rw [ink, Bool.eq_false_iff.mpr isGap]
    rcases divided with noWord | noWord
    · left
      have last : (collapseMarks gap inner (front ++ [m])).getLast? = some m.char := by
        rw [collapseMarks_append, collapseMarks, if_neg isGap]
        split <;> simp [collapseMarks]
      rw [last]
      simpa [markText] using noWord
    · right
      cases ns with
      | nil => rfl
      | cons n ns =>
        rw [collapseMarks]
        by_cases gapNext : n.isGap
        · rw [if_pos gapNext]
          exact head?_collapseMarks_gap ns
        · rw [if_neg gapNext]
          simpa [markText] using noWord

end Parts
section State

variable {s : ScanState} {f u t : Text}

theorem isGap_flat (depth : Nat) (c : Char) : (⟨c, depth, .code⟩ : Mark).isGap = isBlank c := by simp [Mark.isGap]

/-- A collapsed part leads to the state that the part led to, with no comment open. -/
theorem calmRun_collapse (f u : Text) (gap inner : Bool) {s : ScanState} (start : gap → s.calmed.mode = .code) :
    s.calmed.calmRun (collapseMarks gap inner ((s.marks (f ++ u)).take f.length)) = (s.behind f u).calmed := by
  induction f generalizing s gap inner with
  | nil => rfl
  | cons c f ih =>
    rw [List.cons_append, ScanState.marks, List.length_cons, List.take_succ_cons, ScanState.behind, collapseMarks]
    cases ink : (s.mark c (f ++ u)).isGap with
    | true =>
      obtain ⟨code, next⟩ := calmed_of_gap ink
      have later := ih true inner (s := s.next c (f ++ u)) fun _ => by rw [next, code]
      rwa [next] at later
    | false =>
      obtain ⟨no, free⟩ := noComment_of_ink ink
      obtain ⟨mark, next⟩ := ScanState.calm_of_free free
      have later := ih false true (s := s.next c (f ++ u)) (by simp)
      rw [(no.next free).calmed, next] at later
      rw [ScanState.mark_char, no.calmed, next]
      rw [no.calmed] at start
      by_cases parted : gap && inner
      · have code := start (Bool.and_eq_true _ _ ▸ parted).1
        rw [if_neg Bool.false_ne_true, if_pos parted, ScanState.calmRun,
          s.next_plain code ' ' [] (by decide), ScanState.calmRun, later]
      · rw [if_neg Bool.false_ne_true, if_neg parted, ScanState.calmRun, later]

theorem behind_calm (free : ∀ m ∈ s.marks (f ++ u), m.kind ≠ .comment) : s.behind f u = s.calmRun f := by
  induction f generalizing s with
  | nil => rfl
  | cons c f ih =>
    obtain ⟨-, next⟩ := ScanState.calm_of_free (free (s.mark c (f ++ u)) (by simp [ScanState.marks]))
    rw [ScanState.behind, ScanState.calmRun, next]
    refine ih fun m member => free m ?_
    rw [← next] at member
    simp [ScanState.marks, member]

/-- Where no comment opens anew there is nothing left to collapse. -/
theorem collapse_collapse (free : CommentFree (collapse t)) : collapse (collapse t) = collapse t := by
  have parted := (calm_collapse t false false (s := {}) (by simp)).1
  rw [show ({} : ScanState).calmed = {} from rfl, ← scan, ← collapse, ← free.scan_calm] at parted
  rw [collapse, collapseMarks_eq, parted, ← collapseMarks_eq, ← collapse]

theorem normalize_cleanUp (t : Text) : normalize (cleanUp t) = normalize t := by
  by_cases fixed : cleanUp t = t
  · rw [fixed]
  · rw [normalize.eq_def t, if_neg fixed]

theorem normalize_congr {t u : Text} (same : collapse t = collapse u) : normalize t = normalize u := by
  rw [← normalize_cleanUp t, ← normalize_cleanUp u, cleanUp, cleanUp, same]

theorem collapseMarks_kind {ms ns : Marks} (gap inner : Bool)
    (same : ms.map (fun m => (m.char, m.kind)) = ns.map fun m => (m.char, m.kind)) :
    collapseMarks gap inner ms = collapseMarks gap inner ns := by
  induction ms generalizing gap inner ns with
  | nil =>
    obtain rfl : ns = [] := List.map_eq_nil_iff.mp same.symm
    rfl
  | cons m ms ih =>
    cases ns with
    | nil => cases same
    | cons n ns =>
      obtain ⟨here, rest⟩ := List.cons.inj same
      obtain ⟨char, kind⟩ := Prod.mk.inj here
      have isGap : m.isGap = n.isGap := by rw [Mark.isGap, Mark.isGap, char, kind]
      rw [collapseMarks, collapseMarks, isGap, char, ih true inner rest, ih false true rest]

theorem collapse_blank {blanks : Text} (blank : ∀ c ∈ blanks, isBlank c) (t : Text) :
    collapse (blanks ++ t) = collapse t := by
  have marks : scan (blanks ++ t) = blanks.map (⟨·, 0, .code⟩) ++ scan t :=
    marks_plain rfl (fun c member => isPlain_of_isBlank c (blank c member)) t
  have gaps : ∀ m ∈ (blanks.map (⟨·, 0, .code⟩) : Marks), m.isGap := by
    intro m member
    obtain ⟨c, inBlanks, rfl⟩ := List.mem_map.mp member
    simp [Mark.isGap, blank c inBlanks]
  have noInk : (blanks.map (⟨·, 0, .code⟩) : Marks).any (!·.isGap) = false := by
    rw [List.any_eq_false]
    intro m member
    simp [gaps m member]
  rw [collapse, marks, collapseMarks_append, collapseMarks_of_gaps gaps, noInk, Bool.or_self,
    collapseMarks_before]
  rfl

theorem collapse_trimStart (t : Text) : collapse (trimStart t) = collapse t := by
  have parts := List.takeWhile_append_dropWhile (p := isBlank) (l := t)
  conv_rhs => rw [← parts, collapse_blank fun c member => List.mem_takeWhile_imp member]
  rfl

end State
section Endings

variable {k : Keyword} {t u w r : Text}

/-- A condition ends at the end of the text, at a closing parenthesis or at the words of another clause. -/
theorem endsCondition_iff : endsCondition t ↔ t = [] ∨ t.head? = some ')' ∨
    ∃ k ∈ conditionEnds, ∃ w r, t = w ++ r ∧ Spells k w ∧ r.head?.any isWordChar = false := by
  have startText : (Cursor.start t).text = t := by simp [Cursor.start, Cursor.text_mk]
  rw [endsCondition, Bool.or_eq_true, Bool.or_eq_true, List.isEmpty_iff, beq_iff_eq, or_assoc,
    ← conditionEnds, List.any_eq_true]
  refine or_congr_right (or_congr_right (exists_congr fun k => and_congr_right fun member => ?_))
  rw [startsWithKeyword, afterKeyword?, Option.isSome_map, Option.isSome_iff_exists]
  simp only [Cursor.keyword?_eq_some_iff (isKeyword_conditionEnds k member), startText]
  constructor
  · rintro ⟨_, -, w, r, text, spells, after, -⟩
    exact ⟨w, r, text, spells, after⟩
  · rintro ⟨w, r, text, spells, after⟩
    exact ⟨_, rfl, w, r, text, spells, after, rfl⟩

theorem collapseMarks_bare {depth : Nat} (bare : ∀ c ∈ w, isBlank c = false) :
    collapseMarks false true (w.map (⟨·, depth, .code⟩)) = w := by
  induction w with
  | nil => rfl
  | cons c w ih =>
    rw [List.map_cons, collapseMarks, isGap_flat, if_neg (by simp [bare c (by simp)]),
      if_neg (by simp), ih fun d member => bare d (by simp [member])]

theorem collapseMarks_bare_start {depth : Nat} (inner : Bool) (bare : ∀ c ∈ w, isBlank c = false) :
    collapseMarks false inner (w.map (⟨·, depth, .code⟩)) = w := by
  cases w with
  | nil => rfl
  | cons c w =>
    rw [List.map_cons, collapseMarks, isGap_flat, if_neg (by simp [bare c (by simp)]), if_neg (by simp),
      collapseMarks_bare fun d member => bare d (by simp [member])]

/-- A keyword is still spelled when the blanks between its words are made one. -/
theorem Spells.collapse (spells : Spells k w) (isKeyword : IsKeyword k) (inner : Bool) :
    Spells k (collapseMarks false inner (w.map (⟨·, 0, .code⟩))) := by
  induction spells generalizing inner with
  | @word w t letters =>
    have bare : ∀ c ∈ t, isBlank c = false := fun c member =>
      isBlank_of_isKeywordChar c (isKeywordChar_of_upper (isKeyword.2 w (by simp)).2 letters c member)
    rw [collapseMarks_bare_start inner bare]
    exact .word letters
  | @words w v t blanks rest ws letters apart blank later ih =>
    have capital := isKeyword.2 w (by simp)
    have others : IsKeyword (v :: ws) := ⟨by simp, fun x member => isKeyword.2 x (by simp [member])⟩
    have bare : ∀ c ∈ t, isBlank c = false := fun c member =>
      isBlank_of_isKeywordChar c (isKeywordChar_of_upper capital.2 letters c member)
    have full : t ≠ [] := by
      rintro rfl
      exact capital.1 (List.eq_nil_of_length_eq_zero (length_of_upper letters))
    have gaps : ∀ m ∈ (blanks.map (⟨·, 0, .code⟩) : Marks), m.isGap := by
      intro m member
      obtain ⟨c, inBlanks, rfl⟩ := List.mem_map.mp member
      simp [isGap_flat, blank c inBlanks]
    have lastGap : ((t ++ blanks).map (⟨·, 0, .code⟩) : Marks).getLast?.map Mark.isGap = some true := by
      obtain ⟨c, last⟩ := Option.isSome_iff_exists.mp (List.getLast?_isSome.mpr apart)
      rw [List.map_append, List.getLast?_append, List.getLast?_map, last]
      simp [isGap_flat, blank c (List.mem_of_getLast? last)]
    have ink : (inner || ((t ++ blanks).map (⟨·, 0, .code⟩) : Marks).any (!·.isGap)) = true := by
      obtain ⟨c, t, rfl⟩ := List.exists_cons_of_ne_nil full
      simp [isGap_flat, bare c (by simp)]
    rw [List.map_append, collapseMarks_append, lastGap, ink, List.map_append, collapseMarks_gaps _ _ _ _ gaps,
      collapseMarks_bare_start inner bare]
    obtain ⟨c, rest, rfl⟩ := List.exists_cons_of_ne_nil (later.ne_nil others)
    have first : isBlank c = false := by
      obtain ⟨d, start, letter⟩ := later.head? others
      obtain rfl : c = d := by simpa using start
      exact isBlank_of_isKeywordChar c letter
    have next := ih others true
    rw [List.map_cons, collapseMarks, isGap_flat, if_neg (by simp [first]), if_neg (by simp)] at next
    rw [Option.getD_some, List.map_cons, collapseMarks, isGap_flat, if_neg (by simp [first]),
      Bool.and_self, if_pos rfl]
    have spaced := Spells.words letters (by simp) (by simp; decide : ∀ c ∈ [' '], isBlank c) next
    simpa using spaced

theorem dropEndWhile_append {α : Type} {p : α → Bool} {s u : List α} (last : ∀ a ∈ s.getLast?, p a = false) (full : s ≠ []) :
    dropEndWhile p (s ++ u) = s ++ dropEndWhile p u := by
  have stays : s.reverse.dropWhile p = s.reverse := by
    obtain ⟨a, rest, reversed⟩ := List.exists_cons_of_ne_nil (List.reverse_ne_nil_iff.mpr full)
    have first : s.getLast? = some a := by rw [← List.head?_reverse, reversed, List.head?_cons]
    rw [reversed, List.dropWhile_cons_of_neg (by simp [last a first])]
  rw [dropEndWhile, List.reverse_append, List.dropWhile_append]
  split
  · rename_i none
    rw [stays, List.reverse_reverse, dropEndWhile, List.isEmpty_iff.mp none, List.reverse_nil, List.append_nil]
  · rw [List.reverse_append, List.reverse_reverse, dropEndWhile]

theorem trimEnd_append {s u : Text} (last : ∀ c ∈ s.getLast?, isBlank c = false) (full : s ≠ []) :
    trimEnd (s ++ u) = s ++ trimEnd u := dropEndWhile_append last full

theorem Spells.last (spells : Spells k w) (isKeyword : IsKeyword k) :
    ∀ c ∈ w.getLast?, isBlank c = false ∧ (c == ';') = false ∧ isWordChar c := by
  intro c last
  obtain ⟨d, same, letter⟩ := spells.getLast isKeyword
  obtain rfl : c = d := by simpa [same] using last.symm
  exact ⟨isBlank_of_isKeywordChar c letter, beq_eq_false_iff_ne.mpr (ne_of_isKeywordChar letter (by decide)),
    isWordChar_of_isKeywordChar c letter⟩

theorem trimStart_of_ends (ends : endsCondition t) : trimStart t = t := by
  refine trimStart_of_head fun c first => ?_
  rcases endsCondition_iff.mp ends with rfl | closing | ⟨k, member, w, r, rfl, spells, -⟩
  · cases first
  · obtain rfl : ')' = c := Option.some.inj (closing.symm.trans first)
    decide
  · have isKeyword := isKeyword_conditionEnds k member
    obtain ⟨d, start, letter⟩ := spells.head? isKeyword
    rw [List.head?_append, start, Option.some_or, Option.mem_some_iff] at first
    subst first
    exact isBlank_of_isKeywordChar d letter

theorem endsCondition_collapse (ends : endsCondition t) : endsCondition (collapse t) := by
  rcases endsCondition_iff.mp ends with rfl | closing | ⟨k, member, w, r, rfl, spells, after⟩
  · exact ends
  · obtain ⟨r, rfl⟩ := List.head?_eq_some_iff.mp closing
    have ink : (({} : ScanState).mark ')' r).isGap = false := by
      simp only [ScanState.mark, role_closing]
      rfl
    refine endsCondition_iff.mpr (.inr (.inl ?_))
    rw [collapse, scan, ScanState.marks, collapseMarks, if_neg (by simp [ink]), if_neg (by simp), ScanState.mark_char,
      List.head?_cons]
  · have isKeyword := isKeyword_conditionEnds k member
    have marks : scan (w ++ r) = w.map (⟨·, 0, .code⟩) ++ scan r := marks_plain rfl (spells.isPlain isKeyword) r
    have collapsed := spells.collapse isKeyword false
    have divided : Divided (markText (w.map (⟨·, 0, .code⟩))) (markText (scan r)) := .inr (by rwa [markText_scan])
    have still := divided_collapse false false divided
    rw [collapse, marks, collapseMarks_append]
    refine endsCondition_iff.mpr (.inr (.inr ⟨k, member, _, _, rfl, collapsed, still.resolve_left fun noWord => ?_⟩))
    obtain ⟨c, last, letter⟩ := collapsed.getLast isKeyword
    rw [last, Option.any_some, isWordChar_of_isKeywordChar c letter] at noWord
    cases noWord

theorem endsCondition_dropSemicolons (ends : endsCondition t) : endsCondition (dropSemicolons t) := by
  rcases endsCondition_iff.mp ends with rfl | closing | ⟨k, member, w, r, rfl, spells, after⟩
  · exact ends
  · obtain ⟨r, rfl⟩ := List.head?_eq_some_iff.mp closing
    have kept : dropSemicolons ([')'] ++ r) = [')'] ++ dropSemicolons r := dropEndWhile_append (by simp; decide) (by simp)
    exact endsCondition_iff.mpr (.inr (.inl (by rw [← List.singleton_append, kept]; rfl)))
  · have isKeyword := isKeyword_conditionEnds k member
    have kept : dropSemicolons (w ++ r) = w ++ dropSemicolons r := by
      refine dropEndWhile_append (fun c last => ?_) (spells.ne_nil isKeyword)
      obtain ⟨full, other, -⟩ := spells.last isKeyword c last
      rw [full, other, Bool.or_self]
    refine endsCondition_iff.mpr (.inr (.inr ⟨k, member, w, dropSemicolons r, kept, spells, ?_⟩))
    refine any_eq_false fun c first => ?_
    obtain ⟨back, parts⟩ : dropSemicolons r <+: r := ⟨_, dropEndWhile_append_takeWhile _ r⟩
    rw [← parts, List.head?_append, Option.mem_def.mp first, Option.some_or] at after
    exact after

theorem Spells.before_stray {i j : Nat} (spells : Spells k w) (member : k ∈ conditionEnds)
    (stray : StrayNull (w ++ r) i j) : w.length ≤ i := by
  by_contra inside
  have isKeyword := isKeyword_conditionEnds k member
  obtain ⟨l, c, headed, first, -, same⟩ := stray.spells.first_letter isKeyword_andNull
  obtain rfl : l = 'A' := by simpa using headed.symm
  have here : (w ++ r)[i]? = some c := by
    rw [slice_eq_take_drop, List.head?_take] at first
    split at first
    · cases first
    · rwa [List.head?_drop] at first
  rw [List.getElem?_append_left (by omega)] at here
  have heads : ∀ k ∈ conditionEnds, ∀ v ∈ k, v.head? ≠ some 'A' := by decide
  have capitals : ∀ k ∈ conditionEnds, ∀ v ∈ k, v.head?.map Char.toUpper = v.head? := by decide
  have different {v : Text} (inKeyword : v ∈ k) {l : Char} (start : l ∈ v.head?) : ¬sameLetter l c := by
    intro other
    simp only [sameLetter, beq_iff_eq] at same other
    have capital := capitals k member v inKeyword
    rw [Option.mem_def.mp start] at capital
    rw [show l.toUpper = l from Option.some.inj capital, ← same] at other
    exact heads k member v inKeyword (by rw [Option.mem_def.mp start, other]; rfl)
  cases i with
  | zero =>
    obtain ⟨l, d, start, begins, -, other⟩ := spells.first_letter isKeyword
    rw [← List.head?_eq_getElem?, begins] at here
    obtain rfl := Option.some.inj here
    obtain ⟨v, vs, rfl⟩ := List.exists_cons_of_ne_nil isKeyword.1
    exact different (by simp) start other
  | succ i =>
    obtain ⟨b, before⟩ : ∃ b, w[i]? = some b := ⟨w[i], List.getElem?_eq_getElem (by omega)⟩
    have noWord := stray.before
    rw [List.take_append_of_le_length (by omega), List.getLast?_take, if_neg (by omega), Nat.add_sub_cancel, before,
      Option.some_or, Option.any_some] at noWord
    rcases spells.chars isKeyword b (List.mem_of_getElem? before) with blank | letter
    · rcases spells.behind_blank isKeyword i b c blank before here with blankNext | ⟨v, inTail, l, start, other⟩
      · have letter := isKeywordChar_of_sameLetter 'A' c (by decide) same
        rw [isBlank_of_isKeywordChar c letter] at blankNext
        cases blankNext
      · exact different (List.mem_of_mem_tail inTail) start other
    · rw [isWordChar_of_isKeywordChar b letter] at noWord
      cases noWord

theorem head?_spaceBefore (rest : Text) : (spaceBefore rest ++ rest).head?.any isWordChar = false := by
  rw [spaceBefore]
  split
  · rename_i close
    rw [List.nil_append]
    refine any_eq_false fun c first => ?_
    rw [Option.mem_def.mp first, Bool.or_eq_true, beq_iff_eq] at close
    rcases close with empty | closing
    · rw [List.isEmpty_iff.mp empty] at first
      cases first
    · obtain rfl := Option.some.inj closing
      decide
  · rfl

theorem head?_around (r rest : Text) (i : Nat) (after : r.head?.any isWordChar = false) :
    (trimEnd (r.take i) ++ (spaceBefore rest ++ rest)).head?.any isWordChar = false := by
  obtain ⟨back, parts⟩ : trimEnd (r.take i) <+: r.take i := ⟨_, dropEndWhile_append_takeWhile _ _⟩
  cases front : trimEnd (r.take i) with
  | nil => exact head?_spaceBefore rest
  | cons c front' =>
    rw [front] at parts
    have first : r.head? = some c := by
      cases r with
      | nil => simp at parts
      | cons d r =>
        cases i with
        | zero => simp at parts
        | succ i => simpa using (List.cons.inj parts).1.symm
    rw [first] at after
    exact after

theorem endsCondition_withoutStray {i j : Nat} (stray : StrayNull t i j) (ends : endsCondition t) :
    endsCondition (withoutStray t i j) := by
  rcases endsCondition_iff.mp ends with rfl | closing | ⟨k, member, w, r, rfl, spells, after⟩
  · exact absurd stray.lt (Nat.not_lt_zero i)
  · obtain ⟨r, rfl⟩ := List.head?_eq_some_iff.mp closing
    obtain ⟨i, rfl⟩ : ∃ n, i = n + 1 := by
      refine ⟨i - 1, Nat.eq_add_of_sub_eq (Nat.pos_of_ne_zero ?_) rfl⟩
      rintro rfl
      have word := stray.word
      rw [wordAt, List.drop_zero, List.takeWhile_cons_of_neg (by decide)] at word
      split at word <;> cases word
    have kept : trimEnd ([')'] ++ r.take i) = [')'] ++ trimEnd (r.take i) := trimEnd_append (by simp; decide) (by simp)
    refine endsCondition_iff.mpr (.inr (.inl ?_))
    rw [withoutStray, List.take_succ_cons, ← List.singleton_append, kept]
    rfl
  · have isKeyword := isKeyword_conditionEnds k member
    obtain ⟨i, rfl⟩ := Nat.exists_eq_add_of_le (spells.before_stray member stray)
    have kept : trimEnd (w ++ r.take i) = w ++ trimEnd (r.take i) :=
      trimEnd_append (fun c last => (spells.last isKeyword c last).1) (spells.ne_nil isKeyword)
    rw [withoutStray, List.take_length_add_append, kept, List.append_assoc, List.append_assoc]
    refine endsCondition_iff.mpr (.inr (.inr ⟨k, member, w, _, rfl, spells, ?_⟩))
    exact head?_around r _ i after

theorem endsCondition_normalize (ends : endsCondition (trimStart t)) : endsCondition (normalize t) := by
  fun_induction normalize t with
  | case1 t fixed =>
    rwa [trimStart_of_head (head_of_spaced (isNormal_of_cleanUp fixed).spaced)] at ends
  | case2 t changed ih =>
    have collapsed := endsCondition_collapse ends
    rw [collapse_trimStart] at collapsed
    have shortened := endsCondition_dropSemicolons collapsed
    have cleaned : endsCondition (cleanUp t) := by
      rw [cleanUp, dropStrayNull]
      cases dropped : dropStrayNull? (dropSemicolons (collapse t)) with
      | none => exact shortened
      | some u =>
        obtain ⟨i, j, stray, -, rfl⟩ := dropStrayNull?_eq_some_iff.mp dropped
        exact endsCondition_withoutStray stray shortened
    exact ih (by rwa [trimStart_of_ends cleaned])

end Endings
end QueryChain
