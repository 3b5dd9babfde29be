import QueryChain.Proofs.NormalForm.Dashes

namespace QueryChain

section Opened

variable {s : ScanState} {c : Char} {t front behind back : Text}

/-- The first comment of a text opens in code, behind a part that says what it says alone. -/
theorem exists_opened (no : s.NoComment) (comment : ¬∀ m ∈ s.marks t, m.kind ≠ .comment) :
    ∃ front c behind, t = front ++ c :: behind ∧ (s.calmRun front).mode = .code ∧
      (∀ f g, front = f ++ g → s.behind f (g ++ c :: behind) = s.calmRun f) ∧
      (opensLineComment c behind ∨ opensBlockComment c behind) := by
  induction t generalizing s with
  | nil => simp [ScanState.marks] at comment
  | cons c t ih =>
    by_cases here : (s.mark c t).kind = .comment
    · have code : s.mode = .code := by
        rcases no with code | ⟨q, escaped, quote⟩
        · exact code
        · rw [ScanState.mark, quote] at here
          cases here
      refine ⟨[], c, t, rfl, code, fun f g parts => ?_, opens_of_kind code here⟩
      obtain ⟨rfl, rfl⟩ := List.append_eq_nil_iff.mp parts.symm
      rfl
    · have next := (ScanState.calm_of_free here).2
      rw [ScanState.marks, List.forall_mem_cons, not_and] at comment
      obtain ⟨front, d, behind, rfl, code, same, opens⟩ := ih (no.next here) (comment here)
      refine ⟨c :: front, d, behind, rfl, by rwa [ScanState.calmRun, ← next], fun f g parts => ?_, opens⟩
      cases f with
      | nil => rfl
      | cons e f =>
        obtain ⟨rfl, rest⟩ := List.cons.inj parts
        have here : s.next c (f ++ (g ++ d :: behind)) = s.next c [] := by
          rwa [rest, List.append_eq, List.append_assoc] at next
        rw [ScanState.behind, ScanState.calmRun, here, ← next, ← same f g rest]

theorem comment_of_opens (code : (({} : ScanState).calmRun front).mode = .code)
    (alone : ({} : ScanState).behind front (c :: behind) = ({} : ScanState).calmRun front)
    (opens : opensLineComment c behind ∨ opensBlockComment c behind) :
    ∃ m ∈ scan (front ++ c :: behind), m.char = c ∧ m.kind = .comment := by
  refine ⟨(({} : ScanState).calmRun front).mark c behind, ?_, ScanState.mark_char _ _ _, kind_of_opens code opens⟩
  rw [scan, ScanState.marks_append, alone, ScanState.marks]
  simp

theorem not_free_of_opens (code : (({} : ScanState).calmRun front).mode = .code)
    (opens : opensLineComment c behind ∨ opensBlockComment c behind) : ¬CommentFree (front ++ c :: behind) := by
  intro free
  obtain ⟨m, member, -, comment⟩ := comment_of_opens code (behind_calm free) opens
  exact free m member comment

theorem not_opens_plain (plain : isPlain c) : ¬(opensLineComment c t ∨ opensBlockComment c t) := by
  have role := role_of_plain c t plain
  intro opens
  have comment := kind_of_opens (s := {}) rfl opens
  rw [ScanState.mark, role] at comment
  cases comment

/-- Other text may follow an opener unless it is two dashes that a blank follows. -/
theorem opens_moved (new : Text) (opens : opensLineComment c (front ++ back) ∨ opensBlockComment c (front ++ back))
    (head : ∀ d ∈ back.head?, d ≠ '-' ∧ d ≠ '*') :
    (opensLineComment c (front ++ new) ∨ opensBlockComment c (front ++ new)) ∨
      c = '-' ∧ front = ['-'] ∧ back.head?.all isBlank := by
  rcases opens with line | block
  · rw [opensLineComment_eq, Bool.or_eq_true, Bool.and_eq_true, Bool.and_eq_true, beq_iff_eq, beq_iff_eq,
      beq_iff_eq] at line
    rw [opensLineComment_eq]
    rcases line with rfl | ⟨⟨rfl, second⟩, third⟩
    · exact .inl (.inl rfl)
    · match front with
      | [] => exact absurd rfl (head '-' second).1
      | [d] =>
        obtain rfl : d = '-' := Option.some.inj second
        exact .inr ⟨rfl, rfl, third⟩
      | d :: e :: front =>
        obtain rfl : d = '-' := Option.some.inj second
        exact .inl (.inl third)
  · rw [opensBlockComment, Bool.and_eq_true, beq_iff_eq, beq_iff_eq] at block
    obtain ⟨rfl, star⟩ := block
    cases front with
    | nil => exact absurd rfl (head '*' star).2
    | cons d front =>
      obtain rfl : d = '*' := Option.some.inj star
      exact .inl (.inr rfl)

end Opened
section Cut

variable {s : ScanState} {c : Char} {t front behind first rest : Text} {i j : Nat}

theorem free_of_dropSemicolons (free : CommentFree (dropSemicolons t)) : CommentFree t := by
  obtain ⟨back, text, chars, plain⟩ := dropSemicolons_parts t
  generalize dropSemicolons t = u at free text
  subst text
  by_contra comment
  obtain ⟨front, c, behind, parts, code, -, opens⟩ := exists_opened (.inl rfl) comment
  rcases cons_of_append parts with ⟨f, rfl, rfl⟩ | ⟨f, -, rfl⟩
  · refine not_free_of_opens code ?_ free
    have head : ∀ d ∈ back.head?, d ≠ '-' ∧ d ≠ '*' := by
      intro d first
      rcases chars d (List.mem_of_mem_head? first) with rfl | blank
      · decide
      · constructor <;> (rintro rfl; revert blank; decide)
    rcases opens_moved [] opens head with same | ⟨rfl, rfl, -⟩
    · rwa [List.append_nil] at same
    · exact .inl rfl
  · exact not_opens_plain (plain c (by simp)) opens

theorem behind_lineComment (line : s.mode = .lineComment) (one : ∀ c ∈ t, c ≠ '\n') (rest : Text) :
    s.behind t rest = s := by
  induction t with
  | nil => rfl
  | cons c t ih =>
    have stays : s.next c (t ++ rest) = s := by
      rw [ScanState.next, line]
      exact if_neg (one c (by simp))
    rw [ScanState.behind, stays]
    exact ih fun d member => one d (by simp [member])

/-- Blanks behind two dashes that open a comment are in the comment. -/
theorem mode_behind_dashes
    (calm : ∀ m ∈ ({} : ScanState).calmMarks (front ++ '-' :: '-' :: (t ++ rest)), m.isGap → m.char = ' ')
    (code : (({} : ScanState).calmRun front).mode = .code) (blank : ∀ c ∈ t, isBlank c)
    (same : ({} : ScanState).behind front ('-' :: '-' :: (t ++ rest)) = ({} : ScanState).calmRun front)
    (opens : opensLineComment '-' ('-' :: (t ++ rest))) :
    (({} : ScanState).behind (front ++ '-' :: '-' :: t) rest).mode = .lineComment := by
  have flat : ∀ c ∈ '-' :: '-' :: t, Role.of c [] = .plain := by
    intro c member
    rw [List.mem_cons, List.mem_cons] at member
    rcases member with rfl | rfl | inBlanks
    · decide
    · decide
    · exact role_of_plain c [] (isPlain_of_isBlank c (blank c inBlanks))
  have one : ∀ c ∈ t, c ≠ '\n' := by
    intro c member
    have inMarks : (⟨c, (({} : ScanState).calmRun front).depth, .code⟩ : Mark) ∈
        ({} : ScanState).calmMarks (front ++ ('-' :: '-' :: t ++ rest)) := by
      rw [ScanState.calmMarks_append, ScanState.calmMarks_append, (ScanState.calm_roles code flat).1]
      exact List.mem_append_right _ (List.mem_append_left _ (List.mem_map_of_mem (by simp [member])))
    rintro rfl
    have space : '\n' = ' ' := calm _ inMarks (by simp [Mark.isGap, blank _ member])
    cases space
  have line : ((({} : ScanState).calmRun front).next '-' ('-' :: (t ++ rest))).mode = .lineComment := by
    rw [ScanState.next, code, Role.of, opens]
    rfl
  have again : ∀ c ∈ '-' :: t, c ≠ '\n' := List.forall_mem_cons.mpr ⟨by decide, one⟩
  rw [ScanState.behind_append, List.cons_append, List.cons_append, same, ScanState.behind, List.cons_append,
    behind_lineComment line again]
  exact line

theorem mode_at {m : Mark} (here : (scan (front ++ c :: rest))[front.length]? = some m) (isCode : m.isCode)
    (noFeed : c ≠ '\n') : (({} : ScanState).behind front (c :: rest)).mode = .code := by
  have mark := mark_at (t := front ++ c :: rest) (i := front.length) List.drop_left
  rw [here, stateAt, List.take_left, List.drop_left] at mark
  exact ScanState.mode_of_code _ c rest noFeed (Option.some.inj mark ▸ isCode)

theorem head_before_word {before : Text} {w : Char} (blank : ∀ c ∈ before, isBlank c) (letter : isKeywordChar w) :
    ∀ d ∈ (before ++ w :: rest).head?, d ≠ '-' ∧ d ≠ '*' := by
  intro d first
  have blankOrLetter : isBlank d ∨ isKeywordChar d := by
    cases before with
    | nil =>
      obtain rfl : w = d := Option.some.inj first
      exact .inr letter
    | cons b before =>
      obtain rfl : b = d := Option.some.inj first
      exact .inl (blank b (by simp))
  constructor <;> (rintro rfl; revert blankOrLetter; decide)

/-- What opens behind a plain part opens behind another one. -/
theorem not_free_behind {mid new : Text} (start : (({} : ScanState).calmRun first).mode = .code)
    (plain : ∀ c ∈ mid, isPlain c) (plainNew : ∀ c ∈ new, isPlain c)
    (code : (({} : ScanState).calmRun (first ++ (mid ++ front))).mode = .code)
    (opens : opensLineComment c behind ∨ opensBlockComment c behind) :
    ¬CommentFree (first ++ (new ++ (front ++ c :: behind))) := by
  have moved : (({} : ScanState).calmRun (first ++ (new ++ front))).mode = .code := by
    rw [ScanState.calmRun_append, ScanState.calmRun_append, (ScanState.calm_plain start plainNew).2.1]
    rwa [ScanState.calmRun_append, ScanState.calmRun_append, (ScanState.calm_plain start plain).2.1] at code
  have opened := not_free_of_opens moved opens
  rwa [List.append_assoc, List.append_assoc] at opened

theorem free_of_withoutStray (calm : ∀ m ∈ ({} : ScanState).calmMarks t, m.kind ≠ .comment ∧ (m.isGap → m.char = ' '))
    (stray : StrayNull t i j) (free : CommentFree (withoutStray t i j)) : CommentFree t := by
  obtain ⟨m, here, isCode⟩ := stray.code
  obtain ⟨first, before, word, more, rest, text, start, -, without, blankBefore, -, spells, plain⟩ := stray.parts
  obtain ⟨w, head, letter⟩ := spells.head? isKeyword_andNull
  obtain ⟨word, rfl⟩ := List.head?_eq_some_iff.mp head
  have atWord (rest : Text) : before ++ w :: word ++ more ++ rest = before ++ w :: (word ++ more ++ rest) := by simp
  have noFeed : w ≠ '\n' := by
    rintro rfl
    cases letter
  have mode : (({} : ScanState).behind (first ++ before) (w :: (word ++ more ++ rest))).mode = .code := by
    refine mode_at ?_ isCode noFeed
    rw [start, ← here, text, atWord, List.append_assoc]
  have headBack : ∀ d ∈ (before ++ w :: word ++ more ++ rest).head?, d ≠ '-' ∧ d ≠ '*' := by
    rw [atWord]
    exact head_before_word blankBefore letter
  rw [without] at free
  subst text
  generalize before ++ w :: word ++ more = mid at plain atWord calm headBack
  by_contra comment
  obtain ⟨front, c, behind, parts, modeFront, same, opens⟩ := exists_opened (.inl rfl) comment
  rcases cons_of_append parts with ⟨f, rfl, rfl⟩ | ⟨a, rfl, inBack⟩
  · rcases opens_moved (spaceBefore rest ++ rest) opens headBack with moved | ⟨rfl, rfl, -⟩
    · refine not_free_of_opens modeFront moved ?_
      rwa [List.append_assoc, List.cons_append] at free
    · have line : opensLineComment '-' (['-'] ++ (mid ++ rest)) := opens.resolve_right (by simp [opensBlockComment])
      have alone := same front [] (List.append_nil front).symm
      rw [List.append_assoc] at calm mode
      rw [atWord] at calm line alone
      have inComment : (({} : ScanState).behind (front ++ '-' :: '-' :: before) (w :: (word ++ more ++ rest))).mode =
          .lineComment := mode_behind_dashes (fun m member => (calm m member).2) modeFront blankBefore alone line
      cases inComment.symm.trans mode
  · rcases cons_of_append inBack with ⟨f, rfl, -⟩ | ⟨a, rfl, rfl⟩
    · exact not_opens_plain (plain c (by simp)) opens
    · have calmFirst : ∀ m ∈ ({} : ScanState).calmMarks first, m.kind ≠ .comment := fun m member => by
        rw [ScanState.calmMarks_append] at calm
        exact (calm m (List.mem_append_left _ member)).1
      have upToWord := same (first ++ before) (w :: (word ++ more ++ a)) (by simp [atWord])
      rw [List.cons_append, List.append_assoc] at upToWord
      rw [upToWord, ScanState.calmRun_append] at mode
      have start := code_of_plain_behind (quoting_calm (.inl rfl) calmFirst)
        (fun c member => isPlain_of_isBlank c (blankBefore c member)) mode
      exact not_free_behind start plain (fun c member => (isBlank_spaceBefore c member).1) modeFront opens free

theorem free_of_cleanUp (free : CommentFree (cleanUp t)) :
    CommentFree (collapse t) ∧ CommentFree (dropSemicolons (collapse t)) := by
  have calm := (calm_collapse t false false (s := {}) (by simp)).2.1
  rw [show ({} : ScanState).calmed = {} from rfl, ← scan, ← collapse] at calm
  obtain ⟨back, text, -, -⟩ := dropSemicolons_parts (collapse t)
  have shorter : CommentFree (dropSemicolons (collapse t)) := by
    rw [text, ScanState.calmMarks_append] at calm
    rw [cleanUp, dropStrayNull] at free
    cases dropped : dropStrayNull? (dropSemicolons (collapse t)) with
    | none => rwa [dropped] at free
    | some u =>
      rw [dropped, Option.getD_some] at free
      obtain ⟨i, j, stray, -, rfl⟩ := dropStrayNull?_eq_some_iff.mp dropped
      exact free_of_withoutStray (fun m member => calm m (List.mem_append_left _ member)) stray free
  exact ⟨free_of_dropSemicolons shorter, shorter⟩

end Cut

/-- The characters that a comment opens with. -/
def isOpener (c : Char) : Bool := c == '-' || c == '#' || c == '/'

/-- How many of them a text says. -/
def openers (t : Text) : Nat := (inkMarks t).countP (isOpener ·.char)

section Openers

variable {c : Char} {t u : Text}

theorem countP_collapseMarks (gap inner : Bool) (ms : Marks) :
    (collapseMarks gap inner ms).countP isOpener = (ms.filter (!·.isGap)).countP (isOpener ·.char) := by
  induction ms generalizing gap inner with
  | nil => rfl
  | cons m ms ih =>
    have noSpace : isOpener ' ' = false := by decide
    rw [collapseMarks]
    by_cases isGap : m.isGap
    · rw [if_pos isGap, ih, List.filter_cons_of_neg (by simp [isGap])]
    · rw [if_neg isGap, List.filter_cons_of_pos (by simp [isGap]), List.countP_cons]
      split <;> simp [List.countP_cons, ih, noSpace]

theorem countP_scan (t : Text) : (scan t).countP (isOpener ·.char) = t.countP isOpener := by
  conv_rhs => rw [← markText_scan t]
  rw [markText, List.countP_map]
  rfl

theorem openers_le (t : Text) : openers t ≤ t.countP isOpener := by
  rw [← countP_scan]
  exact List.filter_sublist.countP_le

theorem countP_withoutStray_le (i j : Nat) (le : i ≤ j) : (withoutStray t i j).countP isOpener ≤ t.countP isOpener := by
  have space : (spaceBefore (trimStart (t.drop j))).countP isOpener = 0 := by
    rw [List.countP_eq_zero]
    intro c member opener
    obtain ⟨-, blank⟩ := isBlank_spaceBefore c member
    simp only [isOpener, Bool.or_eq_true, beq_iff_eq] at opener
    rcases opener with (rfl | rfl) | rfl <;> (revert blank; decide)
  have first : (trimEnd (t.take i)).Sublist (t.take i) := by
    have front : trimEnd (t.take i) <+: t.take i := ⟨_, dropEndWhile_append_takeWhile isBlank (t.take i)⟩
    exact front.sublist
  have last : (trimStart (t.drop j)).Sublist (t.drop j) := (List.dropWhile_suffix _).sublist
  have whole : (t.take i ++ t.drop j).Sublist t := by
    conv_rhs => rw [← List.take_append_drop i t]
    exact (List.drop_sublist_drop_left t le).append_left _
  have all := ((first.append last).trans whole).countP_le (p := isOpener)
  rw [List.countP_append] at all
  rw [withoutStray, List.countP_append, List.countP_append, space, Nat.add_zero]
  exact all

/-- A clean-up writes no opener that was not said before. -/
theorem countP_cleanUp_le (t : Text) : (cleanUp t).countP isOpener ≤ openers t := by
  have collapsed : (collapse t).countP isOpener = openers t := countP_collapseMarks false false (scan t)
  obtain ⟨back, text, -, -⟩ := dropSemicolons_parts (collapse t)
  have shortened : (dropSemicolons (collapse t)).countP isOpener ≤ (collapse t).countP isOpener := by
    conv_rhs => rw [text, List.countP_append]
    exact Nat.le_add_right _ _
  rw [← collapsed, cleanUp, dropStrayNull]
  cases dropped : dropStrayNull? (dropSemicolons (collapse t)) with
  | none => exact shortened
  | some u =>
    obtain ⟨i, j, stray, -, rfl⟩ := dropStrayNull?_eq_some_iff.mp dropped
    exact (countP_withoutStray_le i j stray.le).trans shortened

theorem openers_normalize_le (t : Text) : openers (normalize t) ≤ openers t := by
  induction t using normalize.induct with
  | case1 t fixed => rw [normalize, if_pos fixed]
  | case2 t changed ih =>
    rw [normalize, if_neg changed]
    exact ih.trans ((openers_le _).trans (countP_cleanUp_le t))

theorem opener_of_opens (opens : opensLineComment c t ∨ opensBlockComment c t) : isOpener c := by
  rw [opensLineComment_eq, opensBlockComment] at opens
  simp [isOpener] at opens ⊢
  tauto

/-- A text that says all openers it has opens no comment. -/
theorem free_of_openers (all : t.countP isOpener ≤ openers t) : CommentFree t := by
  by_contra comment
  obtain ⟨front, c, behind, rfl, code, same, opens⟩ := exists_opened (.inl rfl) comment
  obtain ⟨m, member, rfl, isComment⟩ := comment_of_opens code (same front [] (List.append_nil front).symm) opens
  have said : (inkMarks (front ++ m.char :: behind)).filter (isOpener ·.char) =
      (scan (front ++ m.char :: behind)).filter (isOpener ·.char) := by
    refine (List.filter_sublist.filter _).eq_of_length_le ?_
    rw [← List.countP_eq_length_filter, ← List.countP_eq_length_filter, countP_scan]
    exact all
  have listed : m ∈ (scan (front ++ m.char :: behind)).filter (isOpener ·.char) :=
    List.mem_filter.mpr ⟨member, opener_of_opens opens⟩
  rw [← said, inkMarks] at listed
  have ink := (List.mem_filter.mp (List.mem_filter.mp listed).1).2
  simp [Mark.isGap, isComment] at ink

theorem Cleared.openers_eq (cleared : Cleared t u) : openers t = openers u := by
  have same := cleared.filter_eq (p := fun m => isOpener m.char && !m.isGap) (fun m opener => ?_) (fun _ => rfl)
    fun c depth letter => ?_
  · rw [openers, openers, inkMarks, inkMarks, List.countP_filter, List.countP_filter, List.countP_eq_length_filter,
      List.countP_eq_length_filter, same]
  · simpa using (Bool.and_eq_true_iff.mp opener).2
  · rw [Bool.and_eq_false_iff]
    left
    rw [Bool.eq_false_iff]
    intro opener
    simp only [isOpener, Bool.or_eq_true, beq_iff_eq] at opener
    rcases opener with (rfl | rfl) | rfl <;> cases letter

/-- A text whose openers are all still said in its normal form is cleaned up without opening a comment. -/
theorem quiet_of_openers (kept : openers t ≤ openers (normalize t)) : Quiet t := by
  induction t using normalize.induct with
  | case1 t fixed => exact .settled fixed
  | case2 t changed ih =>
    rw [normalize, if_neg changed] at kept
    have later := openers_normalize_le (cleanUp t)
    have written := countP_cleanUp_le t
    have said : openers (cleanUp t) ≤ (cleanUp t).countP isOpener := openers_le _
    have free : CommentFree (cleanUp t) := free_of_openers (by omega)
    obtain ⟨collapsed, shortened⟩ := free_of_cleanUp free
    exact .step collapsed shortened free (ih (by omega))

/-- A text loses some of its code as soon as one clean-up opens a comment. -/
theorem cleared_normalize_iff (balanced : Balanced t) : Cleared t (normalize t) ↔ Quiet t :=
  ⟨fun cleared => quiet_of_openers cleared.openers_eq.le, fun quiet => (cleared_normalize balanced quiet).2⟩

end Openers
end QueryChain
