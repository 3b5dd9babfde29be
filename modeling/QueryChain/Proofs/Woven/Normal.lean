import QueryChain.Proofs.Keyword.Layout
import QueryChain.Proofs.NormalForm.Stray
import QueryChain.Proofs.NormalForm.Tidy
import QueryChain.Proofs.Woven.Pieces

namespace QueryChain

section Collapse

variable {w : Weave} {s : ScanState} {c d : Char} {t u : Text} {gap inner : Bool}

theorem foldsMarks_isGap : FoldsMarks Mark.isGap := by
  intro m d same
  have equal := folds_isBlank m.char d same
  simp only [Mark.isGap]
  rw [equal]

theorem comment_of_dashes (comment : (s.mark c t).kind = .comment) (dashes : ∀ a ∈ c :: t, a = '-') :
    ∀ m ∈ s.marks (c :: t), m.isGap := by
  have inside (s : ScanState) (t : Text) (dashes : ∀ a ∈ t, a = '-')
      (mode : s.mode = .lineComment ∨ s.mode = .opener ∨ ∃ star, s.mode = .blockComment star) :
      ∀ m ∈ s.marks t, m.isGap := by
    induction t generalizing s with
    | nil => simp [ScanState.marks]
    | cons a t ih =>
      obtain rfl := dashes a (by simp)
      rw [ScanState.marks]
      rcases mode with line | opener | ⟨star, block⟩
      · have rest := ih s (fun a member => dashes a (by simp [member])) (.inl line)
        simpa [ScanState.mark, ScanState.next, line, Mark.isGap] using rest
      · have rest := ih { s with mode := .blockComment false } (fun a member => dashes a (by simp [member])) (by simp)
        simpa [ScanState.mark, ScanState.next, opener, Mark.isGap] using rest
      · have rest := ih { s with mode := .blockComment false } (fun a member => dashes a (by simp [member])) (by simp)
        simpa [ScanState.mark, ScanState.next, block, Mark.isGap] using rest
  obtain rfl := dashes c (by simp)
  obtain ⟨mode, depth⟩ := s
  cases mode with
  | code =>
    have line : opensLineComment '-' t := by
      by_contra other
      simp [ScanState.mark, Role.of, other, opensBlockComment, isQuote] at comment
    have role : Role.of '-' t = .lineComment := by rw [Role.of, if_pos line]
    have rest := inside ⟨.lineComment, depth⟩ t (fun a member => dashes a (by simp [member])) (.inl rfl)
    simpa [ScanState.marks, ScanState.mark, ScanState.next, role, Mark.isGap] using rest
  | quote q escaped => simp [ScanState.mark] at comment
  | lineComment => exact inside _ _ dashes (.inl rfl)
  | opener => exact inside _ _ dashes (.inr (.inl rfl))
  | blockComment star => exact inside _ _ dashes (.inr (.inr ⟨star, rfl⟩))

theorem Woven.dashes_head (woven : Woven w s (c :: t) u) (quiet : w.quiet) (comment : (s.mark c t).kind = .comment) :
    ∀ a ∈ c :: t, a = '-' := by
  generalize whole : c :: t = x at woven
  cases woven with
  | nil => cases whole
  | char same dashes rest =>
    cases whole
    exact dashes quiet comment
  | literal _ code rest =>
    obtain ⟨rfl, -⟩ := List.cons.inj whole
    have role : Role.of '\'' t = .quote := by simp [Role.of, opensLineComment, opensBlockComment, isQuote]
    simp [ScanState.mark, code, role] at comment

theorem head?_collapseMarks_inked {x : Char} (head : (collapseMarks false true (s.marks t)).head? = some x) (ink : x ≠ ' ') :
    ∃ t', t = x :: t' ∧ (s.mark x t').isGap = false := by
  cases t with
  | nil => cases head
  | cons a t =>
    rw [ScanState.marks, collapseMarks] at head
    by_cases isGap : (s.mark a t).isGap
    · rw [if_pos isGap] at head
      rcases collapseMarks_gap ((s.next a t).marks t) with none | ⟨rest, blank⟩
      · rw [none] at head
        cases head
      · rw [blank] at head
        exact absurd (Option.some.inj head).symm ink
    · rw [if_neg isGap] at head
      simp only [Bool.false_and, Bool.false_eq_true, if_false, List.head?_cons, Option.some.injEq,
        ScanState.mark_char] at head
      subst head
      exact ⟨t, rfl, by simpa using isGap⟩

theorem role_collapse (code : s.mode = .code) (inked : (s.mark c t).isGap = false)
    (dashes : ∀ x t', t = '-' :: x :: t' → s.next c t = s → s.next '-' (x :: t') = s →
      (s.mark x t').kind = .comment → ∀ a ∈ x :: t', a = '-') :
    Role.of c (collapseMarks false true ((s.next c t).marks t)) = Role.of c t ∨
      c = '-' ∧ collapseMarks false true ((s.next c t).marks t) = ['-'] := by
  have open_ : opensLineComment c t = false ∧ opensBlockComment c t = false := by
    refine ScanState.role_of_no_comment code fun comment => ?_
    simp [Mark.isGap, comment] at inked
  by_cases slash : c = '/'
  · subst slash
    left
    have plain : Role.of '/' t = .plain := by simp [Role.of, open_, isQuote]
    have other (r : Text) (star : r.head? ≠ some '*') : Role.of '/' r = .plain := by
      simp [Role.of, opensLineComment, opensBlockComment, star, isQuote]
    have stays : s.next '/' t = s := by simp [ScanState.next, code, plain]
    rw [plain, stays]
    refine other _ fun star => ?_
    obtain ⟨t', rfl, -⟩ := head?_collapseMarks_inked star (by decide)
    simp [opensBlockComment] at open_
  by_cases dash : c = '-'
  · subst dash
    have plain : Role.of '-' t = .plain := by simp [Role.of, open_, isQuote]
    have first : s.next '-' t = s := by simp [ScanState.next, code, plain]
    have other (r : Text) (line : opensLineComment '-' r = false) : Role.of '-' r = .plain := by
      simp [Role.of, line, opensBlockComment, isQuote]
    rw [plain, first]
    by_cases line : opensLineComment '-' (collapseMarks false true (s.marks t)) = false
    · exact .inl (other _ line)
    right
    rw [opensLineComment_dash, Bool.not_eq_false, Bool.and_eq_true, beq_iff_eq] at line
    obtain ⟨t₁, rfl, ink⟩ := head?_collapseMarks_inked line.1 (by decide)
    rw [ScanState.marks, collapseMarks, if_neg (by simp [ink])] at line ⊢
    simp only [Bool.false_and, Bool.false_eq_true, if_false, ScanState.mark_char, List.tail_cons] at line ⊢
    refine ⟨trivial, ?_⟩
    cases t₁ with
    | nil => rfl
    | cons x t' =>
      have apart : isBlank x = false := by
        have closed := open_.1
        rw [opensLineComment_dash] at closed
        simpa using closed
      have free : (s.mark '-' (x :: t')).kind ≠ .comment := by
        intro comment
        simp [Mark.isGap, comment] at ink
      have role := ScanState.role_of_no_comment code free
      have stays : s.next '-' (x :: t') = s := by
        simp [ScanState.next, code, Role.of, role, isQuote]
      rw [stays] at line ⊢
      by_cases isGap : (s.mark x t').isGap
      · have comment : (s.mark x t').kind = .comment := by
          simpa [Mark.isGap, apart] using isGap
        rw [collapseMarks_of_gaps (comment_of_dashes comment (dashes x t' rfl first stays comment))]
      · rw [ScanState.marks, collapseMarks, if_neg isGap] at line
        simp [apart] at line
  · left
    rw [Role.of, Role.of]
    have hash : opensLineComment c t = opensLineComment c (collapseMarks false true ((s.next c t).marks t)) := by
      by_cases hash : c = '#'
      · rw [hash]; rfl
      · rw [opensLineComment_other hash dash, opensLineComment_other hash dash]
    have star (r : Text) : opensBlockComment c r = false := by simp [opensBlockComment, slash]
    rw [← hash, star, star]

theorem Woven.eq_of_dashes (woven : Woven w s t u) (dashes : ∀ a ∈ t, a = '-') : u = t := by
  induction woven with
  | nil => rfl
  | @char s c d t u same _ _ ih =>
    have here := dashes c (by simp)
    have there := (eq_iff_of_sameLetter (w.letter same) (by decide)).mp here
    rw [here, there, ih fun a member => dashes a (by simp [member])]
  | literal =>
    have quote := dashes '\'' (by simp [QueryChain.literal])
    exact absurd quote (by decide)

theorem collapseMarks_literal {b : Text} (inert : Inert b) (code : s.mode = .code) (t : Text) :
    collapseMarks gap inner (s.marks (literal b ++ t)) =
      (if gap && inner then [' '] else []) ++ (literal b ++ collapseMarks false true (s.marks t)) := by
  have quoted (x : Text) : collapseMarks false true (x.map (fun a => (⟨a, s.depth, .quoted⟩ : Mark)) ++ s.marks t) =
      x ++ collapseMarks false true (s.marks t) := by
    induction x with
    | nil => rfl
    | cons a x ih => simpa [collapseMarks, Mark.isGap] using ih
  rw [marks_literal inert code, literal, List.map_cons, List.cons_append, collapseMarks, quoted]
  cases gap <;> cases inner <;> simp [Mark.isGap]

theorem Woven.space_append (woven : Woven w s t u) (code : gap → s.mode = .code) :
    Woven w s ((if gap && inner then [' '] else []) ++ t) ((if gap && inner then [' '] else []) ++ u) := by
  split
  · rename_i both
    rw [Bool.and_eq_true] at both
    refine woven.plain_append (code both.1) fun a member => ?_
    obtain rfl := List.mem_singleton.mp member
    decide
  · exact woven

theorem collapseMarks_ink {m : Mark} {ms : Marks} (ink : m.isGap = false) :
    collapseMarks gap inner (m :: ms) = (if gap && inner then [' '] else []) ++ m.char :: collapseMarks false true ms := by
  rw [collapseMarks, ink]
  cases gap <;> cases inner <;> rfl

theorem code_of_gap (no : s.NoComment) (isGap : (s.mark c t).isGap) (ink : (s.mark c t).kind ≠ .comment) :
    s.mode = .code ∧ s.next c t = s := by
  have blank : (s.mark c t).kind = .code ∧ isBlank c := by simpa [Mark.isGap, ink] using isGap
  have mode : s.mode = .code := by
    rcases no with code | ⟨q, escaped, quote⟩
    · exact code
    · have quoted : (s.mark c t).kind = .quoted := by rw [ScanState.mark, quote]
      rw [quoted] at blank
      cases blank.1
  exact ⟨mode, s.next_plain mode c t (isPlain_of_isBlank c blank.2)⟩

/-- Collapsing keeps what is woven. Of comments there are none but dashes at the end, which are dropped;
    dashes in front of them may come to open a comment, but one that nothing follows. -/
theorem Woven.collapse_quiet (quiet : w.quiet) (woven : Woven w s t u) (proper : s.Proper) (no : s.NoComment)
    (code : gap → s.mode = .code) :
    Woven w s (collapseMarks gap inner (s.marks t)) (collapseMarks gap inner (s.marks u)) := by
  induction woven generalizing gap inner with
  | nil s => exact .nil s
  | @char s c d t u same dashes rest ih =>
    have whole : Woven w s (c :: t) (d :: u) := .char same dashes rest
    by_cases comment : (s.mark c t).kind = .comment
    · have all := dashes quiet comment
      rw [whole.eq_of_dashes all, collapseMarks_of_gaps (comment_of_dashes comment all)]
      exact .nil s
    have later : (s.next c t).NoComment := no.next comment
    have equal := foldsMarks_isGap.mark same s t
    rw [rest.marks_cons proper same, ScanState.marks]
    by_cases isGap : (s.mark c t).isGap
    · obtain ⟨mode, stays⟩ := code_of_gap no isGap comment
      rw [collapseMarks, collapseMarks, equal, if_pos isGap, if_pos isGap]
      rw [stays] at ih ⊢
      exact ih proper no fun _ => mode
    · have ink : (s.mark c t).isGap = false := by simpa using isGap
      rw [collapseMarks_ink ink, collapseMarks_ink (equal.trans ink), ScanState.mark_char]
      refine Woven.space_append ?_ code
      have kept : Woven w (s.next c t) (collapseMarks false true ((s.next c t).marks t))
          (collapseMarks false true ((s.next c t).marks u)) := ih (proper.next c t) later (by simp)
      by_cases mode : s.mode = .code
      · have dashed (x : Char) (t' : Text) (text : t = '-' :: x :: t') (first : s.next c t = s)
            (second : s.next '-' (x :: t') = s) (open_ : (s.mark x t').kind = .comment) : ∀ a ∈ x :: t', a = '-' := by
          subst text
          rw [first] at rest
          generalize behind : '-' :: x :: t' = v at rest
          cases rest with
          | nil => cases behind
          | char _ _ rest =>
            cases behind
            rw [second] at rest
            exact rest.dashes_head quiet open_
          | literal => cases behind
        rcases role_collapse mode ink dashed with role | ⟨rfl, single⟩
        · obtain ⟨mark, next⟩ := mark_of_role (s := s) role
          refine .char same (fun _ open_ => ?_) (by rwa [next])
          rw [mark] at open_
          exact absurd open_ comment
        · rw [single] at kept ⊢
          have bare : w.Bare ['-', '-'] (d :: collapseMarks false true ((s.next '-' t).marks u)) :=
            .cons same (kept.bare_short (.inr rfl))
          exact bare.woven_dashes (by simp)
      · obtain ⟨mark, next⟩ := ScanState.rest_indifferent mode c (collapseMarks false true ((s.next c t).marks t)) t
        refine .char same (fun _ open_ => ?_) (by rwa [next])
        rw [mark] at open_
        exact absurd open_ comment
  | @literal s t u _ mode _ ih =>
    rw [collapseMarks_literal w.inert mode, collapseMarks_literal w.inert' mode]
    have kept : Woven w s (collapseMarks false true (s.marks t)) (collapseMarks false true (s.marks u)) :=
      ih proper no (by simp)
    exact (Woven.literal quiet mode kept).space_append code

theorem Woven.collapse_loud (loud : ¬w.quiet) (woven : Woven w s t u) (proper : s.Proper) :
    w.Bare (collapseMarks gap inner (s.marks t)) (collapseMarks gap inner (s.marks u)) := by
  induction woven generalizing gap inner with
  | nil s => exact .nil
  | @char s c d t u same dashes rest ih =>
    have equal := foldsMarks_isGap.mark same s t
    rw [rest.marks_cons proper same, ScanState.marks]
    by_cases isGap : (s.mark c t).isGap
    · rw [collapseMarks, collapseMarks, equal, if_pos isGap, if_pos isGap]
      exact ih (proper.next c t)
    · have ink : (s.mark c t).isGap = false := by simpa using isGap
      rw [collapseMarks_ink ink, collapseMarks_ink (equal.trans ink), ScanState.mark_char]
      have kept : w.Bare (c :: collapseMarks false true ((s.next c t).marks t))
          (d :: collapseMarks false true ((s.next c t).marks u)) := .cons same (ih (proper.next c t))
      split
      · exact .cons (w.refl ' ') kept
      · exact kept
  | literal quiet => exact absurd quiet loud

theorem Woven.collapse (woven : Woven w {} t u) : Woven w {} (collapse t) (collapse u) := by
  by_cases quiet : w.quiet
  · exact woven.collapse_quiet quiet proper_start (.inl rfl) (by simp)
  · exact (woven.collapse_loud quiet proper_start).woven quiet

end Collapse
section Strays

variable {w : Weave} {s : ScanState} {b b' : Option Char} {t u : Text} {k : Keyword}

theorem Woven.dropSemicolons (woven : Woven w {} t u) : Woven w {} (dropSemicolons t) (dropSemicolons u) :=
  woven.dropEndWhile ((folds_beq (by decide)).or folds_isBlank) (by decide)

theorem Woven.endsCondition_eq (woven : Woven w {} t u) : endsCondition t = endsCondition u := by
  have closing : (t.head? == some ')') = (u.head? == some ')') := by
    rw [Bool.eq_iff_iff, beq_iff_eq, beq_iff_eq]
    exact woven.head_iff (by decide)
  have keyword {ks : List Keyword} (areKeywords : ∀ k ∈ ks, IsKeyword k) :
      (ks.any fun k => QueryChain.startsWithKeyword k t) = ks.any fun k => QueryChain.startsWithKeyword k u := by
    rw [Bool.eq_iff_iff, List.any_eq_true, List.any_eq_true]
    refine exists_congr fun k => and_congr_right fun member => ?_
    rw [woven.startsWithKeyword (areKeywords k member)]
  rw [endsCondition, endsCondition, woven.isEmpty_eq, closing, keyword (by decide)]

/-- Where something is open no keyword stands, but for the line feed that ends a comment. -/
theorem keyword?_outside (isKeyword : IsKeyword k) (other : s.mode ≠ .code) (b : Option Char)
    (code : (⟨b, s.marks t⟩ : Cursor).inCode) : Cursor.keyword? ⟨b, s.marks t⟩ k = none := by
  cases t with
  | nil => cases code
  | cons c t =>
    have isCode : (s.mark c t).isCode := code
    have feed : c = '\n' := by
      by_contra letter
      exact other (s.mode_of_code c t letter isCode)
    exact keyword?_feed isKeyword b (by rw [ScanState.mark_char, feed]) _

theorem Woven.inCode_eq (woven : Woven w s t u) (proper : s.Proper) :
    (⟨b, s.marks t⟩ : Cursor).inCode = (⟨b', s.marks u⟩ : Cursor).inCode := by
  cases woven with
  | nil => rfl
  | char same dashes rest =>
    rw [rest.marks_cons proper same]
    rfl
  | @literal _ t u quiet code rest =>
    obtain ⟨ms, left⟩ := marks_literal_cons w.inert code t
    obtain ⟨ns, right⟩ := marks_literal_cons w.inert' code u
    rw [left, right]
    rfl

theorem rel_strayAt? (before : b.any isWordChar = b'.any isWordChar) (proper : s.Proper) (woven : Woven w s t u) :
    Option.Rel (Woven w {}) (strayAt? ⟨b, s.marks t⟩) (strayAt? ⟨b', s.marks u⟩) := by
  have none (c : Cursor) (nothing : c.inCode → c.keyword? ["AND", "NULL"] = none) : strayAt? c = none := by
    rw [strayAt?]
    cases code : c.inCode with
    | false => rfl
    | true =>
      rw [nothing code]
      rfl
  by_cases code : s.mode = .code
  · have behind := rel_keyword? isKeyword_andNull (.mk before code woven)
    have inCode : (⟨b, s.marks t⟩ : Cursor).inCode = (⟨b', s.marks u⟩ : Cursor).inCode := woven.inCode_eq proper
    rw [strayAt?, strayAt?, inCode]
    generalize Cursor.keyword? ⟨b, s.marks t⟩ ["AND", "NULL"] = left at behind
    generalize Cursor.keyword? ⟨b', s.marks u⟩ ["AND", "NULL"] = right at behind
    by_cases isCode : (⟨b', s.marks u⟩ : Cursor).inCode
    · rw [isCode]
      cases behind with
      | none => exact .none
      | @some c d aligned =>
        have rest : Woven w {} (trimStart c.text) (trimStart d.text) := aligned.text.trimStart rfl
        have ends := rest.endsCondition_eq
        dsimp only [Option.bind_eq_bind, Option.bind_some, guard]
        rw [ends]
        by_cases stop : endsCondition (trimStart d.text)
        · rw [stop]
          exact .some rest
        · rw [Bool.not_eq_true] at stop
          rw [stop]
          exact .none
    · rw [Bool.not_eq_true] at isCode
      rw [isCode]
      exact .none
  · rw [none _ (keyword?_outside isKeyword_andNull code b), none _ (keyword?_outside isKeyword_andNull code b')]
    exact .none

theorem strayAt?_quoted (b : Option Char) (a : Char) (n : Nat) (ms : Marks) :
    strayAt? ⟨b, ⟨a, n, .quoted⟩ :: ms⟩ = none := rfl

theorem rel_seek_strayAt? (woven : Woven w {} t u) :
    Option.Rel (fun r r' => Woven w {} r.1 r'.1 ∧ Woven w {} r.2 r'.2) ((Cursor.start t).seek strayAt?)
      ((Cursor.start u).seek strayAt?) :=
  rel_imp (woven.seekFrom (R := Woven w {}) strayAt? rel_strayAt? strayAt?_quoted
    (show none.any isWordChar = none.any isWordChar from rfl) proper_start) fun _ _ ⟨passed, behind, _⟩ => ⟨passed, behind⟩

def StrayLast (t : Text) : Prop := ∀ r, (Cursor.start t).seek strayAt? = some r → r.2 = []

theorem Woven.strayLast (woven : Woven w {} t u) (last : StrayLast t) : StrayLast u := by
  intro r' found'
  have found := rel_seek_strayAt? woven
  rw [found'] at found
  generalize left : (Cursor.start t).seek strayAt? = o at found
  cases found with
  | some related => exact related.2.nil_iff.mp (last _ left)

/-- Where the literal may stand, a stray is to end the text: what stands behind it would move up to what
    stands before it, and dashes there might open a comment. -/
theorem Woven.dropStrayNull (woven : Woven w {} t u) (last : w.quiet → StrayLast t) :
    Woven w {} (dropStrayNull t) (dropStrayNull u) := by
  have found := rel_seek_strayAt? woven
  have unfolded (t : Text) : QueryChain.dropStrayNull t = (((Cursor.start t).seek strayAt?).map fun found =>
      QueryChain.trimEnd found.1 ++ spaceBefore found.2 ++ found.2).getD t := rfl
  rw [unfolded, unfolded]
  generalize left : (Cursor.start t).seek strayAt? = o at found ⊢
  generalize (Cursor.start u).seek strayAt? = o' at found ⊢
  cases found with
  | none => exact woven
  | @some r r' related =>
    obtain ⟨head, rest⟩ := r
    obtain ⟨head', rest'⟩ := r'
    obtain ⟨passed, behind⟩ := related
    dsimp only [Option.map_some, Option.getD_some]
    by_cases quiet : w.quiet
    · obtain rfl : rest = [] := last quiet _ left
      obtain rfl : rest' = [] := behind.nil_iff.mp rfl
      simp only [show spaceBefore [] = [] from rfl, List.append_nil]
      exact passed.trimEnd
    · have closing : (rest.head? == some ')') = (rest'.head? == some ')') := by
        rw [Bool.eq_iff_iff, beq_iff_eq, beq_iff_eq]
        exact behind.head_iff (by decide)
      have space : spaceBefore rest = spaceBefore rest' := by
        rw [spaceBefore, spaceBefore, behind.isEmpty_eq, closing]
      have same (x : Text) : w.Bare x x := List.forall₂_same.mpr fun c _ => w.refl c
      have bare : w.Bare (QueryChain.trimEnd head ++ spaceBefore rest ++ rest)
          (QueryChain.trimEnd head' ++ spaceBefore rest' ++ rest') := by
        rw [space]
        exact List.rel_append (List.rel_append (passed.trimEnd.bare quiet) (same _)) (behind.bare quiet)
      exact bare.woven quiet

end Strays
section NormalForm

variable {w : Weave} {t u : Text}

def Excerpt (t : Text) : Prop := ∃ sql b e, IsNormal sql ∧ Region sql b e ∧ t = slice b e sql

theorem Excerpt.collapse (excerpt : Excerpt t) : Excerpt (collapse t) := by
  obtain ⟨sql, b, e, normal, region, rfl⟩ := excerpt
  obtain ⟨e', -, region', same⟩ := region.collapse_eq normal
  exact ⟨sql, b, e', normal, region', same⟩

theorem Excerpt.dropSemicolons (excerpt : Excerpt t) : Excerpt (dropSemicolons t) := by
  obtain ⟨sql, b, e, normal, region, rfl⟩ := excerpt
  obtain ⟨e', -, region', same⟩ := region.dropSemicolons_eq
  exact ⟨sql, b, e', normal, region', same⟩

theorem Excerpt.cleanUp (excerpt : Excerpt t) : Excerpt (cleanUp t) := by
  obtain ⟨sql, b, e, normal, region, rfl⟩ := excerpt
  obtain ⟨e', -, region', same⟩ := region.cleanUp_eq normal
  exact ⟨sql, b, e', normal, region', same⟩

/-- A stray that ends no part of a statement would have been one of the statement. -/
theorem Excerpt.strayLast (excerpt : Excerpt t) : StrayLast t := by
  intro r found
  obtain ⟨sql, b, e, normal, region, rfl⟩ := excerpt
  obtain ⟨head, rest⟩ := r
  obtain ⟨i, inText, answer, -, -⟩ := Cursor.seek_eq_some_iff.mp found
  rw [← cursorAt_zero, skip_cursorAt, Nat.zero_add] at answer
  rw [← cursorAt_zero, marks_cursorAt, List.drop_zero, length_scan] at inText
  obtain ⟨j, stray, rfl⟩ := (strayAt?_cursorAt (Nat.le_of_lt inText)).mp answer
  by_contra followed
  exact dropStrayNull?_eq_none normal.noStray _ _ (stray.of_region region normal.commentFree followed)

theorem Woven.cleanUp (woven : Woven w {} t u)
    (last : w.quiet → StrayLast (QueryChain.dropSemicolons (QueryChain.collapse t))) : Woven w {} (cleanUp t) (cleanUp u) :=
  woven.collapse.dropSemicolons.dropStrayNull last

/-- A part of a statement in normal form, but for what a weave may change of it. -/
def Steady (t : Text) : Prop := ∃ w t₀, Excerpt t₀ ∧ Woven w {} t₀ t

def Weave.still : Weave where
  body := []
  body' := []
  inert := inert_nil
  inert' := inert_nil
  same := Eq
  refl _ := rfl
  letter := @sameLetter_of_eq
  quiet := False

theorem Woven.still (t : Text) : Woven .still {} t t :=
  Weave.Bare.woven (w := .still) (List.forall₂_same.mpr fun _ _ => rfl) not_false

theorem Excerpt.steady (excerpt : Excerpt t) : Steady t := ⟨.still, t, excerpt, .still t⟩

theorem Steady.cleanUp (steady : Steady t) : Steady (cleanUp t) := by
  obtain ⟨w, t₀, excerpt, woven⟩ := steady
  exact ⟨w, _, excerpt.cleanUp, woven.cleanUp fun _ => excerpt.collapse.dropSemicolons.strayLast⟩

theorem Steady.strayLast (steady : Steady t) : StrayLast (dropSemicolons (collapse t)) := by
  obtain ⟨w, t₀, excerpt, woven⟩ := steady
  exact woven.collapse.dropSemicolons.strayLast excerpt.collapse.dropSemicolons.strayLast

/-- Texts that differ in letter case or a literal only have normal forms that do. -/
theorem Woven.normalize (woven : Woven w {} t u) (steady : w.quiet → Steady t) :
    Woven w {} (normalize t) (normalize u) := by
  have passes (n : Nat) : Woven w {} (QueryChain.cleanUp^[n] t) (QueryChain.cleanUp^[n] u) := by
    induction n generalizing t u with
    | zero => exact woven
    | succ n ih =>
      exact ih (woven.cleanUp fun quiet => (steady quiet).strayLast) fun quiet => (steady quiet).cleanUp
  obtain ⟨m, -, left⟩ := iterate_cleanUp t
  obtain ⟨n, -, right⟩ := iterate_cleanUp u
  rw [← left (max m n) (Nat.le_max_left m n), ← right (max m n) (Nat.le_max_right m n)]
  exact passes (max m n)

end NormalForm
end QueryChain
