import QueryChain.Proofs.NormalForm.Collapse

namespace QueryChain

def Mark.isDash (m : Mark) : Bool := m.isCode && m.char == '-'

def Mark.holds (m : Mark) : Bool := !m.isGap && m.char != ';' && m.char.toUpper != 'A'

/-- Two dashes side by side in code stand right in front of something written that is neither a semicolon
    nor the first letter of an `AND`. -/
def DashesHeld (t : Text) : Prop :=
  ∀ i < t.length, (scan t)[i]?.any Mark.isDash → (scan t)[i + 1]?.any Mark.isDash → (scan t)[i + 2]?.any Mark.holds

instance (t : Text) : Decidable (DashesHeld t) := by unfold DashesHeld; infer_instance

-- What holds of two neighbours that nothing parts, in front of what is behind them.
def FirmPair (a b : Mark) (behind : List (Bool × Mark)) : Prop :=
  (a.isCode → a.char = '/' → b.char ≠ '*') ∧
    (a.isDash → b.isDash → ∃ m more, behind = (false, m) :: more ∧ m.holds)

def Firm : List (Bool × Mark) → Prop
  | [] => True
  | [_] => True
  | (_, a) :: (parted, b) :: ws => (parted = false → FirmPair a b ws) ∧ Firm ((parted, b) :: ws)

section Firm

variable {s : ScanState} {c : Char} {t u : Text} {p gap inner : Bool} {a m : Mark} {ms ns : Marks}
  {w : Bool × Mark} {ws vs more : List (Bool × Mark)}

theorem Firm.tail (firm : Firm (w :: ws)) : Firm ws := by
  cases ws with
  | nil => trivial
  | cons v ws => exact firm.2

theorem Firm.cons (pair : ∀ b vs, ws = (false, b) :: vs → FirmPair a b vs) (firm : Firm ws) : Firm ((p, a) :: ws) := by
  cases ws with
  | nil => trivial
  | cons v ws =>
    obtain ⟨parted, b⟩ := v
    exact ⟨fun near => pair b ws (by rw [near]), firm⟩

theorem partedInk_gap (ms : Marks) : ∀ w ∈ (partedInk true true ms).head?, w.1 = true := by
  induction ms with
  | nil => simp [partedInk]
  | cons m ms ih =>
    rw [partedInk]
    split
    · exact ih
    · simp

theorem ink_of_mem {v : Bool × Mark} (member : v ∈ partedInk gap inner ms) : v.2 ∈ ms ∧ v.2.isGap = false := by
  have listed : v.2 ∈ (partedInk gap inner ms).map Prod.snd := List.mem_map_of_mem member
  rw [ink_of_parted] at listed
  simpa using List.mem_filter.mp listed

theorem partedInk_blanks {blanks : Text} (depth : Nat) (blank : ∀ c ∈ blanks, isBlank c) (gap inner : Bool) :
    partedInk gap inner (blanks.map (⟨·, depth, .code⟩)) = [] := by
  have none := ink_of_parted gap inner (blanks.map (⟨·, depth, .code⟩))
  rwa [ink_of_blanks depth blank, List.map_eq_nil_iff] at none

theorem opens_of_kind (code : s.mode = .code) (comment : (s.mark c t).kind = .comment) :
    opensLineComment c t ∨ opensBlockComment c t := by
  by_contra none
  rw [not_or, Bool.not_eq_true, Bool.not_eq_true] at none
  rw [ScanState.mark, code] at comment
  simp only [Role.of, none.1, none.2, Bool.false_eq_true, if_false] at comment
  split_ifs at comment

theorem kind_of_opens (code : s.mode = .code) (opens : opensLineComment c t ∨ opensBlockComment c t) :
    (s.mark c t).kind = .comment := by
  by_contra free
  obtain ⟨line, block⟩ := ScanState.role_of_no_comment code free
  rw [line, block] at opens
  simp at opens

theorem firm_marks (s : ScanState) (gap inner : Bool) (t : Text) (held : ∀ i < t.length, (s.marks t)[i]?.any Mark.isDash →
    (s.marks t)[i + 1]?.any Mark.isDash → (s.marks t)[i + 2]?.any Mark.holds) : Firm (partedInk gap inner (s.marks t)) := by
  induction t generalizing s gap inner with
  | nil => trivial
  | cons c t ih =>
    have later (gap inner : Bool) : Firm (partedInk gap inner ((s.next c t).marks t)) :=
      ih (s.next c t) gap inner fun i inText => by simpa [ScanState.marks] using held (i + 1) (by simpa using inText)
    rw [ScanState.marks, partedInk]
    split
    · exact later true inner
    · refine Firm.cons (fun b vs near => ?_) (later false true)
      have first := held 0 (by simp)
      cases t with
      | nil => simp [ScanState.marks, partedInk] at near
      | cons d t =>
        rw [ScanState.marks, partedInk] at near
        split at near
        · have far := partedInk_gap (((s.next c (d :: t)).next d t).marks t)
          rw [near] at far
          simpa using far _ rfl
        · obtain ⟨⟨-, rfl⟩, rfl⟩ := by simpa using near
          refine ⟨fun code slash => ?_, fun dash again => ?_⟩
          · rintro star
            rw [ScanState.mark_char] at slash star
            subst slash star
            have mode := s.mode_of_code '/' ('*' :: t) (by decide) code
            rw [Mark.isCode, kind_of_opens mode (.inr rfl)] at code
            cases code
          · obtain ⟨m, third, holds⟩ := (Option.any_eq_true _ _).mp (first (by simpa [ScanState.marks] using dash)
              (by simpa [ScanState.marks] using again))
            have third : (((s.next c (d :: t)).next d t).marks t)[0]? = some m := by simpa [ScanState.marks] using third
            obtain ⟨ms, marks⟩ := List.head?_eq_some_iff.mp (List.head?_eq_getElem? ▸ third)
            have ink : m.isGap = false := by
              rw [Mark.holds, Bool.and_eq_true, Bool.and_eq_true] at holds
              simpa using holds.1.1
            rw [marks, partedInk, if_neg (by simp [ink])]
            exact ⟨m, _, rfl, holds⟩

theorem firm_scan (held : DashesHeld t) : Firm (partedInk false false (scan t)) := firm_marks {} false false t held

theorem Firm.not_opens (code : s.mode = .code) (firm : Firm (partedInk gap inner (s.calmMarks (c :: t))))
    (noHash : c ≠ '#') : ¬(opensLineComment c t ∨ opensBlockComment c t) := by
  have flat {d : Char} (role : Role.of d [] = .plain) : s.mark d [] = ⟨d, s.depth, .code⟩ ∧ s.next d [] = s := by
    rw [ScanState.mark, ScanState.next, code, role]
    exact ⟨rfl, rfl⟩
  have ink {d : Char} (full : isBlank d = false) : ¬(⟨d, s.depth, .code⟩ : Mark).isGap := by simp [Mark.isGap, full]
  rintro (line | block)
  · rw [opensLineComment_eq, Bool.or_eq_true, Bool.and_eq_true, Bool.and_eq_true, beq_iff_eq, beq_iff_eq,
      beq_iff_eq] at line
    obtain ⟨⟨rfl, again⟩, end_⟩ := line.resolve_left noHash
    obtain ⟨t, rfl⟩ := List.head?_eq_some_iff.mp again
    obtain ⟨mark, next⟩ := flat (d := '-') (by decide)
    rw [ScanState.calmMarks, ScanState.calmMarks, next, mark, partedInk, if_neg (ink (by decide)), partedInk,
      if_neg (ink (by decide))] at firm
    obtain ⟨m, more, behind, -⟩ := (firm.1 rfl).2 rfl rfl
    cases t with
    | nil => cases behind
    | cons b t =>
      rw [next, ScanState.calmMarks, s.mark_plain code b [] (isPlain_of_isBlank b end_), partedInk,
        if_pos (by simpa [Mark.isGap] using end_)] at behind
      have far := partedInk_gap ((s.next b []).calmMarks t)
      rw [behind] at far
      simpa using far _ rfl
  · rw [opensBlockComment, Bool.and_eq_true, beq_iff_eq, beq_iff_eq] at block
    obtain ⟨rfl, star⟩ := block
    obtain ⟨t, rfl⟩ := List.head?_eq_some_iff.mp star
    obtain ⟨slash, next⟩ := flat (d := '/') (by decide)
    rw [ScanState.calmMarks, ScanState.calmMarks, next, slash, (flat (d := '*') (by decide)).1, partedInk,
      if_neg (ink (by decide)), partedInk, if_neg (ink (by decide))] at firm
    exact (firm.1 rfl).1 rfl rfl rfl

theorem free_of_firm (no : s.NoComment) (calm : ∀ m ∈ s.calmMarks t, m.kind ≠ .comment)
    (firm : Firm (partedInk gap inner (s.calmMarks t))) : ∀ m ∈ s.marks t, m.kind ≠ .comment := by
  induction t generalizing s gap inner with
  | nil => simp [ScanState.marks]
  | cons c t ih =>
    obtain ⟨here, rest⟩ := List.forall_mem_cons.mp calm
    have free : (s.mark c t).kind ≠ .comment := by
      rcases no with code | ⟨q, escaped, quote⟩
      · intro comment
        refine firm.not_opens code ?_ (opens_of_kind code comment)
        rintro rfl
        exact here (by rw [ScanState.mark, code]; rfl)
      · rw [ScanState.mark, quote]
        simp
    have next := (ScanState.calm_of_free free).2
    rw [ScanState.calmMarks] at firm
    rw [← next] at rest firm
    refine List.forall_mem_cons.mpr ⟨free, ?_⟩
    rw [partedInk] at firm
    split at firm
    · exact ih (no.next free) rest firm
    · exact ih (no.next free) rest firm.tail

theorem Firm.left (firm : Firm (ws ++ vs)) (semicolons : ∀ v ∈ vs, v.2.char = ';') : Firm ws := by
  induction ws with
  | nil => trivial
  | cons w ws ih =>
    obtain ⟨p, a⟩ := w
    refine .cons ?_ (ih firm.tail)
    rintro b more rfl
    obtain ⟨slash, dashes⟩ := firm.1 rfl
    refine ⟨slash, fun dash again => ?_⟩
    obtain ⟨m, rest, behind, holds⟩ := dashes dash again
    cases more with
    | nil =>
      have inRest : (false, m) ∈ vs := (show vs = (false, m) :: rest from behind) ▸ List.mem_cons_self
      have semicolon : m.char = ';' := semicolons _ inRest
      simp [Mark.holds, semicolon] at holds
    | cons w more =>
      obtain ⟨rfl, -⟩ := List.cons.inj behind
      exact ⟨m, more, rfl, holds⟩

theorem Firm.right (firm : Firm (ws ++ vs)) : Firm vs := by
  induction ws with
  | nil => exact firm
  | cons w ws ih => exact ih firm.tail

theorem Firm.restart {p' : Bool} (firm : Firm ((p, a) :: ws)) : Firm ((p', a) :: ws) := by
  cases ws with
  | nil => trivial
  | cons w ws => exact firm

theorem Firm.replace (firm : Firm (ws ++ (p, m) :: more)) (letter : m.char.toUpper = 'A') (back : Firm vs)
    (joint : ws ≠ [] → ∀ b us, vs = (false, b) :: us → b.char = ')') : Firm (ws ++ vs) := by
  induction ws with
  | nil => exact back
  | cons w ws ih =>
    obtain ⟨q, a⟩ := w
    refine .cons (fun b us near => ?_) (ih firm.tail fun _ => joint (by simp))
    cases ws with
    | nil =>
      have closing := joint (by simp) b us near
      refine ⟨fun _ _ => by rw [closing]; decide, fun _ dash => ?_⟩
      rw [Mark.isDash, closing] at dash
      simp at dash
    | cons w ws =>
      obtain ⟨rfl, rfl⟩ := List.cons.inj near
      obtain ⟨slash, dashes⟩ := firm.1 rfl
      refine ⟨slash, fun dash again => ?_⟩
      obtain ⟨m', rest, behind, holds⟩ := dashes dash again
      cases ws with
      | nil =>
        obtain ⟨same, -⟩ := List.cons.inj behind
        obtain ⟨-, rfl⟩ := Prod.mk.inj same
        simp [Mark.holds, letter] at holds
      | cons w ws =>
        obtain ⟨rfl, -⟩ := List.cons.inj behind
        exact ⟨m', _, rfl, holds⟩

theorem partedInk_start (gap inner gap' inner' : Bool) (ms : Marks) :
    (partedInk gap inner ms = [] ∧ partedInk gap' inner' ms = []) ∨ ∃ p p' m rest,
      partedInk gap inner ms = (p, m) :: rest ∧ partedInk gap' inner' ms = (p', m) :: rest := by
  induction ms generalizing gap gap' with
  | nil => exact .inl ⟨rfl, rfl⟩
  | cons m ms ih =>
    rw [partedInk, partedInk]
    split
    · exact ih true true
    · exact .inr ⟨_, _, m, _, rfl, rfl⟩

theorem Firm.start {gap' inner' : Bool} (firm : Firm (partedInk gap inner ms)) : Firm (partedInk gap' inner' ms) := by
  rcases partedInk_start gap inner gap' inner' ms with ⟨-, none⟩ | ⟨p, p', m, rest, before, now⟩
  · rw [none]
    trivial
  · rw [before] at firm
    rw [now]
    exact firm.restart

end Firm
section Passes

variable {t : Text} {i j : Nat}

theorem firm_collapse (balanced : Balanced t) (firm : Firm (partedInk false false (scan t))) :
    CommentFree (collapse t) ∧ Firm (partedInk false false (scan (collapse t))) := by
  obtain ⟨parted, calm, -, -⟩ := calm_collapse t false false (s := {}) (by simp)
  rw [show ({} : ScanState).calmed = {} from rfl, ← scan, ← collapse] at parted calm
  have free : CommentFree (collapse t) := free_of_firm (.inl rfl) (fun m member => (calm m member).1) (parted.symm ▸ firm)
  refine ⟨free, ?_⟩
  rwa [← (solid_collapse balanced free).2]

theorem firm_dropSemicolons (solid : Solid t) (firm : Firm (partedInk false false (scan t))) :
    CommentFree (dropSemicolons t) ∧ Firm (partedInk false false (scan (dropSemicolons t))) := by
  obtain ⟨back, parts, chars, plain, code⟩ := dropSemicolons_pieces solid
  have calm := solid.commentFree
  rw [CommentFree, solid.commentFree.scan_calm] at calm
  rw [solid.commentFree.scan_calm] at firm
  generalize dropSemicolons t = u at parts code ⊢
  rw [parts, ScanState.calmMarks_append] at calm firm
  rw [partedInk_append] at firm
  rw [(ScanState.calm_plain code plain).1] at firm
  have shorter := firm.left fun v member => by
    obtain ⟨inBack, ink⟩ := ink_of_mem member
    obtain ⟨c, member, same⟩ := List.mem_map.mp inBack
    rw [← same] at ink ⊢
    refine (chars c member).resolve_right fun blank => ?_
    simp [Mark.isGap, blank] at ink
  have free : CommentFree u := free_of_firm (.inl rfl) (fun m member => calm m (List.mem_append_left _ member)) shorter
  exact ⟨free, free.scan_calm ▸ shorter⟩

theorem closing_of_spaceBefore {s : ScanState} {rest : Text} {gap : Bool} {b : Mark} {us : List (Bool × Mark)}
    (code : s.mode = .code) (near : partedInk gap true ((spaceBefore rest).map (⟨·, s.depth, .code⟩) ++ s.calmMarks rest) =
      (false, b) :: us) : b.char = ')' := by
  rw [spaceBefore] at near
  split at near
  · rename_i bare
    cases rest with
    | nil => cases near
    | cons c rest =>
      obtain rfl : c = ')' := by simpa using bare
      have closing : (s.mark ')' []).isGap = false := by
        rw [ScanState.mark, code, role_closing]
        rfl
      rw [List.map_nil, List.nil_append, ScanState.calmMarks, partedInk, closing, if_neg Bool.false_ne_true] at near
      obtain ⟨near, -⟩ := List.cons.inj near
      rw [← (Prod.mk.inj near).2, ScanState.mark_char]
  · have far := partedInk_gap (s.calmMarks rest)
    have space : isBlank ' ' := by decide
    rw [show (" " : Text) = [' '] from rfl, List.map_cons, List.map_nil, List.singleton_append, partedInk,
      if_pos (by simp [Mark.isGap, space])] at near
    rw [near] at far
    simpa using far _ rfl

theorem firm_withoutStray (free : CommentFree t) (stray : StrayNull t i j) (firm : Firm (partedInk false false (scan t))) :
    CommentFree (withoutStray t i j) ∧ Firm (partedInk false false (scan (withoutStray t i j))) := by
  obtain ⟨first, before, word, behind, rest, rfl, -, -, without, blankBefore, blankBehind, spells, plain, code⟩ :=
    stray.pieces free
  have calm := free
  obtain ⟨flat, stays, -⟩ := ScanState.calm_plain code plain
  rw [CommentFree, free.scan_calm, ScanState.calmMarks_append, ScanState.calmMarks_append, flat, stays] at calm
  rw [free.scan_calm, ScanState.calmMarks_append, ScanState.calmMarks_append, flat, stays, partedInk_append,
    List.map_append, List.map_append, List.append_assoc, List.append_assoc, partedInk_append _ _ (before.map _),
    partedInk_blanks _ blankBefore, List.nil_append, partedInk_append _ _ (word.map _)] at firm
  obtain ⟨mid, stay, -⟩ := ScanState.calm_plain code fun c (member : c ∈ spaceBefore rest) =>
    (isBlank_spaceBefore c member).1
  have marks : ({} : ScanState).calmMarks (first ++ (spaceBefore rest ++ rest)) = ({} : ScanState).calmMarks first ++
      ((spaceBefore rest).map (⟨·, (({} : ScanState).calmRun first).depth, .code⟩) ++
        (({} : ScanState).calmRun first).calmMarks rest) := by
    rw [ScanState.calmMarks_append, ScanState.calmMarks_append, mid, stay]
  -- the word starts with the letter that holds no dashes
  obtain ⟨l, c, isFirst, head, -, same⟩ := spells.first_letter isKeyword_andNull
  obtain ⟨word, rfl⟩ := List.head?_eq_some_iff.mp head
  have letter : c.toUpper = 'A' := by
    obtain rfl : 'A' = l := Option.some.inj isFirst
    exact (beq_iff_eq.mp same).symm
  obtain ⟨d, again, isLetter⟩ := spells.head? isKeyword_andNull
  obtain rfl : c = d := Option.some.inj again
  have ink := isBlank_of_isKeywordChar c isLetter
  rw [List.map_cons, partedInk, if_neg (by simp [Mark.isGap, ink]), List.cons_append] at firm
  have back := firm.right.tail.right
  rw [partedInk_append, partedInk_blanks _ blankBehind, List.nil_append] at back
  have shorter : Firm (partedInk false false (({} : ScanState).calmMarks (first ++ (spaceBefore rest ++ rest)))) := by
    rw [marks, partedInk_append]
    refine firm.replace letter ?_ fun some_ b us near => ?_
    · rw [partedInk_append, partedInk_blanks _ fun c member => (isBlank_spaceBefore c member).2, List.nil_append]
      exact back.start
    · have inFront : (({} : ScanState).calmMarks first).any (!·.isGap) := by
        obtain ⟨w, member⟩ := List.exists_mem_of_ne_nil _ some_
        obtain ⟨inMarks, isInk⟩ := ink_of_mem member
        exact List.any_eq_true.mpr ⟨w.2, inMarks, by simp [isInk]⟩
      rw [inFront, Bool.or_true] at near
      exact closing_of_spaceBefore code near
  have kept : CommentFree (first ++ (spaceBefore rest ++ rest)) := by
    refine free_of_firm (.inl rfl) (fun m member => ?_) shorter
    rw [marks] at member
    rcases List.mem_append.mp member with inFirst | inBack
    · exact calm m (List.mem_append_left _ inFirst)
    · rcases List.mem_append.mp inBack with inMid | inRest
      · obtain ⟨c, -, rfl⟩ := List.mem_map.mp inMid
        simp
      · exact calm m (List.mem_append_right _ (List.mem_append_right _ inRest))
  rw [without]
  exact ⟨kept, kept.scan_calm ▸ shorter⟩

theorem quiet_of_firm (balanced : Balanced t) (firm : Firm (partedInk false false (scan t))) : Quiet t := by
  induction t using normalize.induct with
  | case1 t fixed => exact .settled fixed
  | case2 t changed ih =>
    obtain ⟨collapsed, first⟩ := firm_collapse balanced firm
    obtain ⟨solid, -⟩ := solid_collapse balanced collapsed
    obtain ⟨shortened, second⟩ := firm_dropSemicolons solid first
    obtain ⟨shorter, -⟩ := solid_dropSemicolons solid shortened
    have third : CommentFree (cleanUp t) ∧ Firm (partedInk false false (scan (cleanUp t))) := by
      rw [cleanUp, dropStrayNull]
      cases dropped : dropStrayNull? (dropSemicolons (collapse t)) with
      | none => exact ⟨shortened, second⟩
      | some u =>
        obtain ⟨i, j, stray, -, rfl⟩ := dropStrayNull?_eq_some_iff.mp dropped
        exact firm_withoutStray shortened stray second
    have clean := (solid_cleanUp balanced collapsed shortened third.1).1
    exact .step collapsed shortened third.1 (ih clean.balanced third.2)

/-- No clean-up opens a comment where all dashes are held in the text as it was given. -/
theorem quiet_of_dashesHeld (balanced : Balanced t) (held : DashesHeld t) : Quiet t :=
  quiet_of_firm balanced (firm_scan held)

example : DashesHeld "SELECT a - -b, c--d FROM t -- e--\nWHERE f = '--' AND NULL;" := by decide +kernel

end Passes
end QueryChain
