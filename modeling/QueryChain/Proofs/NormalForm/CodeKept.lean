import QueryChain.Proofs.Scan.Calm
import QueryChain.Proofs.Scan.Grammar
import QueryChain.Proofs.NormalForm.Neat
import QueryChain.Proofs.NormalForm.Stray

namespace QueryChain

def inkMarks (t : Text) : Marks := (scan t).filter (!·.isGap)

def partedInk (gap inner : Bool) : Marks → List (Bool × Mark)
  | [] => []
  | m :: ms => if m.isGap then partedInk true inner ms else (gap && inner, m) :: partedInk false true ms

theorem ink_of_parted (gap inner : Bool) (ms : Marks) : (partedInk gap inner ms).map Prod.snd = ms.filter (!·.isGap) := by
  induction ms generalizing gap inner with
  | nil => rfl
  | cons m ms ih =>
    rw [partedInk]
    by_cases isGap : m.isGap
    · rw [if_pos isGap, ih, List.filter_cons_of_neg (by simp [isGap])]
    · rw [if_neg isGap, List.map_cons, ih, List.filter_cons_of_pos (by simp [isGap])]

def ScanState.calmed (s : ScanState) : ScanState :=
  match s.mode with
  | .code | .quote _ _ => s
  | .lineComment | .opener | .blockComment _ => { s with mode := .code }

section Collapse

variable {s : ScanState} {c : Char} {t : Text} {gap inner : Bool}

theorem ScanState.NoComment.calmed (no : s.NoComment) : s.calmed = s := by
  rcases no with code | ⟨q, escaped, quote⟩
  · rw [ScanState.calmed, code]
  · rw [ScanState.calmed, quote]

/-- Gaps lead on to code at the same depth, whatever opens and closes in them. -/
theorem calmed_of_gap (isGap : (s.mark c t).isGap) : s.calmed.mode = .code ∧ (s.next c t).calmed = s.calmed := by
  obtain ⟨mode, depth⟩ := s
  cases mode with
  | code =>
    refine ⟨rfl, ?_⟩
    rw [ScanState.mark] at isGap
    rw [ScanState.next]
    cases role : Role.of c t with
    | opening =>
      have isOpening := char_of_opening role
      rw [role] at isGap
      have blank : isBlank c := by simpa [Mark.isGap] using isGap
      rw [isOpening] at blank
      exact absurd blank (by decide)
    | closing =>
      have isClosing := char_of_closing role
      rw [role] at isGap
      have blank : isBlank c := by simpa [Mark.isGap] using isGap
      rw [isClosing] at blank
      exact absurd blank (by decide)
    | lineComment => rfl
    | blockComment => rfl
    | plain => rfl
    | quote => simp [role, Mark.isGap] at isGap
  | quote q escaped => simp [ScanState.mark, Mark.isGap] at isGap
  | lineComment =>
    refine ⟨rfl, ?_⟩
    simp only [ScanState.next]
    split <;> rfl
  | opener => exact ⟨rfl, rfl⟩
  | blockComment star =>
    refine ⟨rfl, ?_⟩
    simp only [ScanState.next]
    split <;> rfl

theorem noComment_of_ink (ink : (s.mark c t).isGap = false) : s.NoComment ∧ (s.mark c t).kind ≠ .comment := by
  constructor
  · obtain ⟨mode, depth⟩ := s
    cases mode with
    | code => exact .inl rfl
    | quote q escaped => exact .inr ⟨q, escaped, rfl⟩
    | lineComment =>
      by_cases feed : c = '\n'
      · subst feed
        have blank : isBlank '\n' := by decide
        simp [ScanState.mark, Mark.isGap, blank] at ink
      · simp [ScanState.mark, Mark.isGap, feed] at ink
    | opener => simp [ScanState.mark, Mark.isGap] at ink
    | blockComment star => simp [ScanState.mark, Mark.isGap] at ink
  · intro comment
    simp [Mark.isGap, comment] at ink

/-- Scanned anew, a collapsed text in which no comment opens says what was said before, parted in the
    same places. -/
theorem calm_collapse (t : Text) (gap inner : Bool) {s : ScanState} (start : gap → s.calmed.mode = .code) :
    partedInk false inner (s.calmed.calmMarks (collapseMarks gap inner (s.marks t))) = partedInk gap inner (s.marks t) ∧
    (∀ m ∈ s.calmed.calmMarks (collapseMarks gap inner (s.marks t)), m.kind ≠ .comment ∧ (m.isGap → m.char = ' ')) ∧
    s.calmed.calmRun (collapseMarks gap inner (s.marks t)) = (s.run t).calmed ∧
    (FaultFree s t → s.calmed.Opens (collapseMarks gap inner (s.marks t))) := by
  induction t generalizing s gap inner with
  | nil => exact ⟨rfl, by simp [ScanState.marks, collapseMarks, ScanState.calmMarks], rfl, fun _ => trivial⟩
  | cons c t ih =>
    rw [ScanState.marks, ScanState.run, collapseMarks, partedInk]
    cases ink : (s.mark c t).isGap with
    | true =>
      obtain ⟨code, next⟩ := calmed_of_gap ink
      have later := ih true inner (s := s.next c t) fun _ => by rw [next, code]
      rw [next] at later
      simp only [if_true]
      exact ⟨later.1, later.2.1, later.2.2.1, fun free => later.2.2.2 free.2.2⟩
    | false =>
      obtain ⟨no, free⟩ := noComment_of_ink ink
      obtain ⟨mark, next⟩ := ScanState.calm_of_free free
      have later := ih false true (s := s.next c t) (by simp)
      rw [(no.next free).calmed] at later
      rw [ScanState.mark_char, no.calmed]
      rw [no.calmed] at start
      rw [if_neg Bool.false_ne_true, if_neg Bool.false_ne_true]
      generalize collapseMarks false true ((s.next c t).marks t) = u at later ⊢
      have here (parted : Bool) : partedInk parted inner (s.calmMarks (c :: u)) =
          (parted && inner, s.mark c t) :: partedInk false true ((s.next c t).marks t) := by
        rw [ScanState.calmMarks, ← mark, ← next, partedInk, ink, if_neg Bool.false_ne_true, later.1]
      have rest : (∀ m ∈ s.calmMarks (c :: u), m.kind ≠ .comment ∧ (m.isGap → m.char = ' ')) ∧
          s.calmRun (c :: u) = ((s.next c t).run t).calmed ∧ (FaultFree s (c :: t) → s.Opens (c :: u)) := by
        rw [ScanState.calmMarks, ScanState.calmRun, ScanState.Opens, ← mark, ← next]
        exact ⟨List.forall_mem_cons.mpr ⟨⟨free, by simp [ink]⟩, later.2.1⟩, later.2.2.1,
          fun faultFree => ⟨faultFree.1, later.2.2.2 faultFree.2.2⟩⟩
      by_cases parted : gap && inner
      · have flags : gap ∧ inner := Bool.and_eq_true_iff.mp parted
        have code := start flags.1
        obtain ⟨marks, run, opens⟩ := ScanState.calm_plain code (t := [' ']) (by decide)
        have apart : ' ' :: c :: u = [' '] ++ c :: u := rfl
        rw [if_pos parted, apart, ScanState.calmMarks_append, ScanState.calmRun_append, ScanState.opens_append, marks, run]
        have space : (⟨' ', s.depth, .code⟩ : Mark).isGap := by
          simp [Mark.isGap]
          decide
        refine ⟨?_, List.forall_mem_cons.mpr ⟨by simp, rest.1⟩, rest.2.1, fun faultFree => ⟨opens, rest.2.2 faultFree⟩⟩
        rw [List.map_cons, List.map_nil, List.singleton_append, partedInk, if_pos space, here, parted,
          flags.2, Bool.true_and]
      · rw [if_neg parted, here, Bool.eq_false_of_not_eq_true parted, Bool.false_and]
        exact ⟨rfl, rest⟩

end Collapse

/-- What is left of a text, however its words are parted, without semicolons at the end and without an
    `AND NULL` where a condition ends. -/
inductive Cleared : Text → Text → Prop
  | same (t : Text) : Cleared t t
  | respaced {t u v : Text} (parted : partedInk false false (scan t) = partedInk false false (scan u))
      (later : Cleared u v) : Cleared t v
  | semicolons {t semis v : Text} {ms : Marks} (cut : scan (t ++ semis) = scan t ++ ms)
      (all : ∀ m ∈ ms, m.isGap ∨ m.isCode ∧ m.char = ';') (later : Cleared t v) : Cleared (t ++ semis) v
  | strayNull {t v : Text} {i j : Nat} (stray : StrayNull t i j)
      (kept : inkMarks (withoutStray t i j) = ((scan t).take i ++ (scan t).drop j).filter (!·.isGap))
      (later : Cleared (withoutStray t i j) v) : Cleared t v

/-- The other text says what the first one does but for semicolons and stray words. -/
structure KeepsCode (raw t : Text) : Prop where
  balanced : Balanced t
  noComment : CommentFree t
  placeholders : placeholders t = placeholders raw
  quoted : (scan t).filter (·.kind == .quoted) = (scan raw).filter (·.kind == .quoted)
  cleared : Cleared raw t

instance (t : Text) : Decidable (CommentFree t) := by unfold CommentFree; infer_instance

/-- No clean-up opens a comment. -/
inductive Quiet : Text → Prop
  | settled {t : Text} (fixed : cleanUp t = t) : Quiet t
  | step {t : Text} (collapsed : CommentFree (collapse t)) (shortened : CommentFree (dropSemicolons (collapse t)))
      (cleaned : CommentFree (cleanUp t)) (later : Quiet (cleanUp t)) : Quiet t

section Passes

theorem FaultFree.last {s : ScanState} {t : Text} (free : FaultFree s t) :
    ((s.run t).mode = .code ∨ (s.run t).mode = .lineComment) ∧ (s.run t).depth = 0 := by
  induction t generalizing s with
  | nil => exact free
  | cons c t ih => exact ih free.2.2

variable {s : ScanState} {t u : Text}

theorem ink_of_blanks {blanks : Text} (depth : Nat) (blank : ∀ c ∈ blanks, isBlank c) :
    (blanks.map (⟨·, depth, .code⟩ : Char → Mark)).filter (!·.isGap) = [] := by
  rw [List.filter_eq_nil_iff]
  intro m member
  obtain ⟨c, inBlanks, rfl⟩ := List.mem_map.mp member
  simp [Mark.isGap, blank c inBlanks]

theorem inkMarks_calm (free : CommentFree t) :
    inkMarks t = (({} : ScanState).calmMarks t).filter (!·.isGap) := by
  rw [inkMarks, free.scan_calm]

theorem solid_collapse (balanced : Balanced t) (free : CommentFree (collapse t)) :
    Solid (collapse t) ∧ partedInk false false (scan t) = partedInk false false (scan (collapse t)) := by
  have faultFree := (balanced_iff_faultFree t).mp balanced
  obtain ⟨ink, -, run, opens⟩ := calm_collapse t false false (s := {}) (by simp)
  have start : ({} : ScanState).calmed = {} := rfl
  have last : (({} : ScanState).run t).calmed = {} := by
    have last := faultFree.last
    generalize ({} : ScanState).run t = e at last
    obtain ⟨mode, depth⟩ := e
    obtain ⟨rfl | rfl, rfl⟩ := last <;> rfl
  rw [start] at ink run opens
  rw [last] at run
  refine ⟨solid_iff_calm.mpr ⟨free, opens faultFree, run⟩, ?_⟩
  rw [free.scan_calm]
  exact ink.symm

theorem quoting_calm (quoting : s.Quoting) (free : ∀ m ∈ s.calmMarks t, m.kind ≠ .comment) : (s.calmRun t).Quoting := by
  induction t generalizing s with
  | nil => exact quoting
  | cons c t ih =>
    exact ih (quoting.next (free _ (by simp [ScanState.calmMarks]))) fun m member =>
      free m (by simp [ScanState.calmMarks, member])

theorem code_of_plain_behind {b : Text} (quoting : s.Quoting) (plain : ∀ c ∈ b, isPlain c)
    (code : (s.calmRun b).mode = .code) : s.mode = .code := by
  induction b generalizing s with
  | nil => exact code
  | cons c b ih =>
    have here := plain c (by simp)
    rcases quoting with now | ⟨q, escaped, quote, isQ⟩
    · exact now
    · have other : c ≠ q := by
        rintro rfl
        rw [isPlain, isQ] at here
        simp at here
      have still : (s.next c []).mode ≠ .code := by
        rw [ScanState.next, quote]
        cases escaped with
        | true => simp
        | false =>
          simp only [other, if_false]
          split
          · simp
          · rw [quote]
            simp
      have quoted : (s.next c []).Quoting := by
        refine ScanState.Quoting.next (.inr ⟨q, escaped, quote, isQ⟩) ?_
        rw [ScanState.mark, quote]
        simp
      exact absurd (ih quoted (fun d member => plain d (by simp [member])) code) still

/-- The blanks and letters between two parts of a complete text can be taken out, or a space put in,
    if code stands between the parts. -/
theorem solid_cut {front between mid rest : Text} (solid : Solid (front ++ (between ++ rest)))
    (plain : ∀ c ∈ between, isPlain c) (code : (({} : ScanState).calmRun front).mode = .code)
    (plainMid : ∀ c ∈ mid, isPlain c ∧ isBlank c) (free : CommentFree (front ++ (mid ++ rest))) :
    Solid (front ++ (mid ++ rest)) ∧
      inkMarks (front ++ (mid ++ rest)) = (({} : ScanState).calmMarks front).filter (!·.isGap) ++
        ((({} : ScanState).calmRun front).calmMarks rest).filter (!·.isGap) := by
  obtain ⟨-, opens, run⟩ := solid_iff_calm.mp solid
  obtain ⟨-, stays, -⟩ := ScanState.calm_plain code plain
  obtain ⟨marksMid, staysMid, opensMid⟩ := ScanState.calm_plain code fun c member => (plainMid c member).1
  rw [ScanState.opens_append, ScanState.opens_append, stays] at opens
  rw [ScanState.calmRun_append, ScanState.calmRun_append, stays] at run
  refine ⟨solid_iff_calm.mpr ⟨free, ?_, ?_⟩, ?_⟩
  · rw [ScanState.opens_append, ScanState.opens_append, staysMid]
    exact ⟨opens.1, opensMid, opens.2.2⟩
  · rw [ScanState.calmRun_append, ScanState.calmRun_append, staysMid, run]
  · rw [inkMarks_calm free, ScanState.calmMarks_append, ScanState.calmMarks_append, marksMid, staysMid,
      List.filter_append, List.filter_append, ink_of_blanks _ fun c member => (plainMid c member).2, List.nil_append]

theorem quoting_front {front back : Text} (free : CommentFree (front ++ back)) :
    (({} : ScanState).calmRun front).Quoting := by
  refine quoting_calm (.inl rfl) fun m member => ?_
  have all := free
  rw [CommentFree, free.scan_calm, ScanState.calmMarks_append] at all
  exact all m (List.mem_append_left _ member)

theorem dropSemicolons_parts (t : Text) : ∃ back, t = dropSemicolons t ++ back ∧ (∀ c ∈ back, c = ';' ∨ isBlank c) ∧
    ∀ c ∈ back, isPlain c := by
  have parts := dropEndWhile_append_takeWhile (fun c => c == ';' || isBlank c) t
  rw [← dropSemicolons] at parts
  generalize backEq : (t.reverse.takeWhile fun c => c == ';' || isBlank c).reverse = back at parts
  have chars : ∀ c ∈ back, c = ';' ∨ isBlank c := by
    intro c member
    rw [← backEq, List.mem_reverse] at member
    simpa using List.mem_takeWhile_imp member
  refine ⟨back, parts.symm, chars, fun c member => ?_⟩
  rcases chars c member with rfl | blank
  · rfl
  · exact isPlain_of_isBlank c blank

theorem dropSemicolons_pieces (solid : Solid t) : ∃ back, t = dropSemicolons t ++ back ∧
    (∀ c ∈ back, c = ';' ∨ isBlank c) ∧ (∀ c ∈ back, isPlain c) ∧
    (({} : ScanState).calmRun (dropSemicolons t)).mode = .code := by
  obtain ⟨back, parts, chars, plain⟩ := dropSemicolons_parts t
  refine ⟨back, parts, chars, plain, ?_⟩
  rw [parts] at solid
  refine code_of_plain_behind (quoting_front solid.commentFree) plain ?_
  have run := (solid_iff_calm.mp solid).2.2
  rw [ScanState.calmRun_append] at run
  rw [run]

/-- Cutting semicolons off the end leaves a text complete. -/
theorem solid_dropSemicolons (solid : Solid t) (free : CommentFree (dropSemicolons t)) :
    Solid (dropSemicolons t) ∧ ∀ v, Cleared (dropSemicolons t) v → Cleared t v := by
  obtain ⟨back, parts, chars, plain, code⟩ := dropSemicolons_pieces solid
  generalize dropSemicolons t = u at parts free code ⊢
  subst parts
  have whole : u ++ (back ++ []) = u ++ back := by rw [List.append_nil]
  have stay : u ++ ([] ++ []) = u := by simp
  obtain ⟨shorter, -⟩ := solid_cut (whole.symm ▸ solid) plain code (by simp : ∀ c ∈ ([] : Text), isPlain c ∧ isBlank c)
    (stay.symm ▸ free)
  rw [stay] at shorter
  have cut : scan (u ++ back) = scan u ++ back.map (⟨·, (({} : ScanState).calmRun u).depth, .code⟩) := by
    rw [solid.commentFree.scan_calm, free.scan_calm, ScanState.calmMarks_append, (ScanState.calm_plain code plain).1]
  refine ⟨shorter, fun v later => .semicolons cut (fun m member => ?_) later⟩
  obtain ⟨c, inBack, rfl⟩ := List.mem_map.mp member
  rcases chars c inBack with rfl | blank
  · exact .inr ⟨rfl, rfl⟩
  · exact .inl (by simp [Mark.isGap, blank])

/-- In front of the first letter of a stray the text is code. -/
theorem Strays.calm_front {front word more : Text} (strays : Strays t front word more) (free : CommentFree t) :
    (({} : ScanState).calmRun front).mode = .code := by
  obtain ⟨rfl, ⟨m, here, isCode⟩, spells, -, -, -⟩ := strays
  obtain ⟨c, first, letter⟩ := spells.head? isKeyword_andNull
  obtain ⟨w, rfl⟩ := List.head?_eq_some_iff.mp first
  have length : (({} : ScanState).calmMarks front).length = front.length := by
    have chars := congrArg List.length (ScanState.markText_calmMarks {} front)
    simpa [markText] using chars
  rw [free.scan_calm, ScanState.calmMarks_append, List.getElem?_append_right (by omega), length, Nat.sub_self] at here
  obtain rfl : (({} : ScanState).calmRun front).mark c [] = m := by simpa [ScanState.calmMarks] using here
  refine ScanState.mode_of_code _ c [] ?_ isCode
  rintro rfl
  cases letter

/-- A stray with the blanks around it, and what is left without them. -/
theorem StrayNull.parts {i j : Nat} (stray : StrayNull t i j) : ∃ first before word behind rest,
    t = first ++ ((before ++ word ++ behind) ++ rest) ∧ (first ++ before).length = i ∧ (first ++ before ++ word).length = j ∧
    withoutStray t i j = first ++ (spaceBefore rest ++ rest) ∧ (∀ c ∈ before, isBlank c) ∧ (∀ c ∈ behind, isBlank c) ∧
    Spells ["AND", "NULL"] word ∧ (∀ c ∈ before ++ word ++ behind, isPlain c) := by
  have whole := take_append_slice stray.le (l := t)
  have bound := stray.bound
  have le := stray.le
  have front := dropEndWhile_append_takeWhile isBlank (t.take i)
  have more := List.takeWhile_append_dropWhile (p := isBlank) (l := t.drop j)
  rw [← trimEnd] at front
  rw [← trimStart] at more
  have blankBefore : ∀ c ∈ ((t.take i).reverse.takeWhile isBlank).reverse, isBlank c := fun c member =>
    List.mem_takeWhile_imp (List.mem_reverse.mp member)
  have text : t = trimEnd (t.take i) ++ ((((t.take i).reverse.takeWhile isBlank).reverse ++ slice i j t ++
      (t.drop j).takeWhile isBlank) ++ trimStart (t.drop j)) := by
    rw [List.append_assoc, List.append_assoc, more, ← List.append_assoc, front, ← List.append_assoc, whole,
      List.take_append_drop]
  have blankBehind : ∀ c ∈ (t.drop j).takeWhile isBlank, isBlank c := fun c member => List.mem_takeWhile_imp member
  refine ⟨_, _, _, _, _, text, ?_, ?_, List.append_assoc _ _ _, blankBefore, blankBehind, stray.spells, ?_⟩
  · rw [front, List.length_take]
    omega
  · rw [front, whole, List.length_take]
    omega
  · intro c member
    rw [List.mem_append, List.mem_append] at member
    rcases member with (inBefore | inWord) | inBehind
    · exact isPlain_of_isBlank c (blankBefore c inBefore)
    · exact stray.spells.isPlain isKeyword_andNull c inWord
    · exact isPlain_of_isBlank c (blankBehind c inBehind)

theorem StrayNull.pieces {i j : Nat} (stray : StrayNull t i j) (free : CommentFree t) : ∃ first before word behind rest,
    t = first ++ ((before ++ word ++ behind) ++ rest) ∧ (first ++ before).length = i ∧ (first ++ before ++ word).length = j ∧
    withoutStray t i j = first ++ (spaceBefore rest ++ rest) ∧ (∀ c ∈ before, isBlank c) ∧ (∀ c ∈ behind, isBlank c) ∧
    Spells ["AND", "NULL"] word ∧ (∀ c ∈ before ++ word ++ behind, isPlain c) ∧
    (({} : ScanState).calmRun first).mode = .code := by
  obtain ⟨first, before, word, behind, rest, text, start, stop, without, blankBefore, blankBehind, spells, plain⟩ :=
    stray.parts
  refine ⟨first, before, word, behind, rest, text, start, stop, without, blankBefore, blankBehind, spells, plain, ?_⟩
  have code := stray.strays.calm_front free
  have front : t.take i = first ++ before := by
    rw [text, ← start, List.append_assoc, List.append_assoc, ← List.append_assoc]
    exact List.take_left
  rw [front, ScanState.calmRun_append] at code
  rw [text] at free
  exact code_of_plain_behind (quoting_front free) (fun c member => isPlain_of_isBlank c (blankBefore c member)) code

theorem isBlank_spaceBefore {rest : Text} : ∀ c ∈ spaceBefore rest, isPlain c ∧ isBlank c := by
  intro c member
  rw [spaceBefore] at member
  split at member
  · cases member
  · obtain rfl : c = ' ' := by simpa using member
    exact ⟨rfl, by decide⟩

theorem solid_withoutStray {i j : Nat} (solid : Solid t) (stray : StrayNull t i j)
    (free : CommentFree (withoutStray t i j)) :
    Solid (withoutStray t i j) ∧
      inkMarks (withoutStray t i j) = ((scan t).take i ++ (scan t).drop j).filter (!·.isGap) := by
  obtain ⟨first, before, word, behind, rest, rfl, start, stop, without, blankBefore, blankBehind, spells, plainAll, code⟩ :=
    stray.pieces solid.commentFree
  have marks := solid.commentFree.scan_calm
  rw [ScanState.calmMarks_append, ScanState.calmMarks_append] at marks
  obtain ⟨flat, stays, -⟩ := ScanState.calm_plain code plainAll
  rw [flat, stays, List.map_append, List.map_append] at marks
  rw [without] at free ⊢
  obtain ⟨shorter, kept⟩ := solid_cut solid plainAll code isBlank_spaceBefore free
  have size : (({} : ScanState).calmMarks first).length = first.length := by
    have chars := congrArg List.length (ScanState.markText_calmMarks {} first)
    simpa [markText] using chars
  refine ⟨shorter, ?_⟩
  generalize (({} : ScanState).calmRun first).depth = depth at marks
  have upTo : (scan (first ++ ((before ++ word ++ behind) ++ rest))).take i =
      ({} : ScanState).calmMarks first ++ before.map (⟨·, depth, .code⟩) := by
    rw [marks, List.append_assoc, List.append_assoc, ← List.append_assoc]
    exact List.take_left' (by simpa [size] using start)
  have from_ : (scan (first ++ ((before ++ word ++ behind) ++ rest))).drop j =
      behind.map (⟨·, depth, .code⟩) ++ (({} : ScanState).calmRun first).calmMarks rest := by
    rw [marks, List.append_assoc, ← List.append_assoc]
    exact List.drop_left' (by simpa [size] using stop)
  rw [kept, upTo, from_, List.filter_append, List.filter_append, List.filter_append, ink_of_blanks depth blankBefore,
    ink_of_blanks depth blankBehind, List.append_nil, List.nil_append]

theorem solid_dropStrayNull (solid : Solid t) (free : CommentFree (dropStrayNull t)) :
    Solid (dropStrayNull t) ∧ ∀ v, Cleared (dropStrayNull t) v → Cleared t v := by
  rw [dropStrayNull] at free ⊢
  cases dropped : dropStrayNull? t with
  | none => exact ⟨solid, fun _ later => later⟩
  | some u =>
    rw [dropped, Option.getD_some] at free
    obtain ⟨i, j, stray, -, rfl⟩ := dropStrayNull?_eq_some_iff.mp dropped
    obtain ⟨shorter, kept⟩ := solid_withoutStray solid stray free
    exact ⟨shorter, fun v later => .strayNull stray kept later⟩

theorem solid_cleanUp (balanced : Balanced t) (collapsed : CommentFree (collapse t))
    (shortened : CommentFree (dropSemicolons (collapse t))) (cleaned : CommentFree (cleanUp t)) :
    Solid (cleanUp t) ∧ ∀ v, Cleared (cleanUp t) v → Cleared t v := by
  obtain ⟨first, parted⟩ := solid_collapse balanced collapsed
  obtain ⟨second, semicolons⟩ := solid_dropSemicolons first shortened
  obtain ⟨third, stray⟩ := solid_dropStrayNull second cleaned
  exact ⟨third, fun v later => .respaced parted (semicolons v (stray v later))⟩

theorem cleared_normalize (balanced : Balanced t) (quiet : Quiet t) : Balanced (normalize t) ∧ Cleared t (normalize t) := by
  induction quiet with
  | @settled t fixed =>
    rw [normalize, if_pos fixed]
    exact ⟨balanced, .same _⟩
  | @step t collapsed shortened cleaned later ih =>
    obtain ⟨solid, kept⟩ := solid_cleanUp balanced collapsed shortened cleaned
    obtain ⟨balancedLater, clearedLater⟩ := ih solid.balanced
    rw [normalize]
    split
    · exact ⟨balanced, .same _⟩
    · exact ⟨balancedLater, kept _ clearedLater⟩

end Passes
section Cleared

variable {t u : Text} {i j : Nat}

/-- The letters of a stray are code. -/
theorem StrayNull.flat (stray : StrayNull t i j) : ∃ depth, slice i j (scan t) = (slice i j t).map (⟨·, depth, .code⟩) := by
  have plain := stray.spells.isPlain isKeyword_andNull
  have bound := stray.bound
  have le := stray.le
  obtain ⟨m, here, isCode⟩ := stray.code
  obtain ⟨c, first, letter⟩ := stray.spells.head? isKeyword_andNull
  have inText := stray.lt
  have at_ : t.drop i = slice i j t ++ t.drop j := (slice_append_drop le bound).symm
  obtain ⟨d, rest, text⟩ := exists_cons_of_lt inText
  have mark := mark_at text
  rw [here] at mark
  obtain rfl : c = d := by
    rw [text] at at_
    have head := congrArg List.head? at_
    rw [List.head?_append, first] at head
    simpa using head.symm
  have code : (stateAt t i).mode = .code := by
    refine ScanState.mode_of_code _ c rest ?_ (Option.some.inj mark ▸ isCode)
    rintro rfl
    cases letter
  refine ⟨(stateAt t i).depth, ?_⟩
  rw [slice_eq_take_drop, drop_scan, at_, marks_plain code plain]
  exact List.take_left' (by rw [List.length_map, length_slice bound])

/-- Neither semicolons nor stray words are quoted, and no placeholder is among them. -/
theorem Cleared.filter_eq {p : Mark → Bool} (cleared : Cleared t u) (written : ∀ m, p m → m.isGap = false)
    (semicolon : ∀ depth, p ⟨';', depth, .code⟩ = false)
    (letter : ∀ c depth, isKeywordChar c → p ⟨c, depth, .code⟩ = false) :
    (scan t).filter p = (scan u).filter p := by
  have ink (ms : Marks) : (ms.filter (!·.isGap)).filter p = ms.filter p := by
    rw [List.filter_filter]
    refine List.filter_congr fun m _ => ?_
    cases here : p m with
    | false => rfl
    | true => simp [written m here]
  induction cleared with
  | same => rfl
  | @respaced t u v parted later ih =>
    have same := congrArg (List.map Prod.snd) parted
    rw [ink_of_parted, ink_of_parted] at same
    rw [← ih, ← ink, same, ink]
  | @semicolons t semis v ms cut all later ih =>
    have gone : ms.filter p = [] := by
      rw [List.filter_eq_nil_iff]
      rintro ⟨c, depth, kind⟩ member
      rcases all _ member with gap | ⟨code, rfl⟩
      · exact fun holds => by simp [written _ holds] at gap
      · obtain rfl := of_decide_eq_true code
        simp [semicolon depth]
    rw [cut, List.filter_append, gone, List.append_nil, ih]
  | @strayNull t v i j stray kept later ih =>
    have gone : (slice i j (scan t)).filter p = [] := by
      obtain ⟨depth, flat⟩ := stray.flat
      rw [flat, List.filter_eq_nil_iff]
      intro m member
      obtain ⟨c, inWord, rfl⟩ := List.mem_map.mp member
      rcases stray.spells.chars isKeyword_andNull c inWord with blank | isLetter
      · exact fun holds => by simpa [Mark.isGap, blank] using written _ holds
      · simp [letter c depth isLetter]
    have parts : scan t = (scan t).take i ++ slice i j (scan t) ++ (scan t).drop j := by
      rw [take_append_slice stray.le, List.take_append_drop]
    rw [← ih, ← ink (scan (withoutStray t i j)), ← inkMarks, kept, ink]
    conv_lhs => rw [parts]
    rw [List.filter_append, List.filter_append, gone, List.append_nil, List.filter_append]

end Cleared

/-- Normalization loses no code of a balanced text, as long as no clean-up opens a comment. -/
theorem normalize_keeps_code {raw : Text} (balanced : Balanced raw) (quiet : Quiet raw) :
    KeepsCode raw (normalize raw) := by
  obtain ⟨still, cleared⟩ := cleared_normalize balanced quiet
  refine ⟨still, (isNormal_normalize raw).commentFree, ?_, ?_, cleared⟩
  · have same := cleared.filter_eq (p := Mark.isPlaceholder) (fun m placeholder => ?_) (fun _ => rfl)
      fun c depth letter => ?_
    · rw [placeholders, placeholders, List.countP_eq_length_filter, List.countP_eq_length_filter, same]
    · obtain ⟨c, depth, kind⟩ := m
      simp only [Mark.isPlaceholder, Mark.isCode, Bool.and_eq_true, beq_iff_eq] at placeholder
      obtain ⟨rfl, rfl⟩ := placeholder
      rfl
    · rw [Mark.isPlaceholder, Bool.and_eq_false_iff]
      refine .inr (beq_eq_false_iff_ne.mpr ?_)
      rintro rfl
      cases letter
  · refine (cleared.filter_eq (fun m quoted => ?_) (fun _ => rfl) fun _ _ _ => rfl).symm
    obtain ⟨c, depth, kind⟩ := m
    obtain rfl := of_decide_eq_true quoted
    rfl

theorem normalize_keeps_code_noted :
    let raw := "SELECT a /* ?; */ FROM t WHERE b = 'x  ;?' AND  null -- c\nORDER BY a-? ;".toList
    Balanced raw ∧ Quiet raw ∧ KeepsCode raw (normalize raw) := by
  have chars : "SELECT a /* ?; */ FROM t WHERE b = 'x  ;?' AND  null -- c\nORDER BY a-? ;".toList = _ :=
    String.toList_ofList
  have balanced : Balanced "SELECT a /* ?; */ FROM t WHERE b = 'x  ;?' AND  null -- c\nORDER BY a-? ;".toList := by
    rw [chars]
    decide +kernel
  have quiet : Quiet "SELECT a /* ?; */ FROM t WHERE b = 'x  ;?' AND  null -- c\nORDER BY a-? ;".toList := by
    rw [chars]
    exact .step (by decide +kernel) (by decide +kernel) (by decide +kernel) (.settled (by decide +kernel))
  exact ⟨balanced, quiet, normalize_keeps_code balanced quiet⟩

/-- Two dashes open a comment themselves once the comment behind them has become a space. -/
example : normalize "a = 1--/**/2 AND b = 3" = "a = 1" := by decide +kernel

end QueryChain
