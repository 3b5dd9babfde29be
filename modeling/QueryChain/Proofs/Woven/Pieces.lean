import QueryChain.Proofs.Scan.Grammar
import QueryChain.Proofs.Woven.Words

namespace QueryChain

section Pieces

variable {w : Weave} {s : ScanState} {c d x : Char} {t u : Text} {f : Mark → Bool}

theorem foldsMarks_isTopOf (other : x.isAlpha = false) : FoldsMarks (Mark.isTopOf x) := by
  intro m d same
  have equal : (m.char == x) = (d == x) := folds_beq other m.char d same
  simp only [Mark.isTopOf, Mark.isTop, Mark.isCode]
  rw [equal]

theorem foldsMarks_isTopBlank : FoldsMarks Mark.isTopBlank := by
  intro m d same
  have equal := folds_isBlank m.char d same
  simp only [Mark.isTopBlank, Mark.isTop, Mark.isCode]
  rw [equal]

theorem FoldsMarks.not (folds : FoldsMarks f) : FoldsMarks (!f ·) := fun m d same => by dsimp only; rw [folds m d same]

theorem forall₂_filter {α β : Type} {R : α → β → Prop} {p : α → Bool} {q : β → Bool} {l : List α} {m : List β}
    (related : List.Forall₂ R l m) (same : ∀ a b, R a b → p a = q b) : List.Forall₂ R (l.filter p) (m.filter q) := by
  induction related with
  | nil => exact .nil
  | cons r _ ih =>
    rw [List.filter_cons, List.filter_cons, same _ _ r]
    split
    · exact .cons r ih
    · exact ih

theorem forall₂_dropEndWhile {α β : Type} {R : α → β → Prop} {p : α → Bool} {q : β → Bool} {l : List α} {m : List β}
    (related : List.Forall₂ R l m) (same : ∀ a b, R a b → p a = q b) :
    List.Forall₂ R (dropEndWhile p l) (dropEndWhile q m) := by
  induction related with
  | nil => exact .nil
  | @cons a b l m r _ ih =>
    have empty : dropEndWhile p l = [] ↔ dropEndWhile q m = [] := by
      rw [← List.length_eq_zero_iff, ← List.length_eq_zero_iff, ih.length_eq]
    rw [dropEndWhile_cons, dropEndWhile_cons, same a b r]
    by_cases none : dropEndWhile p l = []
    · rw [if_pos none, if_pos (empty.mp none)]
      split
      · exact .nil
      · exact .cons r .nil
    · rw [if_neg none, if_neg (mt empty.mpr none)]
      exact .cons r ih

theorem forall₂_map {α β α' β' : Type} {R : α → β → Prop} {S : α' → β' → Prop} {f : α → α'} {g : β → β'} {l : List α}
    {m : List β} (related : List.Forall₂ R l m) (maps : ∀ a b, R a b → S (f a) (g b)) :
    List.Forall₂ S (l.map f) (m.map g) := by
  induction related with
  | nil => exact .nil
  | cons r _ ih => exact .cons (maps _ _ r) ih

theorem Woven.isEmpty_eq (woven : Woven w s t u) : t.isEmpty = u.isEmpty := by
  rw [Bool.eq_iff_iff, List.isEmpty_iff, List.isEmpty_iff]
  exact woven.nil_iff

theorem Woven.pieces (folds : FoldsMarks f) (quoted : ∀ a n, f ⟨a, n, .quoted⟩ = false)
    (code : ∀ m, f m = true → m.isCode) (woven : Woven w {} t u) :
    List.Forall₂ (Woven w {}) (((scan t).splitOnP f).map markText) (((scan u).splitOnP f).map markText) := by
  obtain ⟨a, b, as, bs, -, left, right, first, others, -⟩ := woven.splitOnP folds quoted code proper_start
  rw [scan, scan, left, right]
  exact .cons first others

theorem isCode_of_isTopOf {m : Mark} (top : m.isTopOf x) : m.isCode := by
  simp only [Mark.isTopOf, Mark.isTop, Bool.and_eq_true] at top
  exact top.2.1

theorem Woven.splitTop (other : x.isAlpha = false) (woven : Woven w {} t u) :
    List.Forall₂ (Woven w {}) (splitTop x t) (splitTop x u) := by
  have pieces := woven.pieces (foldsMarks_isTopOf other) (fun a n => by simp [Mark.isTopOf, Mark.isTop, Mark.isCode])
    fun m => isCode_of_isTopOf
  have trimmed := forall₂_map (S := Woven w {}) (f := QueryChain.trim) (g := QueryChain.trim) pieces
    fun _ _ piece => piece.trim rfl
  rw [List.map_map, List.map_map] at trimmed
  exact forall₂_dropEndWhile trimmed fun _ _ piece => piece.isEmpty_eq

theorem Woven.tokens (woven : Woven w {} t u) : List.Forall₂ (Woven w {}) (tokens t) (tokens u) := by
  have pieces := woven.pieces foldsMarks_isTopBlank (fun a n => by simp [Mark.isTopBlank, Mark.isTop, Mark.isCode])
    fun m blank => by
      simp only [Mark.isTopBlank, Mark.isTop, Bool.and_eq_true] at blank
      exact blank.2.1
  have written (ms : List Marks) : (ms.filter (· ≠ [])).map markText = (ms.map markText).filter (· ≠ []) := by
    rw [List.filter_map]
    congr 1
    refine List.filter_congr fun m _ => ?_
    simp [markText]
  rw [QueryChain.tokens, QueryChain.tokens, written, written]
  exact forall₂_filter pieces fun a b piece => by simp [piece.nil_iff]

theorem isTop_behind {m : Mark} (top : m.isTopOf x) (here : s.mark c t = m) : (s.next c t).mode = .code := by
  refine code_behind ?_
  rw [here]
  exact isCode_of_isTopOf top

theorem rel_cutTop? (other : x.isAlpha = false) (woven : Woven w {} t u) :
    Option.Rel (fun r r' => Woven w {} r.1 r'.1 ∧ Woven w {} r.2 r'.2) (cutTop? x t) (cutTop? x u) := by
  obtain ⟨taken, s₁, t₁, u₁, proper, rest, left, right⟩ := woven.span (foldsMarks_isTopOf other).not
    (fun a n => by simp [Mark.isTopOf, Mark.isTop, Mark.isCode]) proper_start
  have answers : ∀ m ∈ ((scan t).dropWhile (!·.isTopOf x)).head?, m.isTopOf x := by
    intro m head
    have stop := List.head?_dropWhile_not (!·.isTopOf x) (scan t)
    rw [Option.mem_def.mp head] at stop
    simpa using stop
  rw [cutTop?, cutTop?]
  rw [← scan] at left right
  rw [left] at answers ⊢
  rw [right]
  cases rest with
  | nil => exact .none
  | @char _ c d t₂ u₂ same dashes more =>
    rw [more.marks_cons proper same, ScanState.marks] at *
    have mode := isTop_behind (answers _ rfl) rfl
    dsimp only
    rw [ScanState.markText_marks, ScanState.markText_marks]
    exact .some ⟨taken, more.of_mode mode⟩
  | literal quiet code more =>
    have top := answers _ (by rw [marks_literal w.inert code]; rfl)
    simp [Mark.isTopOf, Mark.isTop, Mark.isCode] at top

theorem Woven.hasTop (other : x.isAlpha = false) (woven : Woven w {} t u) : hasTop x t = hasTop x u :=
  rel_isSome (rel_cutTop? other woven)

theorem Woven.dropLast (woven : Woven w s t u) (open_ : t.getLast? ≠ some '\'') : Woven w s t.dropLast u.dropLast := by
  induction woven with
  | nil s => exact .nil s
  | @char s c d t u same dashes rest ih =>
    rcases rest.sameHead.cases with ⟨rfl, rfl⟩ | ⟨a, t', b, u', rfl, rfl, -⟩
    · exact .nil s
    · rw [List.getLast?_cons_cons] at open_
      rw [List.dropLast_cons_cons, List.dropLast_cons_cons]
      have whole := List.dropLast_append_getLast (l := a :: t') (by simp)
      exact .cons_cut (q := [(a :: t').getLast (by simp)]) same (by rwa [whole]) (by rw [whole]; exact ih open_)
  | @literal s t u quiet code rest ih =>
    rcases rest.sameHead.cases with ⟨rfl, rfl⟩ | ⟨a, t', b, u', rfl, rfl, -⟩
    · rw [List.append_nil, getLast?_literal] at open_
      exact absurd rfl open_
    · rw [getLast?_append_of_ne_nil (by simp)] at open_
      rw [List.dropLast_append_of_ne_nil (by simp), List.dropLast_append_of_ne_nil (by simp)]
      exact .literal quiet code (ih open_)

theorem any_dropLast_marks (folds : FoldsMarks f) (quoted : ∀ a n, f ⟨a, n, .quoted⟩ = false) (woven : Woven w s t u)
    (proper : s.Proper) : (s.marks t).dropLast.any f = (s.marks u).dropLast.any f := by
  induction woven with
  | nil => rfl
  | @char s c d t u same dashes rest ih =>
    rw [rest.marks_cons proper same, ScanState.marks]
    rcases rest.sameHead.cases with ⟨rfl, rfl⟩ | ⟨a, t', b, u', rfl, rfl, -⟩
    · rfl
    · have full (s : ScanState) (a : Char) (t : Text) : s.marks (a :: t) ≠ [] := by simp [ScanState.marks]
      rw [List.dropLast_cons_of_ne_nil (full _ _ _), List.dropLast_cons_of_ne_nil (full _ _ _), List.any_cons, List.any_cons,
        folds.mark same, ih (proper.next _ _)]
  | @literal s t u quiet code rest ih =>
    have silent (b : Text) : (b.map fun a => (⟨a, s.depth, .quoted⟩ : Mark)).any f = false := by
      rw [List.any_eq_false]
      intro m member
      obtain ⟨a, -, rfl⟩ := List.mem_map.mp member
      simp [quoted]
    rw [marks_literal w.inert code, marks_literal w.inert' code]
    rcases rest.sameHead.cases with ⟨rfl, rfl⟩ | ⟨a, t', b, u', rfl, rfl, -⟩
    · rw [ScanState.marks, List.append_nil, List.append_nil, ← List.map_dropLast, ← List.map_dropLast]
      have silent' (b : Text) : (b.dropLast.map fun a => (⟨a, s.depth, .quoted⟩ : Mark)).any f = false := by
        rw [List.any_eq_false]
        intro m member
        obtain ⟨a, -, rfl⟩ := List.mem_map.mp member
        simp [quoted]
      rw [silent', silent']
    · have full (a : Char) (t : Text) : s.marks (a :: t) ≠ [] := by simp [ScanState.marks]
      rw [List.dropLast_append_of_ne_nil (full _ _), List.dropLast_append_of_ne_nil (full _ _), List.any_append,
        List.any_append, silent, silent, ih proper]

theorem faultFree_literal {b : Text} (inert : Inert b) (code : s.mode = .code) (t : Text) :
    FaultFree s (literal b ++ t) ↔ FaultFree s t := by
  have role : Role.of '\'' (b ++ '\'' :: t) = .quote := by simp [Role.of, opensLineComment, opensBlockComment, isQuote]
  have opened : s.next '\'' (b ++ '\'' :: t) = { s with mode := .quote '\'' false } := by simp [ScanState.next, code, role]
  have body (b : Text) (inert : Inert b) (q : ScanState) (quote : q.mode = .quote '\'' false) :
      FaultFree q (b ++ '\'' :: t) ↔ FaultFree { q with mode := .code } t := by
    induction b with
    | nil => simp [FaultFree, ScanState.mark, ScanState.next, quote, Mark.isCode]
    | cons c b ih =>
      have noQuote : c ≠ '\'' := fun same => inert.1 (by simp [same])
      have noEscape : c ≠ '\\' := fun same => inert.2 (by simp [same])
      have stays : q.next c (b ++ '\'' :: t) = q := by simp [ScanState.next, quote, noQuote, noEscape]
      rw [List.cons_append, FaultFree, stays,
        ih ⟨fun member => inert.1 (by simp [member]), fun member => inert.2 (by simp [member])⟩]
      simp [ScanState.mark, quote, Mark.isCode]
  have whole : literal b ++ t = '\'' :: (b ++ '\'' :: t) := by simp [literal]
  have closed : ({ s with mode := .code } : ScanState) = s := by rw [← code]
  rw [whole, FaultFree, opened, body b inert _ rfl, closed]
  simp [opensExecutable, opensBlockComment]

theorem Woven.opensExecutable_eq (same : w.same c d) (rest : Woven w s t u) :
    opensExecutable c t = opensExecutable d u := by
  have slash : (c == '/') = (d == '/') := folds_beq (by decide) c d (w.letter same)
  rw [opensExecutable, opensExecutable, opensBlockComment, opensBlockComment, slash]
  have star : (t.head? == some '*') = (u.head? == some '*') := by
    rw [Bool.eq_iff_iff, beq_iff_eq, beq_iff_eq]
    exact rest.head_iff (by decide)
  rw [star]
  by_cases starred : u.head? = some '*'
  · have behind {x : Char} (other : x.isAlpha = false) : (t.tail.head? == some x) = (u.tail.head? == some x) := by
      rw [Bool.eq_iff_iff, beq_iff_eq, beq_iff_eq]
      cases rest with
      | nil => rfl
      | char _ _ more => exact more.head_iff other
      | literal => cases starred
    rw [behind (by decide), behind (by decide)]
  · rw [beq_false_of_ne starred]
    simp

theorem Woven.faultFree_iff (woven : Woven w s t u) (proper : s.Proper) : FaultFree s t ↔ FaultFree s u := by
  induction woven with
  | nil => rfl
  | @char s c d t u same dashes rest ih =>
    have code : (s.mark d u).isCode = (s.mark c t).isCode := by rw [rest.mark_eq same]; rfl
    rw [FaultFree, FaultFree, rest.next_eq proper same, ih (proper.next c t), code,
      eq_iff_of_sameLetter (w.letter same) (x := ')') (by decide), rest.opensExecutable_eq same]
  | literal quiet code rest ih =>
    rw [faultFree_literal w.inert code, faultFree_literal w.inert' code, ih proper]

theorem Woven.balanced_iff (woven : Woven w {} t u) : Balanced t ↔ Balanced u := by
  rw [balanced_iff_faultFree, balanced_iff_faultFree]
  exact woven.faultFree_iff proper_start

theorem Woven.isGroup_eq (woven : Woven w {} t u) : isGroup t = isGroup u := by
  have trimmed := woven.trim rfl
  have head : ((QueryChain.trim t).head? == some '(') = ((QueryChain.trim u).head? == some '(') := by
    rw [Bool.eq_iff_iff, beq_iff_eq, beq_iff_eq]
    exact trimmed.head_iff (by decide)
  have last : ((QueryChain.trim t).getLast? == some ')') = ((QueryChain.trim u).getLast? == some ')') := by
    rw [Bool.eq_iff_iff, beq_iff_eq, beq_iff_eq]
    exact trimmed.getLast_iff (by decide)
  have closes := any_dropLast_marks (foldsMarks_isTopOf (x := ')') (by decide))
    (fun a n => by simp [Mark.isTopOf, Mark.isTop, Mark.isCode]) trimmed proper_start
  have fault : (fault? (QueryChain.trim t)).isNone = (fault? (QueryChain.trim u)).isNone := by
    rw [Bool.eq_iff_iff, Option.isNone_iff_eq_none, Option.isNone_iff_eq_none]
    exact trimmed.balanced_iff
  rw [isGroup, isGroup, head, last, fault, scan, scan, closes]

theorem Woven.tail_dropLast (woven : Woven w {} t u) (opens : t.head? = some '(') (closes : t.getLast? = some ')') :
    Woven w {} t.tail.dropLast u.tail.dropLast := by
  cases woven with
  | nil => cases opens
  | @char _ c d t u same dashes rest =>
    obtain rfl : c = '(' := by simpa using opens
    have mode : (({} : ScanState).next '(' t).mode = .code := by simp [ScanState.next, role_opening]
    have later : Woven w {} t u := rest.of_mode mode
    rw [List.tail_cons, List.tail_cons]
    refine later.dropLast fun quote => ?_
    cases t with
    | nil => cases quote
    | cons a t =>
      rw [List.getLast?_cons_cons, quote] at closes
      exact absurd (Option.some.inj closes) (by decide)
  | literal => cases opens

theorem Woven.groupBody (woven : Woven w {} t u) : Woven w {} (groupBody t) (groupBody u) := by
  have trimmed := woven.trim rfl
  rw [QueryChain.groupBody, QueryChain.groupBody, trimmed.isGroup_eq]
  by_cases group : isGroup (QueryChain.trim u)
  · rw [if_pos group, if_pos group]
    have both := trimmed.isGroup_eq.trans group
    rw [isGroup, trim_trim] at both
    simp only [Bool.and_eq_true, beq_iff_eq] at both
    exact (trimmed.tail_dropLast both.1.1.1 both.1.1.2).trim rfl
  · rw [if_neg group, if_neg group]
    exact trimmed

end Pieces
end QueryChain
