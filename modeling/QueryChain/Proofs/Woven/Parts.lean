import QueryChain.Proofs.NormalForm.Collapse
import QueryChain.Proofs.Woven.Basic

namespace QueryChain

section Ends

variable {w : Weave} {s : ScanState} {c d : Char} {t u : Text} {f : Char → Bool}

def Folds (f : Char → Bool) : Prop := ∀ c d, sameLetter c d → f c = f d

theorem folds_isBlank : Folds isBlank := fun _ _ => isBlank_of_sameLetter

theorem folds_isWordChar : Folds isWordChar := fun _ _ => isWordChar_of_sameLetter

theorem folds_beq {x : Char} (other : x.isAlpha = false) : Folds (· == x) := by
  intro c d same
  rw [Bool.eq_iff_iff, beq_iff_eq, beq_iff_eq]
  exact eq_iff_of_sameLetter same other

theorem Folds.or {g : Char → Bool} (first : Folds f) (second : Folds g) : Folds fun c => f c || g c :=
  fun c d same => by dsimp only; rw [first c d same, second c d same]

theorem dropEndWhile_cons {α : Type} (f : α → Bool) (a : α) (l : List α) : dropEndWhile f (a :: l) =
    if dropEndWhile f l = [] then (if f a then [] else [a]) else a :: dropEndWhile f l := by
  have parts := dropEndWhile_append_takeWhile f l
  rw [dropEndWhile, List.reverse_cons, List.dropWhile_append]
  by_cases empty : l.reverse.dropWhile f = []
  · have none : dropEndWhile f l = [] := by rw [dropEndWhile, empty, List.reverse_nil]
    rw [none, if_pos rfl, empty, List.isEmpty_nil, if_pos rfl, List.dropWhile_cons]
    split <;> rfl
  · have some_ : dropEndWhile f l ≠ [] := by rwa [dropEndWhile, Ne, List.reverse_eq_nil_iff]
    rw [if_neg some_, List.isEmpty_eq_false_iff.mpr empty, if_neg Bool.false_ne_true, List.reverse_append]
    rfl

theorem dropEndWhile_prefix {α : Type} (f : α → Bool) (l : List α) : ∃ cut, l = dropEndWhile f l ++ cut :=
  ⟨_, (dropEndWhile_append_takeWhile f l).symm⟩

theorem getLast?_literal (b : Text) : (literal b).getLast? = some '\'' := by
  rw [literal, ← List.cons_append, List.getLast?_concat]

/-- What is dropped at the ends of such texts is the same. -/
theorem Woven.dropEndWhile (folds : Folds f) (quote : f '\'' = false) (woven : Woven w s t u) :
    Woven w s (dropEndWhile f t) (dropEndWhile f u) := by
  induction woven with
  | nil s => exact .nil s
  | @char s c d t u same dashes rest ih =>
    have empty : QueryChain.dropEndWhile f t = [] ↔ QueryChain.dropEndWhile f u = [] := by
      have head := ih.sameHead
      constructor
      · intro none
        rcases head.cases with ⟨-, none'⟩ | ⟨a, _, _, _, some_, -⟩
        · exact none'
        · rw [none] at some_
          cases some_
      · intro none
        rcases head.cases with ⟨none', -⟩ | ⟨_, _, b, _, -, some_, -⟩
        · exact none'
        · rw [none] at some_
          cases some_
    rw [dropEndWhile_cons, dropEndWhile_cons, folds c d (w.letter same)]
    by_cases none : QueryChain.dropEndWhile f t = []
    · rw [if_pos none, if_pos (empty.mp none)]
      obtain ⟨cut, parts⟩ := dropEndWhile_prefix f t
      split
      · exact .nil s
      · rw [none, List.nil_append] at parts
        exact .cons_cut (q := cut) same (by rwa [List.nil_append, ← parts]) (.nil _)
    · obtain ⟨cut, parts⟩ := dropEndWhile_prefix f t
      rw [if_neg none, if_neg (mt empty.mpr none)]
      refine .cons_cut (q := cut) same ?_ ?_
      · rwa [← parts]
      · rwa [← parts]
  | literal quiet code _ ih =>
    have last (b : Text) : ∀ a ∈ (QueryChain.literal b).getLast?, f a = false := by
      rw [getLast?_literal]
      rintro a ⟨⟩
      exact quote
    rw [dropEndWhile_append (last _) (by simp [QueryChain.literal]),
      dropEndWhile_append (last _) (by simp [QueryChain.literal])]
    exact .literal quiet code ih

theorem Woven.trimEnd (woven : Woven w s t u) : Woven w s (trimEnd t) (trimEnd u) :=
  woven.dropEndWhile folds_isBlank (by decide)

theorem Woven.trimStart (woven : Woven w s t u) (code : s.mode = .code) : Woven w s (trimStart t) (trimStart u) := by
  induction woven with
  | nil s => exact .nil s
  | @char s c d t u same dashes rest ih =>
    rw [QueryChain.trimStart, QueryChain.trimStart, List.dropWhile_cons, List.dropWhile_cons,
      folds_isBlank c d (w.letter same)]
    by_cases blank : isBlank d
    · have stays : s.next c t = s := s.next_plain code c t
        (isPlain_of_isBlank c (by rwa [folds_isBlank c d (w.letter same)]))
      rw [if_pos blank, if_pos blank]
      rw [stays] at ih
      exact ih code
    · rw [if_neg blank, if_neg blank]
      exact .char same dashes rest
  | literal quiet code rest =>
    rw [QueryChain.trimStart, QueryChain.trimStart, QueryChain.literal, QueryChain.literal,
      List.cons_append, List.cons_append, List.dropWhile_cons_of_neg (by decide), List.dropWhile_cons_of_neg (by decide)]
    exact .literal quiet code rest

theorem Woven.trim (woven : Woven w s t u) (code : s.mode = .code) : Woven w s (trim t) (trim u) :=
  woven.trimEnd.trimStart code

theorem Woven.nil_iff (woven : Woven w s t u) : t = [] ↔ u = [] := by
  rcases woven.sameHead.cases with ⟨rfl, rfl⟩ | ⟨a, t', b, u', rfl, rfl, -⟩
  · rfl
  · simp

theorem Woven.head_iff (woven : Woven w s t u) {x : Char} (other : x.isAlpha = false) :
    t.head? = some x ↔ u.head? = some x := woven.sameHead.eq_some_iff other

theorem Woven.getLast_iff (woven : Woven w s t u) {x : Char} (other : x.isAlpha = false) :
    t.getLast? = some x ↔ u.getLast? = some x := by
  induction woven with
  | nil => rfl
  | @char s c d t u same _ rest ih =>
    rw [List.getLast?_cons, List.getLast?_cons]
    rcases rest.sameHead.cases with ⟨rfl, rfl⟩ | ⟨a, t', b, u', rfl, rfl, -⟩
    · simpa using eq_iff_of_sameLetter (w.letter same) other
    · rw [List.getLast?_cons, List.getLast?_cons] at ih ⊢
      simpa using ih
  | @literal s t u _ _ rest ih =>
    rcases rest.sameHead.cases with ⟨rfl, rfl⟩ | ⟨a, t', b, u', rfl, rfl, -⟩
    · rw [List.append_nil, List.append_nil, getLast?_literal, getLast?_literal]
    · rwa [getLast?_append_of_ne_nil (by simp), getLast?_append_of_ne_nil (by simp)]

/-- Characters that open and close nothing may be put in front where nothing is open. -/
theorem Woven.plain_append (woven : Woven w s t u) (code : s.mode = .code) {p : Text} (plain : ∀ c ∈ p, isPlain c) :
    Woven w s (p ++ t) (p ++ u) := by
  induction p with
  | nil => exact woven
  | cons c p ih =>
    have here := plain c (by simp)
    refine .char (w.refl c) (fun _ comment => ?_) ?_
    · rw [s.mark_plain code c _ here] at comment
      cases comment
    · rw [s.next_plain code c _ here]
      exact ih fun d member => plain d (by simp [member])

end Ends
section Marks

variable {w : Weave} {s : ScanState} {c d : Char} {t u : Text} {f : Mark → Bool}

theorem Woven.marks_cons (rest : Woven w (s.next c t) t u) (proper : s.Proper) (same : w.same c d) :
    s.marks (d :: u) = { s.mark c t with char := d } :: (s.next c t).marks u := by
  rw [ScanState.marks, rest.mark_eq same, rest.next_eq proper same]

def FoldsMarks (f : Mark → Bool) : Prop := ∀ m d, sameLetter m.char d → f { m with char := d } = f m

theorem FoldsMarks.mark (folds : FoldsMarks f) (same : w.same c d) (s : ScanState) (t : Text) :
    f { s.mark c t with char := d } = f (s.mark c t) :=
  folds _ d (by rw [ScanState.mark_char]; exact w.letter same)

theorem code_behind (code : (s.mark c t).isCode) : (s.next c t).mode = .code := by
  obtain ⟨mode, depth⟩ := s
  cases mode with
  | code =>
    rw [ScanState.mark] at code
    rw [ScanState.next]
    cases role : Role.of c t <;> simp [role, Mark.isCode] at code ⊢
  | quote q escaped => cases escaped <;> simp [ScanState.mark, Mark.isCode] at code
  | lineComment =>
    rw [ScanState.mark] at code
    rw [ScanState.next]
    by_cases feed : c = '\n'
    · simp [feed]
    · simp [feed, Mark.isCode] at code
  | opener => cases code
  | blockComment star => cases code

/-- The part up to the first place that answers, and what stands there. -/
theorem Woven.span (folds : FoldsMarks f) (quoted : ∀ a n, f ⟨a, n, .quoted⟩ = true) (woven : Woven w s t u)
    (proper : s.Proper) :
    Woven w s (markText ((s.marks t).takeWhile f)) (markText ((s.marks u).takeWhile f)) ∧
      ∃ s₁ t₁ u₁, s₁.Proper ∧ Woven w s₁ t₁ u₁ ∧ (s.marks t).dropWhile f = s₁.marks t₁ ∧
        (s.marks u).dropWhile f = s₁.marks u₁ := by
  induction woven with
  | nil s => exact ⟨.nil s, s, [], [], proper, .nil s, rfl, rfl⟩
  | @char s c d t u same dashes rest ih =>
    rw [rest.marks_cons proper same, ScanState.marks]
    by_cases passes : f (s.mark c t)
    · obtain ⟨taken, s₁, t₁, u₁, proper₁, woven₁, left, right⟩ := ih (proper.next c t)
      have whole : t = markText (((s.next c t).marks t).takeWhile f) ++ markText (((s.next c t).marks t).dropWhile f) := by
        rw [← markText_append, List.takeWhile_append_dropWhile, ScanState.markText_marks]
      rw [List.takeWhile_cons_of_pos passes, List.dropWhile_cons_of_pos passes,
        List.takeWhile_cons_of_pos ((folds.mark same s t).trans passes),
        List.dropWhile_cons_of_pos ((folds.mark same s t).trans passes)]
      refine ⟨?_, s₁, t₁, u₁, proper₁, woven₁, left, right⟩
      rw [markText, markText, List.map_cons, List.map_cons, ScanState.mark_char, ← markText, ← markText]
      exact .cons_cut (q := markText (((s.next c t).marks t).dropWhile f)) same (by rwa [← whole]) (by rwa [← whole])
    · rw [List.takeWhile_cons_of_neg passes, List.dropWhile_cons_of_neg passes,
        List.takeWhile_cons_of_neg (by rwa [folds.mark same s t]), List.dropWhile_cons_of_neg (by rwa [folds.mark same s t])]
      exact ⟨.nil s, s, c :: t, d :: u, proper, .char same dashes rest, rfl, (rest.marks_cons proper same).symm⟩
  | @literal s t u quiet code rest ih =>
    obtain ⟨taken, s₁, t₁, u₁, proper₁, woven₁, left, right⟩ := ih proper
    have all (b : Text) : ∀ m ∈ (QueryChain.literal b).map (fun a => (⟨a, s.depth, .quoted⟩ : Mark)), f m = true := by
      intro m member
      obtain ⟨a, -, rfl⟩ := List.mem_map.mp member
      exact quoted a s.depth
    rw [marks_literal w.inert code, marks_literal w.inert' code, List.takeWhile_append_of_pos (all _),
      List.takeWhile_append_of_pos (all _), List.dropWhile_append_of_pos (all _), List.dropWhile_append_of_pos (all _)]
    refine ⟨?_, s₁, t₁, u₁, proper₁, woven₁, left, right⟩
    rw [markText_append, markText_append]
    simpa [markText, Function.comp_def] using Woven.literal quiet code taken

/-- The pieces between the places that answer: only the first goes on from before. -/
theorem Woven.splitOnP (folds : FoldsMarks f) (quoted : ∀ a n, f ⟨a, n, .quoted⟩ = false)
    (code : ∀ m, f m = true → m.isCode) (woven : Woven w s t u) (proper : s.Proper) :
    ∃ a b as bs q, ((s.marks t).splitOnP f).map markText = a :: as ∧ ((s.marks u).splitOnP f).map markText = b :: bs ∧
      Woven w s a b ∧ List.Forall₂ (Woven w {}) as bs ∧ t = a ++ q := by
  induction woven with
  | nil s => exact ⟨[], [], [], [], [], rfl, rfl, .nil s, .nil, rfl⟩
  | @char s c d t u same dashes rest ih =>
    obtain ⟨a, b, as, bs, q, left, right, first, others, whole⟩ := ih (proper.next c t)
    rw [rest.marks_cons proper same, ScanState.marks, List.splitOnP_cons_eq_if_modifyHead,
      List.splitOnP_cons_eq_if_modifyHead, folds.mark same s t]
    by_cases answers : f (s.mark c t)
    · rw [if_pos answers, if_pos answers, List.map_cons, List.map_cons, left, right]
      have mode := code_behind (code _ answers)
      exact ⟨[], [], a :: as, b :: bs, c :: t, rfl, rfl, .nil s, .cons (first.of_mode mode) others, rfl⟩
    · rw [if_neg answers, if_neg answers]
      have extend (m : Mark) (ms : List Marks) {x : Text} {xs : List Text} (parts : ms.map markText = x :: xs) :
          (ms.modifyHead (m :: ·)).map markText = (m.char :: x) :: xs := by
        cases ms with
        | nil => cases parts
        | cons l ms =>
          obtain ⟨rfl, rfl⟩ := List.cons.inj parts
          rfl
      refine ⟨c :: a, d :: b, as, bs, q, ?_, ?_, ?_, others, by rw [List.cons_append, ← whole]⟩
      · rw [extend _ _ left, ScanState.mark_char]
      · rw [extend _ _ right]
      · exact .cons_cut (q := q) same (by rwa [← whole]) (by rwa [← whole])
  | @literal s t u quiet mode rest ih =>
    obtain ⟨a, b, as, bs, q, left, right, first, others, whole⟩ := ih proper
    have pass (x : Text) (ms : Marks) {y : Text} {ys : List Text} (parts : (ms.splitOnP f).map markText = y :: ys) :
        ((x.map (fun a => (⟨a, s.depth, .quoted⟩ : Mark)) ++ ms).splitOnP f).map markText = (x ++ y) :: ys := by
      induction x with
      | nil => exact parts
      | cons e x ihx =>
        rw [List.map_cons, List.cons_append, List.splitOnP_cons_eq_if_modifyHead,
          if_neg (by rw [quoted]; exact Bool.false_ne_true)]
        cases pieces : List.splitOnP f (x.map (fun a => (⟨a, s.depth, .quoted⟩ : Mark)) ++ ms) with
        | nil => exact absurd pieces (List.splitOnP_ne_nil f _)
        | cons l pieces' =>
          rw [pieces] at ihx
          obtain ⟨head, tail⟩ := List.cons.inj ihx
          rw [List.modifyHead_cons, List.map_cons, tail, List.cons_append, ← head]
          rfl
    rw [marks_literal w.inert mode, marks_literal w.inert' mode]
    exact ⟨_, _, as, bs, q, pass _ _ left, pass _ _ right, .literal quiet mode first, others, by
      rw [List.append_assoc, ← whole]⟩

end Marks
end QueryChain
