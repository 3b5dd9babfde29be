import QueryChain.Proofs.Statement.Spelled
import QueryChain.Proofs.Woven.Pieces

namespace QueryChain

section Numbers

variable {w : Weave} {s : ScanState} {c d : Char} {t u : Text}

theorem quoted_plain (x : Text) (n : Nat) : (x.map fun a => (⟨a, n, .quoted⟩ : Mark)).countP Mark.isPlaceholder = 0 := by
  rw [List.countP_eq_zero]
  intro m member
  obtain ⟨a, -, rfl⟩ := List.mem_map.mp member
  simp [Mark.isPlaceholder, Mark.isCode]

theorem foldsMarks_isPlaceholder : FoldsMarks Mark.isPlaceholder := by
  intro m d same
  have equal : (m.char == '?') = (d == '?') := folds_beq (by decide) m.char d same
  simp only [Mark.isPlaceholder, Mark.isCode]
  rw [equal]

/-- The same placeholders are named, and alike. -/
theorem Woven.numberMarks (woven : Woven w s t u) (proper : s.Proper) (issued : Nat) :
    Woven w s (numberMarks issued (s.marks t)) (numberMarks issued (s.marks u)) ∧
      (s.marks t).countP Mark.isPlaceholder = (s.marks u).countP Mark.isPlaceholder := by
  induction woven generalizing issued with
  | nil s => exact ⟨.nil s, rfl⟩
  | @char s c d t u same dashes rest ih =>
    have equal := foldsMarks_isPlaceholder.mark same s t
    rw [rest.marks_cons proper same, ScanState.marks, QueryChain.numberMarks, QueryChain.numberMarks, List.countP_cons,
      List.countP_cons, equal]
    by_cases placeholder : (s.mark c t).isPlaceholder
    · obtain ⟨code, char⟩ := char_of_placeholder placeholder
      rw [ScanState.mark_char] at char
      subst char
      have mode := s.mode_of_code '?' t (by decide) code
      have stays : s.next '?' t = s := s.next_plain mode '?' t (by decide)
      rw [stays] at ih ⊢
      obtain ⟨numbered, count⟩ := ih proper (issued + 1)
      rw [if_pos placeholder, if_pos placeholder, count]
      exact ⟨numbered.plain_append mode fun a => isPlain_of_mem_paramName, rfl⟩
    · obtain ⟨numbered, count⟩ := ih (proper.next c t) issued
      obtain ⟨mark, next⟩ := mark_of_role (s := s) (role_numberMarks (s := s.next c t) (k := issued) (c := c) (t := t))
      rw [if_neg placeholder, if_neg placeholder, count, ScanState.mark_char]
      refine ⟨.char same (fun quiet comment => ?_) (by rwa [next]), rfl⟩
      rw [mark] at comment
      have all := dashes quiet comment
      have free : '?' ∉ t := fun member => absurd (all '?' (by simp [member])) (by decide)
      rwa [numberMarks_of_free free]
  | @literal s t u quiet code rest ih =>
    obtain ⟨numbered, count⟩ := ih proper issued
    rw [marks_literal w.inert code, marks_literal w.inert' code, numberMarks_append, numberMarks_append,
      List.countP_append, List.countP_append, quoted_plain, quoted_plain, numberMarks_of_none _ _ (quoted_plain _ _),
      numberMarks_of_none _ _ (quoted_plain _ _), count]
    refine ⟨?_, rfl⟩
    simpa [markText, Function.comp_def] using Woven.literal quiet code numbered

theorem Woven.numbered (woven : Woven w {} t u) (issued : Nat) : Woven w {} (numbered issued t) (numbered issued u) :=
  (woven.numberMarks proper_start issued).1

theorem Woven.placeholders_eq (woven : Woven w {} t u) : placeholders t = placeholders u :=
  (woven.numberMarks proper_start 0).2

end Numbers
section Notes

variable {w : Weave} {κ : Type} {size : κ → Nat} {s : ScanState} {b b' : Option Char} {t u : Text}
  {l l' : List (Char × Option κ)}

def Starts (n : Nat) (t : Text) : Prop := n ≤ t.length ∧ ∀ a ∈ t.take n, isKeywordChar a

inductive Noted (w : Weave) (size : κ → Nat) : ScanState → List (Char × Option κ) → List (Char × Option κ) → Prop
  | nil (s : ScanState) : Noted w size s [] []
  | char {s : ScanState} {c d : Char} {k : Option κ} {l l' : List (Char × Option κ)} (same : w.same c d)
      (dashes : w.quiet → (s.mark c (l.map Prod.fst)).kind = .comment → ∀ a ∈ c :: l.map Prod.fst, a = '-')
      (word : ∀ k' ∈ k, s.mode = .code ∧ Starts (size k') (c :: l.map Prod.fst))
      (rest : Noted w size (s.next c (l.map Prod.fst)) l l') : Noted w size s ((c, k) :: l) ((d, k) :: l')
  | literal {s : ScanState} {l l' : List (Char × Option κ)} (quiet : w.quiet) (code : s.mode = .code)
      (rest : Noted w size s l l') :
      Noted w size s ((literal w.body).map (·, none) ++ l) ((literal w.body').map (·, none) ++ l')

theorem annotate_quoted {probe : Cursor → Option κ} (quoted : ∀ b a n ms, probe ⟨b, ⟨a, n, .quoted⟩ :: ms⟩ = none)
    (x : Text) (n : Nat) (b : Option Char) (ms : Marks) :
    Cursor.annotate probe b (x.map (fun a => (⟨a, n, .quoted⟩ : Mark)) ++ ms) =
      x.map (·, none) ++ Cursor.annotate probe (x.getLast?.or b) ms := by
  induction x generalizing b with
  | nil => rfl
  | cons a x ih =>
    have last : (a :: x).getLast?.or b = x.getLast?.or (some a) := by cases x <;> simp [List.getLast?_cons]
    rw [List.map_cons, List.cons_append, Cursor.annotate, quoted, ih, last]
    rfl

theorem Woven.noted {all : List κ} {word : κ → Text} {probe : Cursor → Option κ} (areKeywords : ∀ k, IsKeyword [word k])
    (probes : ∀ c, probe c = if c.atTop then all.find? fun k => c.startsWith [word k] else none)
    (before : b.any isWordChar = b'.any isWordChar) (proper : s.Proper) (woven : Woven w s t u) :
    Noted w (fun k => (word k).length) s (Cursor.annotate probe b (s.marks t)) (Cursor.annotate probe b' (s.marks u)) := by
  have quoted (b : Option Char) (a : Char) (n : Nat) (ms : Marks) : probe ⟨b, ⟨a, n, .quoted⟩ :: ms⟩ = none := by
    rw [probes]
    rfl
  induction woven generalizing b b' with
  | nil s => exact .nil s
  | @char s c d t u same dashes rest ih =>
    have whole : Woven w s (c :: t) (d :: u) := .char same dashes rest
    have text (b : Option Char) : (Cursor.annotate probe b ((s.next c t).marks t)).map Prod.fst = t := by
      rw [map_fst_annotate, ScanState.markText_marks]
    have top : (⟨b, s.marks (c :: t)⟩ : Cursor).atTop = (⟨b', s.marks (d :: u)⟩ : Cursor).atTop := by
      rw [rest.marks_cons proper same]
      rfl
    have code (isTop : (⟨b, s.marks (c :: t)⟩ : Cursor).atTop) {k : κ}
        (found : (⟨b, s.marks (c :: t)⟩ : Cursor).startsWith [word k]) :
        s.mode = .code ∧ Starts (word k).length (c :: t) := by
      obtain ⟨after, here⟩ := Option.isSome_iff_exists.mp found
      obtain ⟨-, v, more, written, spells, -⟩ := (Cursor.keyword?_eq_some_iff (areKeywords k)).mp here
      rw [Cursor.text_mk, ScanState.markText_marks] at written
      obtain ⟨a, first, letter⟩ := spells.head? (areKeywords k)
      have head : a = c := by
        have headed := congrArg List.head? written
        rw [List.head?_cons, List.head?_append, first, Option.some_or] at headed
        exact (Option.some.inj headed).symm
      subst head
      have isCode : (s.mark a t).isCode := by
        have top : (s.mark a t).isTop := isTop
        rw [Mark.isTop, Bool.and_eq_true] at top
        exact top.1
      refine ⟨s.mode_of_code a t (ne_of_isKeywordChar letter (by decide)) isCode, ?_⟩
      rw [written, ← length_of_spells spells, Starts, List.take_left]
      exact ⟨by simp, isKeywordChar_of_word (areKeywords k) spells⟩
    have agree : probe ⟨b, s.marks (c :: t)⟩ = probe ⟨b', s.marks (d :: u)⟩ := by
      rw [probes, probes, ← top]
      by_cases isTop : (⟨b, s.marks (c :: t)⟩ : Cursor).atTop
      · rw [if_pos isTop, if_pos isTop]
        by_cases mode : s.mode = .code
        · refine List.find?_congr fun k _ => ?_
          exact rel_isSome (rel_keyword? (areKeywords k) (.mk before mode whole))
        · have feed : c = '\n' := by
            by_contra other
            have isCode : (s.mark c t).isCode := by
              have top : (s.mark c t).isTop := isTop
              rw [Mark.isTop, Bool.and_eq_true] at top
              exact top.1
            exact mode (s.mode_of_code c t other isCode)
          have feed' : d = '\n' := (eq_iff_of_sameLetter (w.letter same) (by decide)).mp feed
          refine List.find?_congr fun k _ => ?_
          rw [Cursor.startsWith, Cursor.startsWith, ScanState.marks, ScanState.marks,
            keyword?_feed (areKeywords k) b (by rw [ScanState.mark_char, feed]),
            keyword?_feed (areKeywords k) b' (by rw [ScanState.mark_char, feed'])]
      · rw [if_neg isTop, if_neg isTop]
    rw [rest.marks_cons proper same] at agree ⊢
    rw [ScanState.marks] at agree ⊢
    rw [Cursor.annotate, Cursor.annotate, ← agree, ScanState.mark_char]
    refine .char same (by rwa [text]) (fun k found => ?_) (by rw [text]; exact ih (before_any same) (proper.next c t))
    rw [probes] at found
    rw [text]
    split at found
    · rename_i isTop
      exact code isTop (List.find?_some (p := fun k => Cursor.startsWith ⟨b, s.marks (c :: t)⟩ [word k]) found)
    · cases found
  | @literal s t u quiet code rest ih =>
    rw [marks_literal w.inert code, marks_literal w.inert' code, annotate_quoted quoted, annotate_quoted quoted,
      getLast?_literal, getLast?_literal]
    exact .literal quiet code (ih rfl proper)

theorem starts_tail {n : Nat} {c : Char} (starts : Starts (n + 1) (c :: t)) : isKeywordChar c ∧ Starts n t := by
  obtain ⟨long, letters⟩ := starts
  exact ⟨letters c (by simp), by simpa using long, fun a member => letters a (by simp [member])⟩

/-- Cutting at the same words gives the same number of parts, each like its partner. -/
theorem Noted.cutWords (positive : ∀ k, 0 < size k) (noted : Noted w size s l l') (n : Nat)
    (letters : n ≠ 0 → s.mode = .code ∧ Starts n (l.map Prod.fst)) :
    Woven w s (cutWords size n l).1 (cutWords size n l').1 ∧
      List.Forall₂ (fun p p' => p.1 = p'.1 ∧ Woven w {} p.2 p'.2) (cutWords size n l).2 (cutWords size n l').2 ∧
      (n = 0 → ∃ q, l.map Prod.fst = (cutWords size n l).1 ++ q) := by
  induction noted generalizing n with
  | nil s =>
    have none : QueryChain.cutWords size n [] = ([], []) := by cases n <;> rfl
    rw [none]
    exact ⟨.nil s, .nil, fun _ => ⟨[], rfl⟩⟩
  | @char s c d k l l' same dashes word rest ih =>
    have passed (code : s.mode = .code) (letter : isKeywordChar c) : s.next c (l.map Prod.fst) = s :=
      s.next_plain code c _ (isPlain_of_isKeywordChar c letter)
    cases n with
    | succ n =>
      obtain ⟨code, starts⟩ := letters (Nat.succ_ne_zero n)
      obtain ⟨letter, more⟩ := starts_tail starts
      rw [passed code letter] at ih
      obtain ⟨head, parts, -⟩ := ih n fun _ => ⟨code, more⟩
      exact ⟨head, parts, nofun⟩
    | zero =>
      cases k with
      | none =>
        obtain ⟨head, parts, whole⟩ := ih 0 nofun
        obtain ⟨q, text⟩ := whole rfl
        rw [QueryChain.cutWords, QueryChain.cutWords]
        refine ⟨.cons_cut (q := q) same (by rwa [← text]) (by rwa [← text]), parts, fun _ => ⟨q, ?_⟩⟩
        rw [List.map_cons, text, List.cons_append]
      | some k =>
        obtain ⟨code, starts⟩ := word k rfl
        have size_ : size k = size k - 1 + 1 := (Nat.sub_add_cancel (positive k)).symm
        rw [size_] at starts
        obtain ⟨letter, more⟩ := starts_tail starts
        rw [passed code letter] at ih
        obtain ⟨head, parts, -⟩ := ih (size k - 1) fun _ => ⟨code, more⟩
        rw [QueryChain.cutWords, QueryChain.cutWords]
        exact ⟨.nil s, .cons ⟨rfl, head.of_mode code⟩ parts, fun _ => ⟨_, rfl⟩⟩
  | @literal s l l' quiet code rest ih =>
    cases n with
    | succ n =>
      have letter : isKeywordChar '\'' := (starts_tail (letters (Nat.succ_ne_zero n)).2).1
      exact absurd letter (by decide)
    | zero =>
      obtain ⟨head, parts, whole⟩ := ih 0 nofun
      obtain ⟨q, text⟩ := whole rfl
      rw [cutWords_none, cutWords_none]
      refine ⟨.literal quiet code head, parts, fun _ => ⟨q, ?_⟩⟩
      rw [List.map_append, text, List.append_assoc, List.map_map]
      simp [Function.comp_def]

end Notes
section Conditions

variable {w : Weave} {s : ScanState} {t u : Text} {l l' : List (Char × Option LogicWord)}

theorem Noted.splitPoints (noted : Noted w (fun k => (LogicWord.word k).length) s l l') (caseDepth : Nat) (between : Bool) :
    Noted w (fun k => (Connective.word k).length) s (splitPoints caseDepth between l)
      (splitPoints caseDepth between l') := by
  induction noted generalizing caseDepth between with
  | nil s => exact .nil s
  | @char s c d k l l' same dashes word rest ih =>
    obtain ⟨k', caseDepth', between', step⟩ := splitPoints_step caseDepth between k
    rw [step, step]
    refine .char same (by rwa [map_fst_splitPoints]) (fun k found => ?_) (by rw [map_fst_splitPoints]; exact ih _ _)
    have here := connective_of_splitPoints (n := 0) (by rw [step c l, Option.mem_def.mp found]; rfl)
    rw [map_fst_splitPoints]
    exact word (.connective k) (congrArg Prod.snd (Option.some.inj here))
  | literal quiet code rest ih =>
    rw [splitPoints_none, splitPoints_none]
    exact .literal quiet code (ih _ _)

def Weave.Condition (w : Weave) (c c' : Condition) : Prop :=
  c.connective = c'.connective ∧ Woven w {} c.text c'.text

theorem forall₂_opened {cs cs' : List Condition} (related : List.Forall₂ w.Condition cs cs') :
    List.Forall₂ w.Condition (opened cs) (opened cs') := by
  cases related with
  | nil => exact .nil
  | cons first rest => exact .cons ⟨rfl, first.2⟩ rest

theorem Woven.writtenPieces (woven : Woven w {} t u) : List.Forall₂ w.Condition (writtenPieces t) (writtenPieces u) := by
  have noted : Noted w (fun k => (LogicWord.word k).length) {} (Cursor.annotate logicWordAt? none (scan t))
      (Cursor.annotate logicWordAt? none (scan u)) :=
    woven.noted isKeyword_logicWord (fun _ => rfl) rfl proper_start
  obtain ⟨head, parts, -⟩ := (noted.splitPoints 0 false).cutWords (fun k => by cases k <;> decide) 0 nofun
  exact .cons ⟨rfl, head.trim rfl⟩
    (forall₂_map parts fun p p' part => ⟨congrArg some part.1, part.2.trim rfl⟩)

theorem Woven.conditionPieces (woven : Woven w {} t u) :
    List.Forall₂ w.Condition (conditionPieces t) (conditionPieces u) := by
  rw [conditionPieces_eq, conditionPieces_eq]
  exact forall₂_opened (forall₂_filter woven.writtenPieces fun c c' piece => by simp [piece.2.nil_iff])

end Conditions
end QueryChain
