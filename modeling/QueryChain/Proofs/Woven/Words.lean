import QueryChain.Proofs.Woven.Parts

namespace QueryChain

inductive Weave.Aligned (w : Weave) : Cursor → Cursor → Prop
  | mk {b b' : Option Char} {s : ScanState} {t u : Text} (before : b.any isWordChar = b'.any isWordChar)
      (code : s.mode = .code) (woven : Woven w s t u) : w.Aligned ⟨b, s.marks t⟩ ⟨b', s.marks u⟩

section Keywords

variable {w : Weave} {s : ScanState} {b b' : Option Char} {c d : Cursor} {t u : Text} {k : Keyword} {ks ends : List Keyword}

theorem before_any {x y : Char} (same : w.same x y) : (some x).any isWordChar = (some y).any isWordChar := by
  rw [Option.any_some, Option.any_some, folds_isWordChar x y (w.letter same)]

theorem marks_literal_cons {s : ScanState} {x : Text} (inert : Inert x) (code : s.mode = .code) (t : Text) :
    ∃ ms, s.marks (literal x ++ t) = ⟨'\'', s.depth, .quoted⟩ :: ms :=
  ⟨_, marks_literal inert code t⟩

theorem Woven.aligned_start (woven : Woven w {} t u) : w.Aligned (Cursor.start t) (Cursor.start u) := .mk rfl rfl woven

namespace Weave.Aligned

theorem text (aligned : w.Aligned c d) : Woven w {} c.text d.text := by
  obtain ⟨-, code, woven⟩ := aligned
  rw [Cursor.text_mk, Cursor.text_mk, ScanState.markText_marks, ScanState.markText_marks]
  exact woven.of_mode code

theorem head?_any {f : Char → Bool} (folds : Folds f) (aligned : w.Aligned c d) :
    c.marks.head?.any (f ·.char) = d.marks.head?.any (f ·.char) := by
  obtain ⟨-, code, woven⟩ := aligned
  have head (t : Text) (s : ScanState) : (s.marks t).head?.any (f ·.char) = t.head?.any f := by
    cases t with
    | nil => rfl
    | cons c t => rw [ScanState.marks, List.head?_cons, Option.any_some, ScanState.mark_char]; rfl
  rw [head, head]
  rcases woven.sameHead.cases with ⟨rfl, rfl⟩ | ⟨x, t', y, u', rfl, rfl, same⟩
  · rfl
  · simpa using folds x y same

theorem skipBlanks (aligned : w.Aligned c d) :
    w.Aligned (Cursor.skipBlanks c.before c.marks) (Cursor.skipBlanks d.before d.marks) := by
  obtain @⟨b, b', s, t, u, before, code, woven⟩ := aligned
  dsimp only
  induction woven generalizing b b' with
  | nil s => exact .mk before code (.nil s)
  | @char s x y t u same dashes rest ih =>
    rw [rest.marks_cons (.of_code code) same, ScanState.marks, Cursor.skipBlanks, Cursor.skipBlanks, ScanState.mark_char,
      folds_isBlank x y (w.letter same)]
    by_cases blank : isBlank y
    · rw [if_pos blank, if_pos blank]
      have plain := isPlain_of_isBlank x (by rwa [folds_isBlank x y (w.letter same)])
      exact ih (before_any same) (by rw [s.next_plain code x t plain]; exact code)
    · rw [if_neg blank, if_neg blank]
      have whole := Woven.char same dashes rest
      have aligned := Weave.Aligned.mk before code whole
      rw [rest.marks_cons (.of_code code) same, ScanState.marks] at aligned
      exact aligned
  | @literal s t u quiet mode rest ih =>
    obtain ⟨ms, left⟩ := marks_literal_cons w.inert mode t
    obtain ⟨ns, right⟩ := marks_literal_cons w.inert' mode u
    have aligned := Weave.Aligned.mk before mode (.literal quiet mode rest)
    have quote : isBlank '\'' = false := by decide
    rw [left, right] at aligned ⊢
    rw [Cursor.skipBlanks, Cursor.skipBlanks, if_neg (by simp [quote]), if_neg (by simp [quote])]
    exact aligned

end Weave.Aligned

/-- Options of which both or none have a value, and related ones. -/
theorem rel_map {α β α' β' : Type} {R : α → β → Prop} {S : α' → β' → Prop} {f : α → α'} {g : β → β'} {o : Option α}
    {o' : Option β} (rel : Option.Rel R o o') (maps : ∀ a b, R a b → S (f a) (g b)) :
    Option.Rel S (o.map f) (o'.map g) := by
  cases rel with
  | some r => exact .some (maps _ _ r)
  | none => exact .none

theorem rel_imp {α β : Type} {R S : α → β → Prop} {o : Option α} {o' : Option β} (rel : Option.Rel R o o')
    (implies : ∀ a b, R a b → S a b) : Option.Rel S o o' := by
  cases rel with
  | some r => exact .some (implies _ _ r)
  | none => exact .none

theorem rel_isSome {α β : Type} {R : α → β → Prop} {o : Option α} {o' : Option β} (rel : Option.Rel R o o') :
    o.isSome = o'.isSome := by cases rel <;> rfl

theorem rel_findSome? {α β γ : Type} {R : β → γ → Prop} {f : α → Option β} {g : α → Option γ} {l : List α}
    (rel : ∀ a ∈ l, Option.Rel R (f a) (g a)) : Option.Rel R (l.findSome? f) (l.findSome? g) := by
  induction l with
  | nil => exact .none
  | cons a l ih =>
    rw [List.findSome?_cons, List.findSome?_cons]
    have here := rel a (by simp)
    generalize f a = x at here
    generalize g a = y at here
    cases here with
    | some r => exact .some r
    | none => exact ih fun a member => rel a (by simp [member])

theorem sameLetter_congr {x y v : Char} (same : sameLetter x y) : sameLetter v x = sameLetter v y := by
  rw [sameLetter, beq_iff_eq] at same
  rw [sameLetter, sameLetter, same]

theorem sameLetter_quote {v : Char} (capital : isCapital v) : sameLetter v '\'' = false := by
  rw [Bool.eq_false_iff]
  intro same
  have letter := isKeywordChar_of_sameLetter v '\'' capital same
  revert letter
  decide

theorem rel_word? {v : Text} (capital : ∀ x ∈ v, isCapital x) (before : b.any isWordChar = b'.any isWordChar)
    (code : s.mode = .code) (woven : Woven w s t u) :
    Option.Rel w.Aligned (Cursor.word? b v (s.marks t)) (Cursor.word? b' v (s.marks u)) := by
  induction v generalizing b b' t u with
  | nil => exact .some (.mk before code woven)
  | cons x v ih =>
    have here := capital x (by simp)
    cases woven with
    | nil => exact .none
    | @char _ y z t u same dashes rest =>
      rw [rest.marks_cons (.of_code code) same, ScanState.marks, Cursor.word?, Cursor.word?, ScanState.mark_char,
        sameLetter_congr (v := x) (w.letter same)]
      by_cases letter : sameLetter x z
      · rw [if_pos letter, if_pos letter]
        have plain := isPlain_of_isKeywordChar y
          (isKeywordChar_of_sameLetter x y here (by rwa [sameLetter_congr (w.letter same)]))
        rw [s.next_plain code y t plain] at rest ⊢
        exact ih (fun a member => capital a (by simp [member])) (before_any same) rest
      · rw [if_neg letter, if_neg letter]
        exact .none
    | @literal _ t u quiet mode rest =>
      obtain ⟨ms, left⟩ := marks_literal_cons w.inert code t
      obtain ⟨ns, right⟩ := marks_literal_cons w.inert' code u
      rw [left, right, Cursor.word?, Cursor.word?, sameLetter_quote here]
      exact .none

theorem rel_words? (capital : ∀ v ∈ k, ∀ x ∈ v, isCapital x) (aligned : w.Aligned c d) :
    Option.Rel w.Aligned (c.words? k) (d.words? k) := by
  induction k generalizing c d with
  | nil => exact .some aligned
  | cons v k ih =>
    obtain @⟨b, b', s, t, u, before, code, woven⟩ := aligned
    have word := rel_word? (capital v (by simp)) before code woven
    cases k with
    | nil => exact word
    | cons v' k =>
      rw [Cursor.words?, Cursor.words?]
      · dsimp only
        generalize Cursor.word? b v (s.marks t) = left at word
        generalize Cursor.word? b' v (s.marks u) = right at word
        cases word with
        | none => exact .none
        | @some c d aligned =>
          have head := aligned.head?_any folds_isBlank
          have skipped := aligned.skipBlanks
          obtain ⟨b, ms⟩ := c
          obtain ⟨b', ns⟩ := d
          cases ms with
          | nil =>
            cases ns with
            | nil => exact .none
            | cons n ns =>
              have blank : isBlank n.char = false := head.symm
              simp only [blank]
              exact .none
          | cons m ms =>
            cases ns with
            | nil =>
              have blank : isBlank m.char = false := head
              simp only [blank]
              exact .none
            | cons n ns =>
              have same : isBlank m.char = isBlank n.char := head
              dsimp only
              rw [same]
              split
              · exact ih (fun x member => capital x (by simp [member])) skipped
              · exact .none
      · simp
      · simp

theorem rel_keyword? (isKeyword : IsKeyword k) (aligned : w.Aligned c d) :
    Option.Rel w.Aligned (c.keyword? k) (d.keyword? k) := by
  have words := rel_words? (fun v member => (isKeyword.2 v member).2) aligned
  obtain @⟨b, b', s, t, u, before, code, woven⟩ := aligned
  rw [Cursor.keyword?, Cursor.keyword?]
  dsimp only
  rw [before]
  split
  · exact .none
  · generalize Cursor.words? ⟨b, s.marks t⟩ k = left at words
    generalize Cursor.words? ⟨b', s.marks u⟩ k = right at words
    cases words with
    | none => exact .none
    | some aligned =>
      rw [Option.filter_some, Option.filter_some, aligned.head?_any folds_isWordChar]
      split
      · exact .some aligned
      · exact .none

theorem keyword?_feed (isKeyword : IsKeyword k) (b : Option Char) {m : Mark} (feed : m.char = '\n') (ms : Marks) :
    Cursor.keyword? ⟨b, m :: ms⟩ k = none := by
  rw [Option.eq_none_iff_forall_ne_some]
  intro after found
  obtain ⟨-, t, rest, text, spells, -⟩ := (Cursor.keyword?_eq_some_iff isKeyword).mp found
  obtain ⟨c, first, letter⟩ := spells.head? isKeyword
  have head : (Cursor.text ⟨b, m :: ms⟩).head? = some '\n' := by rw [Cursor.text_mk, ← feed]; rfl
  rw [text, List.head?_append, first, Option.some_or] at head
  obtain rfl := Option.some.inj head
  revert letter
  decide

theorem rel_topKeyword? (areKeywords : ∀ k ∈ ks, IsKeyword k) (before : b.any isWordChar = b'.any isWordChar)
    (proper : s.Proper) (woven : Woven w s t u) :
    Option.Rel w.Aligned (Cursor.topKeyword? ⟨b, s.marks t⟩ ks) (Cursor.topKeyword? ⟨b', s.marks u⟩ ks) := by
  by_cases code : s.mode = .code
  · have aligned := Weave.Aligned.mk before code woven
    have top : (⟨b, s.marks t⟩ : Cursor).atTop = (⟨b', s.marks u⟩ : Cursor).atTop := by
      cases woven with
      | nil => rfl
      | char same dashes rest => rw [rest.marks_cons proper same]; rfl
      | @literal _ t u quiet mode rest =>
        obtain ⟨ms, left⟩ := marks_literal_cons w.inert code t
        obtain ⟨ns, right⟩ := marks_literal_cons w.inert' code u
        rw [left, right]
        rfl
    rw [Cursor.topKeyword?, Cursor.topKeyword?, top]
    split
    · exact rel_findSome? fun k member => rel_keyword? (areKeywords k member) aligned
    · exact .none
  · cases woven with
    | nil => exact .none
    | @char _ x y t u same dashes rest =>
      rw [rest.marks_cons proper same, ScanState.marks]
      by_cases feed : x = '\n'
      · have feed' : y = '\n' := (eq_iff_of_sameLetter (w.letter same) (by decide)).mp feed
        have none (b : Option Char) (m : Mark) (char : m.char = '\n') (ms : Marks) :
            Cursor.topKeyword? ⟨b, m :: ms⟩ ks = .none := by
          rw [Cursor.topKeyword?]
          split
          · exact List.findSome?_eq_none_iff.mpr fun k member => keyword?_feed (areKeywords k member) b char ms
          · rfl
        rw [none b _ (by rw [ScanState.mark_char, feed]), none b' _ feed']
        exact .none
      · have deep : (s.mark x t).isTop = false := by
          rw [Mark.isTop, Bool.and_eq_false_iff]
          left
          rw [Bool.eq_false_iff]
          exact fun isCode => code (s.mode_of_code x t feed isCode)
        have none (b : Option Char) (m : Mark) (deep : m.isTop = false) (ms : Marks) :
            Cursor.topKeyword? ⟨b, m :: ms⟩ ks = .none := by
          rw [Cursor.topKeyword?, if_neg]
          simpa [Cursor.atTop] using deep
        rw [none b _ deep, none b' _ (by simpa [Mark.isTop, Mark.isCode] using deep)]
        exact .none
    | literal quiet mode rest => exact absurd mode code

theorem seekFrom_quoted {α : Type} {probe : Cursor → Option α} (quoted : ∀ b a n ms, probe ⟨b, ⟨a, n, .quoted⟩ :: ms⟩ = none)
    (x : Text) (n : Nat) (b : Option Char) (ms : Marks) :
    Cursor.seekFrom probe b (x.map (fun a => (⟨a, n, .quoted⟩ : Mark)) ++ ms) =
      (Cursor.seekFrom probe (x.getLast?.or b) ms).map fun r => (x ++ r.1, r.2) := by
  induction x generalizing b with
  | nil => simp
  | cons a x ih =>
    rw [List.map_cons, List.cons_append, Cursor.seekFrom, quoted]
    dsimp only
    rw [ih, Option.map_map]
    have last : (a :: x).getLast?.or b = x.getLast?.or (some a) := by cases x <;> simp [List.getLast?_cons]
    rw [last]
    rfl

/-- Both texts are sought through alike. -/
theorem Woven.seekFrom {α : Type} {R : α → α → Prop} (probe : Cursor → Option α)
    (agree : ∀ {b b' : Option Char} {s : ScanState} {t u : Text}, b.any isWordChar = b'.any isWordChar → s.Proper →
      Woven w s t u → Option.Rel R (probe ⟨b, s.marks t⟩) (probe ⟨b', s.marks u⟩))
    (quoted : ∀ b a n ms, probe ⟨b, ⟨a, n, .quoted⟩ :: ms⟩ = none)
    (before : b.any isWordChar = b'.any isWordChar) (proper : s.Proper) (woven : Woven w s t u) :
    Option.Rel (fun r r' => Woven w s r.1 r'.1 ∧ R r.2 r'.2 ∧ ∃ q, t = r.1 ++ q)
      (Cursor.seekFrom probe b (s.marks t)) (Cursor.seekFrom probe b' (s.marks u)) := by
  induction woven generalizing b b' with
  | nil s => exact .none
  | @char s x y t u same dashes rest ih =>
    have here := agree before proper (.char same dashes rest)
    have later := ih (before_any same) (proper.next x t)
    rw [rest.marks_cons proper same, ScanState.marks] at here ⊢
    rw [Cursor.seekFrom, Cursor.seekFrom, ScanState.mark_char]
    generalize probe ⟨b, s.mark x t :: (s.next x t).marks t⟩ = left at here
    generalize probe ⟨b', _⟩ = right at here
    cases here with
    | some r => exact .some ⟨.nil s, r, x :: t, rfl⟩
    | none =>
      refine rel_map later fun r r' related => ?_
      obtain ⟨passed, answers, q, whole⟩ := related
      exact ⟨.cons_cut (q := q) same (by rwa [← whole]) (by rwa [← whole]), answers, q, by rw [List.cons_append, ← whole]⟩
  | @literal s t u quiet code rest ih =>
    rw [marks_literal w.inert code, marks_literal w.inert' code, seekFrom_quoted quoted, seekFrom_quoted quoted,
      getLast?_literal, getLast?_literal]
    refine rel_map (ih rfl proper) fun r r' related => ?_
    obtain ⟨passed, answers, q, whole⟩ := related
    exact ⟨.literal quiet code passed, answers, q, by rw [List.append_assoc, ← whole]⟩

theorem topKeyword?_quoted (b : Option Char) (a : Char) (n : Nat) (ms : Marks) :
    Cursor.topKeyword? ⟨b, ⟨a, n, .quoted⟩ :: ms⟩ ks = none := rfl

theorem rel_find? (areKeywords : ∀ k ∈ ks, IsKeyword k) (aligned : w.Aligned c d) :
    Option.Rel (fun r r' => Woven w {} r.1 r'.1 ∧ w.Aligned r.2 r'.2) (c.find? ks) (d.find? ks) := by
  obtain ⟨before, code, woven⟩ := aligned
  have found := woven.seekFrom (R := w.Aligned) (·.topKeyword? ks) (rel_topKeyword? areKeywords) topKeyword?_quoted
    before (.of_code code)
  exact rel_imp found fun r r' related => ⟨related.1.of_mode code, related.2.1⟩

theorem Weave.Aligned.upTo (areKeywords : ∀ k ∈ ks, IsKeyword k) (aligned : w.Aligned c d) :
    Woven w {} (c.upTo ks) (d.upTo ks) := by
  have found := rel_find? areKeywords aligned
  rw [Cursor.upTo, Cursor.upTo]
  generalize c.find? ks = left at found
  generalize d.find? ks = right at found
  cases found with
  | some r => exact r.1
  | none => exact aligned.text

theorem rel_section? (isKeyword : IsKeyword k) (areKeywords : ∀ k ∈ ends, IsKeyword k) (woven : Woven w {} t u) :
    Option.Rel (Woven w {}) (section? k ends t) (section? k ends u) :=
  rel_map (rel_find? (by simpa using isKeyword) woven.aligned_start) fun _ _ found => (found.2.upTo areKeywords).trim rfl

theorem rel_afterKeyword? (isKeyword : IsKeyword k) (woven : Woven w {} t u) :
    Option.Rel (Woven w {}) (afterKeyword? k t) (afterKeyword? k u) :=
  rel_map (rel_keyword? isKeyword woven.aligned_start) fun _ _ aligned => aligned.text

theorem Woven.hasKeyword (isKeyword : IsKeyword k) (woven : Woven w {} t u) : hasKeyword k t = hasKeyword k u :=
  rel_isSome (rel_find? (by simpa using isKeyword) woven.aligned_start)

theorem Woven.startsWithKeyword (isKeyword : IsKeyword k) (woven : Woven w {} t u) :
    startsWithKeyword k t = startsWithKeyword k u := rel_isSome (rel_afterKeyword? isKeyword woven)

theorem length_skipBlanks (b : Option Char) (ms : Marks) : (Cursor.skipBlanks b ms).marks.length ≤ ms.length := by
  induction ms generalizing b with
  | nil => exact Nat.le_refl _
  | cons m ms ih =>
    rw [Cursor.skipBlanks]
    split
    · exact (ih _).trans (Nat.le_succ _)
    · exact Nat.le_refl _

theorem length_keyword? (isKeyword : IsKeyword k) {after : Cursor} (found : c.keyword? k = some after) :
    after.marks.length < c.marks.length := by
  obtain ⟨-, v, rest, text, spells, -, rfl⟩ := (Cursor.keyword?_eq_some_iff isKeyword).mp found
  have length := congrArg List.length text
  have full := List.length_pos_iff.mpr (spells.ne_nil isKeyword)
  simp only [Cursor.text, markText, List.length_map, List.length_append] at length
  rw [Cursor.marks_skip, List.length_drop]
  omega

theorem skipRun_empty (areKeywords : ∀ k ∈ ks, IsKeyword k) (empty : c.marks = []) (n : Nat) : c.skipRun ks n = c := by
  cases n with
  | zero => rfl
  | succ n =>
    obtain ⟨b, ms⟩ := c
    obtain rfl : ms = [] := empty
    have none : ks.findSome? (Cursor.skipBlanks b []).keyword? = none := by
      refine List.findSome?_eq_none_iff.mpr fun k member => Option.eq_none_iff_forall_ne_some.mpr fun after found => ?_
      have shorter := length_keyword? (areKeywords k member) found
      simp [Cursor.skipBlanks] at shorter
    rw [Cursor.skipRun]
    dsimp only
    rw [none]

/-- As long as there is a step for each character, their number does not matter. -/
theorem Weave.Aligned.skipRun (areKeywords : ∀ k ∈ ks, IsKeyword k) (aligned : w.Aligned c d) {n n' : Nat}
    (long : c.marks.length ≤ n) (long' : d.marks.length ≤ n') : w.Aligned (c.skipRun ks n) (d.skipRun ks n') := by
  induction n generalizing c d n' with
  | zero =>
    have empty := List.length_eq_zero_iff.mp (Nat.le_zero.mp long)
    have empty' : d.marks = [] := by
      obtain ⟨-, -, woven⟩ := aligned
      cases woven with
      | nil => rfl
      | char => simp [ScanState.marks] at empty
      | literal => simp [ScanState.marks, QueryChain.literal] at empty
    rw [skipRun_empty areKeywords empty, skipRun_empty areKeywords empty']
    exact aligned
  | succ n ih =>
    cases n' with
    | zero =>
      have empty' := List.length_eq_zero_iff.mp (Nat.le_zero.mp long')
      have empty : c.marks = [] := by
        obtain ⟨-, -, woven⟩ := aligned
        cases woven with
        | nil => rfl
        | char => simp [ScanState.marks] at empty'
        | literal => simp [ScanState.marks, QueryChain.literal] at empty'
      rw [skipRun_empty areKeywords empty, skipRun_empty areKeywords empty']
      exact aligned
    | succ n' =>
      have found : Option.Rel (fun a a' => w.Aligned a a' ∧ a.marks.length < c.marks.length ∧
        a'.marks.length < d.marks.length)
          (ks.findSome? (Cursor.skipBlanks c.before c.marks).keyword?)
          (ks.findSome? (Cursor.skipBlanks d.before d.marks).keyword?) := by
        refine rel_findSome? fun k member => ?_
        have rel := rel_keyword? (areKeywords k member) aligned.skipBlanks
        cases left : (Cursor.skipBlanks c.before c.marks).keyword? k with
        | none =>
          rw [left] at rel
          cases right : (Cursor.skipBlanks d.before d.marks).keyword? k with
          | none => exact .none
          | some a' => rw [right] at rel; cases rel
        | some a =>
          rw [left] at rel
          cases right : (Cursor.skipBlanks d.before d.marks).keyword? k with
          | none => rw [right] at rel; cases rel
          | some a' =>
            rw [right] at rel
            cases rel with
            | some aligned' => exact .some ⟨aligned',
                (length_keyword? (areKeywords k member) left).trans_le (length_skipBlanks _ _),
                (length_keyword? (areKeywords k member) right).trans_le (length_skipBlanks _ _)⟩
      rw [Cursor.skipRun, Cursor.skipRun]
      generalize ks.findSome? (Cursor.skipBlanks c.before c.marks).keyword? = left at found
      generalize ks.findSome? (Cursor.skipBlanks d.before d.marks).keyword? = right at found
      cases found with
      | some r => exact ih r.1 (by omega) (by omega)
      | none => exact aligned

theorem Weave.Aligned.skipAny (areKeywords : ∀ k ∈ ks, IsKeyword k) (aligned : w.Aligned c d) :
    w.Aligned (c.skipAny ks) (d.skipAny ks) := aligned.skipRun areKeywords (Nat.le_refl _) (Nat.le_refl _)

end Keywords
end QueryChain
