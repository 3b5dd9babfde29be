import QueryChain.Proofs.Join.Clauses
import QueryChain.Proofs.Woven.Cuts

namespace QueryChain

section LastWord

variable {w : Weave} {s : ScanState} {c : Char} {t u x : Text}

theorem lastBlankWord_parts (t : Text) : dropEndWhile (!isBlank ·) t ++ lastBlankWord t = t :=
  dropEndWhile_append_takeWhile _ t

theorem lastBlankWord_cons (c : Char) (t : Text) : lastBlankWord (c :: t) =
    if dropEndWhile (!isBlank ·) t = [] ∧ isBlank c = false then c :: t else lastBlankWord t := by
  have parts := lastBlankWord_parts (c :: t)
  have rest := lastBlankWord_parts t
  rw [dropEndWhile_cons] at parts
  by_cases empty : dropEndWhile (!isBlank ·) t = []
  · rw [empty, List.nil_append] at rest
    cases blank : isBlank c <;> simpa [empty, blank, rest] using parts
  · rw [if_neg empty, List.cons_append] at parts
    rw [if_neg fun both => empty both.1]
    exact List.append_cancel_left ((List.cons.inj parts).2.trans rest.symm)

theorem lastBlankWord_suffix (x t : Text) : lastBlankWord t <:+ lastBlankWord (x ++ t) := by
  induction x with
  | nil => exact List.suffix_refl _
  | cons c x ih =>
    rw [List.cons_append, lastBlankWord_cons]
    split
    · rename_i whole
      have parts := lastBlankWord_parts (x ++ t)
      rw [whole.1, List.nil_append] at parts
      rw [parts] at ih
      exact ih.trans (List.suffix_cons c _)
    · exact ih

theorem dropEndWhile_append_left {α : Type} {f : α → Bool} {t : List α} (full : dropEndWhile f t ≠ []) (x : List α) :
    dropEndWhile f (x ++ t) = x ++ dropEndWhile f t := by
  induction x with
  | nil => rfl
  | cons a x ih =>
    have some_ : dropEndWhile f (x ++ t) ≠ [] := by
      rw [ih]
      exact List.append_ne_nil_of_right_ne_nil x full
    rw [List.cons_append, dropEndWhile_cons, if_neg some_, ih, List.cons_append]

/-- The word at the end of the text has the literal in it, or the literal stands in front of it. -/
theorem Woven.lastBlankWord (woven : Woven w s t u) :
    '\'' ∈ lastBlankWord t ∧ '\'' ∈ lastBlankWord u ∨ w.Bare (lastBlankWord t) (lastBlankWord u) ∧
      Woven w s (QueryChain.dropEndWhile (!isBlank ·) t) (QueryChain.dropEndWhile (!isBlank ·) u) := by
  induction woven with
  | nil s => exact .inr ⟨.nil, .nil s⟩
  | @char s c d t u same dashes rest ih =>
    rcases ih with ⟨quote, quote'⟩ | ⟨bare, front⟩
    · exact .inl ⟨(lastBlankWord_suffix [c] t).subset quote, (lastBlankWord_suffix [d] u).subset quote'⟩
    · have blank : isBlank c = isBlank d := folds_isBlank c d (w.letter same)
      have parts := lastBlankWord_parts t
      have parts' := lastBlankWord_parts u
      rw [lastBlankWord_cons, lastBlankWord_cons, dropEndWhile_cons, dropEndWhile_cons, ← blank]
      right
      by_cases empty : QueryChain.dropEndWhile (!isBlank ·) t = []
      · have empty' := front.nil_iff.mp empty
        rw [empty, List.nil_append] at parts
        rw [empty', List.nil_append] at parts'
        rw [parts, parts'] at bare ⊢
        rw [if_pos empty, if_pos empty']
        cases space : isBlank c with
        | false =>
          rw [if_pos ⟨empty, rfl⟩, if_pos ⟨empty', rfl⟩]
          exact ⟨.cons same bare, .nil s⟩
        | true =>
          rw [if_neg fun both => Bool.noConfusion both.2, if_neg fun both => Bool.noConfusion both.2]
          refine ⟨bare, .cons_cut (q := t) same ?_ (.nil _)⟩
          rwa [List.nil_append]
      · have full : ¬QueryChain.dropEndWhile (!isBlank ·) u = [] := mt front.nil_iff.mpr empty
        rw [if_neg empty, if_neg full, if_neg fun both => empty both.1, if_neg fun both => full both.1]
        refine ⟨bare, .cons_cut (q := QueryChain.lastBlankWord t) same ?_ ?_⟩
        · rwa [parts]
        · rwa [parts]
  | @literal s t u quiet code rest ih =>
    rcases ih with ⟨quote, quote'⟩ | ⟨bare, front⟩
    · exact .inl ⟨(lastBlankWord_suffix _ t).subset quote, (lastBlankWord_suffix _ u).subset quote'⟩
    · by_cases empty : QueryChain.dropEndWhile (!isBlank ·) t = []
      · have closing (b : Text) {v : Text} (none : QueryChain.dropEndWhile (!isBlank ·) v = []) :
            '\'' ∈ QueryChain.lastBlankWord (QueryChain.literal b ++ v) := by
          have whole : QueryChain.literal b ++ v = '\'' :: b ++ ('\'' :: v) := by simp [QueryChain.literal]
          rw [whole]
          refine (lastBlankWord_suffix _ _).subset ?_
          rw [lastBlankWord_cons, if_pos ⟨none, by decide⟩]
          exact List.mem_cons_self
        exact .inl ⟨closing _ empty, closing _ (front.nil_iff.mp empty)⟩
      · have word (b : Text) {v : Text} (full : QueryChain.dropEndWhile (!isBlank ·) v ≠ []) :
            QueryChain.lastBlankWord (QueryChain.literal b ++ v) = QueryChain.lastBlankWord v := by
          have parts := lastBlankWord_parts (QueryChain.literal b ++ v)
          rw [dropEndWhile_append_left full, List.append_assoc] at parts
          exact List.append_cancel_left ((List.append_cancel_left parts).trans (lastBlankWord_parts v).symm)
        have full := mt front.nil_iff.mpr empty
        rw [word _ empty, word _ full, dropEndWhile_append_left empty, dropEndWhile_append_left full]
        exact .inr ⟨bare, .literal quiet code front⟩

theorem Weave.Bare.upper_eq (bare : w.Bare t u) : upper t = upper u := by
  induction bare with
  | nil => rfl
  | cons same _ ih =>
    have letter := w.letter same
    rw [sameLetter, beq_iff_eq] at letter
    exact congrArg₂ List.cons letter ih

end LastWord
section Qualifiers

variable {w : Weave} {t u : Text}

theorem quoted_not_qualifier {v : Text} (quote : '\'' ∈ v) : upper v ∉ joinQualifiers := by
  have none : ∀ q ∈ joinQualifiers, '\'' ∉ q := by decide
  intro member
  exact none _ member (List.mem_map.mpr ⟨'\'', quote, by decide⟩)

theorem rel_lastQualifier? (woven : Woven w {} t u) :
    Option.Rel (fun r r' => Woven w {} r.1 r'.1 ∧ r.2 = r'.2) (lastQualifier? t) (lastQualifier? u) := by
  have unfolded (t : Text) : lastQualifier? t = if upper (lastBlankWord (trimEnd t)) ∈ joinQualifiers then
      some (dropEndWhile (!isBlank ·) (trimEnd t), upper (lastBlankWord (trimEnd t))) else none := rfl
  rw [unfolded, unfolded]
  rcases woven.trimEnd.lastBlankWord with ⟨quote, quote'⟩ | ⟨bare, front⟩
  · rw [if_neg (quoted_not_qualifier quote), if_neg (quoted_not_qualifier quote')]
    exact .none
  · rw [bare.upper_eq]
    split
    · exact .some ⟨front, rfl⟩
    · exact .none

theorem Woven.dropQualifiers (woven : Woven w {} t u) (found : List Text) {n n' : Nat} (long : t.length ≤ n)
    (long' : u.length ≤ n') : Woven w {} (dropQualifiers n t found).1 (dropQualifiers n' u found).1 ∧
      (dropQualifiers n t found).2 = (dropQualifiers n' u found).2 := by
  have nothing (m : Nat) : QueryChain.dropQualifiers m [] found = ([], found) := by
    cases m with
    | zero => rfl
    | succ m => rfl
  induction n generalizing t u found n' with
  | zero =>
    obtain rfl := List.eq_nil_of_length_eq_zero (Nat.le_zero.mp long)
    obtain rfl := woven.nil_iff.mp rfl
    rw [nothing, nothing]
    exact ⟨.nil _, rfl⟩
  | succ n ih =>
    cases n' with
    | zero =>
      obtain rfl := List.eq_nil_of_length_eq_zero (Nat.le_zero.mp long')
      obtain rfl := woven.nil_iff.mpr rfl
      rw [nothing, nothing]
      exact ⟨.nil _, rfl⟩
    | succ n' =>
      have last := rel_lastQualifier? woven
      rw [QueryChain.dropQualifiers, QueryChain.dropQualifiers]
      cases left : lastQualifier? t with
      | none =>
        rw [left] at last
        generalize lastQualifier? u = right at last
        cases last
        exact ⟨woven, rfl⟩
      | some r =>
        cases right : lastQualifier? u with
        | none =>
          rw [left, right] at last
          cases last
        | some r' =>
          have shorter := (length_lastQualifier? left).1
          have shorter' := (length_lastQualifier? right).1
          rw [left, right] at last
          obtain ⟨front, word⟩ := r
          obtain ⟨front', word'⟩ := r'
          cases last with
          | some related =>
            obtain ⟨fronts, rfl⟩ := related
            exact ih fronts (word :: found) (by omega) (by omega) fun m => by cases m <;> rfl

theorem Woven.trailingQualifiers (woven : Woven w {} t u) :
    Woven w {} (trailingQualifiers t).1 (trailingQualifiers u).1 ∧
      (trailingQualifiers t).2 = (trailingQualifiers u).2 :=
  woven.dropQualifiers [] (Nat.le_refl _) (Nat.le_refl _)

end Qualifiers
section Joins

variable {w : Weave} {t u : Text}

def Weave.JoinText (w : Weave) (j j' : JoinText) : Prop := j.qualifiers = j'.qualifiers ∧ Woven w {} j.body j'.body

theorem Woven.assignQualifiers {parts parts' : List (JoinWord × Text)} (woven : Woven w {} t u)
    (related : List.Forall₂ (fun p p' => p.1 = p'.1 ∧ Woven w {} p.2 p'.2) parts parts') :
    Woven w {} (assignQualifiers t parts).1 (assignQualifiers u parts').1 ∧
      List.Forall₂ w.JoinText (assignQualifiers t parts).2 (assignQualifiers u parts').2 := by
  induction related generalizing t u with
  | nil => exact ⟨woven, .nil⟩
  | @cons p p' parts parts' first _ ih =>
    obtain ⟨word, behind⟩ := p
    obtain ⟨word', behind'⟩ := p'
    obtain ⟨rfl, body⟩ := first
    obtain ⟨front, joins⟩ := ih body
    cases word with
    | join => exact ⟨woven.trailingQualifiers.1, .cons ⟨woven.trailingQualifiers.2, front⟩ joins⟩
    | straightJoin => exact ⟨woven, .cons ⟨rfl, front⟩ joins⟩

theorem Woven.cutJoins (woven : Woven w {} t u) :
    Woven w {} (cutJoins t).1 (cutJoins u).1 ∧ List.Forall₂ w.JoinText (cutJoins t).2 (cutJoins u).2 := by
  have noted : Noted w (fun k => (JoinWord.word k).length) {} (Cursor.annotate joinWordAt? none (scan t))
      (Cursor.annotate joinWordAt? none (scan u)) :=
    woven.noted isKeyword_joinWord (fun _ => rfl) rfl proper_start
  obtain ⟨head, parts, -⟩ := noted.cutWords (fun k => by cases k <;> decide) 0 nofun
  exact head.assignQualifiers parts

theorem Woven.mainTables (woven : Woven w {} t u) : Woven w {} (mainTables t) (mainTables u) := woven.cutJoins.1.trim rfl

structure Weave.Segment (w : Weave) (j j' : JoinSegment) : Prop where
  qualifiers : j.qualifiers = j'.qualifiers
  table : Woven w {} j.table j'.table
  condition : Option.Rel (Woven w {}) j.condition j'.condition
  usesUsing : j.usesUsing = j'.usesUsing

theorem Weave.JoinText.segment {j j' : QueryChain.JoinText} (related : w.JoinText j j') :
    w.Segment j.segment j'.segment where
  qualifiers := related.1
  table := ((related.2.aligned_start.upTo (by decide)).trim rfl)
  condition := rel_map (rel_find? (by decide) related.2.aligned_start) fun _ _ found => found.2.text.trim rfl
  usesUsing := related.2.hasKeyword (by decide)

theorem Woven.joinSegments (woven : Woven w {} t u) : List.Forall₂ w.Segment (joinSegments t) (joinSegments u) :=
  forall₂_map woven.cutJoins.2 fun _ _ related => related.segment

end Joins
end QueryChain
