import QueryChain.Proofs.Params.Names
import QueryChain.Proofs.Woven.Joins

namespace QueryChain

section Bare

variable {w : Weave} {s : ScanState} {t u : Text}

def Weave.loud (w : Weave) : Weave := { w with quiet := False }

namespace Weave.Bare

theorem loud (bare : w.Bare t u) : Woven w.loud s t u := Weave.Bare.woven (w := w.loud) bare not_false

theorem of_loud (woven : Woven w.loud s t u) : w.Bare t u := woven.bare not_false

theorem trim (bare : w.Bare t u) : w.Bare (trim t) (trim u) := .of_loud (bare.loud.trim (s := {}) rfl)

theorem splitTop {x : Char} (other : x.isAlpha = false) (bare : w.Bare t u) :
    List.Forall₂ w.Bare (splitTop x t) (splitTop x u) :=
  (Woven.splitTop other bare.loud).imp fun _ _ => .of_loud

theorem contains_eq {x : Char} (other : x.isAlpha = false) (bare : w.Bare t u) : t.contains x = u.contains x := by
  induction bare with
  | nil => rfl
  | @cons c d t u same _ ih =>
    have equal : (x == c) = (x == d) := by
      rw [Bool.eq_iff_iff, beq_iff_eq, beq_iff_eq, eq_comm, eq_comm (a := x)]
      exact eq_iff_of_sameLetter (w.letter same) other
    rw [List.contains_cons, List.contains_cons, equal, ih]

theorem dropLast (bare : w.Bare t u) : w.Bare t.dropLast u.dropLast := by
  rw [List.dropLast_eq_take, List.dropLast_eq_take, bare.length_eq]
  exact List.forall₂_take _ bare

theorem tail (bare : w.Bare t u) : w.Bare t.tail u.tail := by
  cases bare with
  | nil => exact .nil
  | cons _ rest => exact rest

theorem unquoted (bare : w.Bare t u) : w.Bare (unquoted t) (unquoted u) := by
  have inner := bare.trim
  have head {x : Char} (other : x.isAlpha = false) := (inner.loud (s := {})).head_iff other
  have last {x : Char} (other : x.isAlpha = false) := (inner.loud (s := {})).getLast_iff other
  simp only [QueryChain.unquoted, inner.length_eq, head (x := '`') (by decide), head (x := '"') (by decide),
    last (x := '`') (by decide), last (x := '"') (by decide)]
  split
  · exact inner.tail.dropLast
  · exact inner

theorem segments (bare : w.Bare t u) : List.Forall₂ w.Bare (segments t) (segments u) :=
  forall₂_map (bare.trim.splitTop (by decide)) fun _ _ => unquoted

theorem joinWith {parts parts' : List Text} (related : List.Forall₂ w.Bare parts parts') (separator : Text) :
    w.Bare (joinWith separator parts) (joinWith separator parts') := by
  have same : w.Bare separator separator := List.forall₂_same.mpr fun c _ => w.refl c
  induction related with
  | nil => exact .nil
  | @cons p p' parts parts' first rest ih =>
    cases rest with
    | nil => simpa [QueryChain.joinWith] using first
    | @cons q q' parts parts' _ _ =>
      have step (x y : Text) (l : List Text) : QueryChain.joinWith separator (x :: y :: l) =
          x ++ (separator ++ QueryChain.joinWith separator (y :: l)) := by
        simp [QueryChain.joinWith, List.intercalate, List.intersperse]
      rw [step, step]
      exact List.rel_append first (List.rel_append same ih)

theorem plainName (bare : w.Bare t u) : w.Bare (plainName t) (plainName u) := joinWith bare.segments _

theorem columnName (bare : w.Bare t u) : w.Bare (columnName t) (columnName u) := by
  have parts := bare.segments
  rw [QueryChain.columnName, QueryChain.columnName]
  generalize QueryChain.segments t = l at parts
  generalize QueryChain.segments u = m at parts
  have last (a b : Text) (ends : w.Bare a b) : w.Bare (l.getLastD a) (m.getLastD b) := by
    induction parts generalizing a b with
    | nil => exact ends
    | cons first _ ih => 
      rw [List.getLastD_cons, List.getLastD_cons]
      exact ih _ _ first
  exact last [] [] .nil

theorem qualifier? (bare : w.Bare t u) : Option.Rel w.Bare (qualifier? t) (qualifier? u) := by
  have parts := bare.segments
  have front : List.Forall₂ w.Bare (QueryChain.segments t).dropLast (QueryChain.segments u).dropLast := by
    rw [List.dropLast_eq_take, List.dropLast_eq_take, parts.length_eq]
    exact List.forall₂_take _ parts
  rw [QueryChain.qualifier?, QueryChain.qualifier?]
  generalize (QueryChain.segments t).dropLast = l at front
  generalize (QueryChain.segments u).dropLast = m at front
  cases front with
  | nil => exact .none
  | cons first rest => exact .some (joinWith (.cons first rest) _)

theorem sameLetters_eq {t' u' : Text} (bare : w.Bare t u) (bare' : w.Bare t' u') : sameLetters t t' = sameLetters u u' := by
  rw [sameLetters, sameLetters, bare.upper_eq, bare'.upper_eq]

theorem acceptsAlias_eq (bare : w.Bare t u) (reserved : ReservedWords) :
    acceptsAlias reserved t = acceptsAlias reserved u := by
  have empty : decide (t ≠ []) = decide (u ≠ []) := by
    rw [decide_eq_decide]
    exact not_congr (bare.loud (s := {})).nil_iff
  rw [acceptsAlias, acceptsAlias, ReservedWords.contains, ReservedWords.contains, bare.upper_eq, empty,
    bare.contains_eq (by decide)]

end Weave.Bare
end Bare
section Words

variable {w : Weave} {s : ScanState} {t u v : Text}

theorem Woven.upper_eq_iff (noQuote : '\'' ∉ v) (woven : Woven w s t u) : upper t = v ↔ upper u = v := by
  induction woven generalizing v with
  | nil => rfl
  | @char s c d t u same _ _ ih =>
    have letter := w.letter same
    rw [sameLetter, beq_iff_eq] at letter
    rw [upper, upper, List.map_cons, List.map_cons, letter]
    cases v with
    | nil => simp
    | cons x v =>
      rw [List.cons.injEq, List.cons.injEq]
      exact and_congr_right fun _ => ih fun member => noQuote (List.mem_cons_of_mem x member)
  | @literal s t u _ _ _ _ =>
    have other (b y : Text) : upper (QueryChain.literal b ++ y) ≠ v := by
      rintro rfl
      exact noQuote (List.mem_map.mpr ⟨'\'', by simp [QueryChain.literal], by decide⟩)
    exact iff_of_false (other _ _) (other _ _)

theorem Woven.upper_prefix (noQuote : '\'' ∉ v) (woven : Woven w s t u) : v <+: upper t ↔ v <+: upper u := by
  induction woven generalizing v with
  | nil => rfl
  | @char s c d t u same _ _ ih =>
    have letter := w.letter same
    rw [sameLetter, beq_iff_eq] at letter
    rw [upper, upper, List.map_cons, List.map_cons, letter]
    cases v with
    | nil => simp
    | cons x v =>
      rw [List.cons_prefix_cons, List.cons_prefix_cons]
      exact and_congr_right fun _ => ih fun member => noQuote (List.mem_cons_of_mem x member)
  | @literal s t u _ _ _ _ =>
    cases v with
    | nil => simp
    | cons x v =>
      have other (b y : Text) : ¬x :: v <+: upper (QueryChain.literal b ++ y) := by
        have whole : upper (QueryChain.literal b ++ y) = '\'' :: upper (b ++ '\'' :: y) := by
          simp [upper, QueryChain.literal, show '\''.toUpper = '\'' by decide]
        rw [whole, List.cons_prefix_cons]
        rintro ⟨rfl, -⟩
        exact noQuote List.mem_cons_self
      exact iff_of_false (other _ _) (other _ _)

theorem Woven.isAs_eq (woven : Woven w s t u) : isAs t = isAs u := by
  rw [isAs, isAs, sameLetters, sameLetters, Bool.eq_iff_iff, beq_iff_eq, beq_iff_eq]
  exact woven.upper_eq_iff (by decide)

end Words
section Answers

variable {α β α' β' : Type} {R : α → β → Prop} {S : α' → β' → Prop}

def Issue.Alike (i j : Issue) : Prop := i.name = j.name

/-- Both answer alike, or decline for the same reason. -/
inductive Agree (R : α → β → Prop) : Except Issue α → Except Issue β → Prop
  | ok {a : α} {b : β} (related : R a b) : Agree R (.ok a) (.ok b)
  | error {i j : Issue} (same : i.Alike j) : Agree R (.error i) (.error j)

theorem Agree.imp {T : α → β → Prop} {x : Except Issue α} {y : Except Issue β} (implies : ∀ a b, R a b → T a b)
    (agree : Agree R x y) : Agree T x y := by
  cases agree with
  | ok related => exact .ok (implies _ _ related)
  | error same => exact .error same

theorem Agree.bind {x : Except Issue α} {y : Except Issue β} {f : α → Except Issue α'} {g : β → Except Issue β'}
    (first : Agree R x y) (later : ∀ a b, R a b → Agree S (f a) (g b)) : Agree S (x >>= f) (y >>= g) := by
  cases first with
  | ok related => exact later _ _ related
  | error same => exact .error same

theorem Agree.mapM {f : α → Except Issue α'} {g : β → Except Issue β'} {l : List α} {m : List β}
    (related : List.Forall₂ R l m) (each : ∀ a b, R a b → Agree S (f a) (g b)) :
    Agree (List.Forall₂ S) (l.mapM f) (m.mapM g) := by
  induction related with
  | nil => exact .ok .nil
  | cons first _ ih =>
    rw [List.mapM_cons, List.mapM_cons]
    exact (each _ _ first).bind fun _ _ head => ih.bind fun _ _ tail => .ok (.cons head tail)

theorem Agree.guard {γ : Type} {c : Prop} [Decidable c] {i j : Issue} {f : γ → Except Issue α'} {g : γ → Except Issue β'}
    {x : Except Issue α'} {y : Except Issue β'} (same : i.Alike j) (later : Agree S x y) :
    Agree S (if c then throw i >>= f else x) (if c then throw j >>= g else y) := by
  split
  · exact .error same
  · exact later

end Answers
section Fragments

variable {w : Weave} {t u : Text} {ts us : List Text} {f f' : TableFragment}

def nameTokens (place : Text) : List Text :=
  match tokens place with
  | [] => []
  | name :: rest => name :: ((aliasCandidate? rest).map Prod.fst).toList

structure Weave.Table (w : Weave) (r r' : TableRef) : Prop where
  table : w.Bare r.table r'.table
  aliasName : Option.Rel w.Bare r.aliasName r'.aliasName
  aliasWritten : r.aliasWritten = r'.aliasWritten

structure Weave.Fragment (w : Weave) (f f' : TableFragment) : Prop where
  table : w.Table f.table f'.table
  trailing : List.Forall₂ (Woven w {}) f.trailing f'.trailing

theorem rel_aliasCandidate? (related : List.Forall₂ (Woven w {}) ts us) :
    Option.Rel (fun r r' => Woven w {} r.1 r'.1 ∧ List.Forall₂ (Woven w {}) r.2 r'.2) (aliasCandidate? ts)
      (aliasCandidate? us) := by
  cases related with
  | nil => exact .none
  | cons first rest =>
    rw [aliasCandidate?.eq_def, aliasCandidate?.eq_def]
    dsimp only
    rw [first.isAs_eq]
    split
    · cases rest with
      | nil => exact .none
      | cons second more => exact .some ⟨second, more⟩
    · exact .some ⟨first, rest⟩

/-- Table places are read alike if the literal is in no name of them. -/
theorem rel_ofText? (reserved : ReservedWords) (woven : Woven w {} t u)
    (names : List.Forall₂ w.Bare (nameTokens t) (nameTokens u)) :
    Option.Rel w.Fragment (TableFragment.ofText? reserved t) (TableFragment.ofText? reserved u) := by
  have related := woven.tokens
  rw [nameTokens, nameTokens] at names
  rw [TableFragment.ofText?, TableFragment.ofText?]
  generalize tokens t = ts at related names
  generalize tokens u = us at related names
  cases related with
  | nil => exact .none
  | @cons name name' rest rest' _ others =>
    have candidates := rel_aliasCandidate? others
    dsimp only at names ⊢
    cases names with
    | cons bare aliases =>
    have head : (name.head? == some '\'') = (name'.head? == some '\'') := by
      rw [Bool.eq_iff_iff, beq_iff_eq, beq_iff_eq]
      exact (bare.loud (s := {})).head_iff (by decide)
    have table (reads : Bool) {o o' : Option Text} (same : Option.Rel w.Bare o o') :
        w.Table ⟨plainName name, o, reads⟩ ⟨plainName name', o', reads⟩ := ⟨bare.plainName, same, rfl⟩
    rw [bare.contains_eq (x := '(') (by decide), head]
    split
    · exact .none
    · generalize aliasCandidate? rest = o at candidates aliases
      generalize aliasCandidate? rest' = o' at candidates aliases
      cases candidates with
      | none => exact .some ⟨table false .none, others⟩
      | @some r r' candidate =>
        obtain ⟨token, more⟩ := r
        obtain ⟨token', more'⟩ := r'
        have same : w.Bare token token' := by
          cases aliases with
          | cons first _ => exact first
        dsimp only
        rw [same.plainName.acceptsAlias_eq reserved]
        split
        · exact .some ⟨table true (.some same.plainName), candidate.2⟩
        · exact .some ⟨table false .none, others⟩

/-- What follows a table is declined or dropped alike. -/
theorem Weave.Fragment.checkTrailing (related : w.Fragment f f') (clause : Text) :
    Agree (Option.Rel Issue.Alike) (f.checkTrailing clause) (f'.checkTrailing clause) := by
  have trailing := related.trailing
  rw [TableFragment.checkTrailing, TableFragment.checkTrailing]
  generalize f.trailing = l at trailing
  generalize f'.trailing = m at trailing
  cases trailing with
  | nil => exact .ok .none
  | @cons first first' _ _ same _ =>
    have hint : upper first ∈ (["USE", "FORCE", "IGNORE"] : List Text) ↔
        upper first' ∈ (["USE", "FORCE", "IGNORE"] : List Text) := by
      simp only [List.mem_cons, List.not_mem_nil, or_false]
      rw [same.upper_eq_iff (by decide), same.upper_eq_iff (by decide), same.upper_eq_iff (by decide)]
    have partition : (upper first = "PARTITION".toList ∨ (after? "PARTITION(" (upper first)).isSome) ↔
        (upper first' = "PARTITION".toList ∨ (after? "PARTITION(" (upper first')).isSome) := by
      have starts (x : Text) : (after? "PARTITION(" x).isSome ↔ "PARTITION(".toList <+: x := by
        rw [after?]
        split
        · rename_i isPrefix
          simpa using isPrefix
        · rename_i isPrefix
          simpa using isPrefix
      rw [starts, starts, same.upper_eq_iff (by decide), same.upper_prefix (by decide)]
    dsimp only
    simp only [hint, partition]
    split
    · exact .error rfl
    · split
      · exact .error rfl
      · exact .ok (.some rfl)

end Fragments
section Joins

variable {w : Weave} {t u : Text} {s s' : JoinSegment}

structure Weave.Join (w : Weave) (j j' : Join) : Prop where
  kind : j.kind = j'.kind
  table : w.Table j.table j'.table
  condition : Option.Rel (Woven w {}) j.condition j'.condition

theorem Weave.Segment.resolve (reserved : ReservedWords) (related : w.Segment s s')
    (names : List.Forall₂ w.Bare (nameTokens s.table) (nameTokens s'.table)) :
    Agree (fun r r' => w.Join r.1 r'.1 ∧ Option.Rel Issue.Alike r.2 r'.2) (s.resolve reserved) (s'.resolve reserved) := by
  obtain ⟨qualifiers, table, condition, usesUsing⟩ := s
  obtain ⟨qualifiers', table', condition', usesUsing'⟩ := s'
  obtain ⟨rfl, tables, conditions, rfl⟩ := related
  have group : (table.head? == some '(') = (table'.head? == some '(') := by
    rw [Bool.eq_iff_iff, beq_iff_eq, beq_iff_eq]
    exact tables.head_iff (by decide)
  have comma : condition.any (hasTop ',') = condition'.any (hasTop ',') := by
    cases conditions with
    | none => rfl
    | some same => exact same.hasTop (by decide)
  rw [JoinSegment.resolve, JoinSegment.resolve]
  dsimp only
  rw [group, comma, tables.hasTop (by decide)]
  refine .guard rfl (.guard rfl (.guard rfl (.guard rfl ?_)))
  have read := rel_ofText? reserved tables names
  generalize TableFragment.ofText? reserved table = o at read
  generalize TableFragment.ofText? reserved table' = o' at read
  cases read with
  | none => exact .error rfl
  | some fragment =>
    refine (fragment.checkTrailing "JOIN").bind fun issue issue' alike => .ok ⟨⟨rfl, fragment.table, ?_⟩, alike⟩
    cases conditions with
    | none => exact .none
    | @some c c' same =>
      have empty : decide (c ≠ []) = decide (c' ≠ []) := by
        rw [decide_eq_decide]
        exact not_congr same.nil_iff
      rw [Option.filter_some, Option.filter_some, empty]
      split
      · exact .some same
      · exact .none

theorem forall₂_filterMap {α β α' β' : Type} {R : α → β → Prop} {S : α' → β' → Prop} {f : α → Option α'} {g : β → Option β'}
    {l : List α} {m : List β} (related : List.Forall₂ R l m) (maps : ∀ a b, R a b → Option.Rel S (f a) (g b)) :
    List.Forall₂ S (l.filterMap f) (m.filterMap g) := by
  induction related with
  | nil => exact .nil
  | @cons a b _ _ first _ ih =>
    rw [List.filterMap_cons, List.filterMap_cons]
    have here := maps a b first
    generalize f a = x at here
    generalize g b = y at here
    cases here with
    | none => exact ih
    | some same => exact .cons same ih

theorem forall₂_both {α β : Type} {R S : α → β → Prop} {l : List α} {m : List β} (first : List.Forall₂ R l m)
    (second : List.Forall₂ S l m) : List.Forall₂ (fun a b => R a b ∧ S a b) l m := by
  induction first with
  | nil => exact .nil
  | cons here _ ih =>
    cases second with
    | cons there rest => exact .cons ⟨here, there⟩ (ih rest)

/-- The joins of a text are resolved alike if the literal is in no name of a table. -/
theorem agree_resolveJoins (reserved : ReservedWords) (woven : Woven w {} t u)
    (names : List.Forall₂ (fun s s' => List.Forall₂ w.Bare (nameTokens s.table) (nameTokens s'.table)) (joinSegments t)
      (joinSegments u)) :
    Agree (fun r r' => List.Forall₂ w.Join r.1 r'.1 ∧ List.Forall₂ Issue.Alike r.2 r'.2) (resolveJoins reserved t)
      (resolveJoins reserved u) := by
  have related := forall₂_both woven.joinSegments names
  refine (Agree.mapM related fun s s' both => both.1.resolve reserved both.2).bind fun l m resolved => .ok ⟨?_, ?_⟩
  · exact forall₂_map resolved fun _ _ both => both.1
  · exact forall₂_filterMap resolved fun _ _ both => both.2

end Joins
end QueryChain
