import QueryChain.Proofs.Params.Numbering
import QueryChain.Statement.Read

namespace QueryChain

/-- The step succeeds with `a` and leaves the progress `p'`. -/
def Gives {α : Type} (x : Reading α) (p : Progress) (a : α) (p' : Progress) : Prop :=
  x.run p = (.ok a, p')

section Run

variable {α β : Type} {p p' : Progress} {a b : α}

theorem run_bind (x : Reading β) (f : β → Reading α) (p : Progress) :
    (x >>= f).run p = match x.run p with
      | (.ok b, p₁) => (f b).run p₁
      | (.error i, p₁) => (.error i, p₁) := by
  rw [ExceptT.run_bind]
  rcases ran : x.run p with ⟨i | b, p₁⟩
  · simp only [bind, StateT.bind, ran]
    rfl
  · simp only [bind, StateT.bind, ran]

theorem gives_bind {x : Reading β} {f : β → Reading α} (ok : Gives (x >>= f) p a p') :
    ∃ b p₁, Gives x p b p₁ ∧ Gives (f b) p₁ a p' := by
  rw [Gives, run_bind] at ok
  rcases ran : x.run p with ⟨i | b, p₁⟩
  · rw [ran] at ok
    cases ok
  · rw [ran] at ok
    exact ⟨b, p₁, ran, ok⟩

theorem run_bind_congr {x y : Reading β} {f g : β → Reading α} (first : x.run p = y.run p)
    (rest : ∀ b p₁, Gives x p b p₁ → (f b).run p₁ = (g b).run p₁) : (x >>= f).run p = (y >>= g).run p := by
  rw [run_bind, run_bind, ← first]
  rcases ran : x.run p with ⟨i | b, p₁⟩
  · rfl
  · exact rest b p₁ ran

theorem gives_pure (ok : Gives (pure b) p a p') : b = a ∧ p = p' := by
  cases ok
  exact ⟨rfl, rfl⟩

theorem gives_refuse {i : Issue} : ¬Gives (refuse i) p a p' := by
  intro ok
  cases ok

theorem gives_require {x : Option α} {i : Issue} (ok : Gives (require x i) p a p') :
    x = some a ∧ p = p' := by
  cases x with
  | none => exact absurd ok gives_refuse
  | some b =>
    obtain ⟨rfl, rfl⟩ := gives_pure ok
    exact ⟨rfl, rfl⟩

/-- A step behind a check that refuses. -/
theorem gives_guard {c : Prop} [Decidable c] {i : Issue} {f : Unit → Reading α}
    (ok : Gives (if c then refuse i >>= f else f ()) p a p') : ¬c ∧ Gives (f ()) p a p' := by
  by_cases refused : c
  · rw [if_pos refused] at ok
    obtain ⟨_, _, none, -⟩ := gives_bind ok
    exact absurd none gives_refuse
  · rw [if_neg refused] at ok
    exact ⟨refused, ok⟩

theorem gives_lift {y : Noting α} (ok : Gives (liftM y) p a p') : y p = (a, p') := by
  have ran : (liftM y : Reading α).run p = (.ok (y p).1, (y p).2) := rfl
  rw [Gives, ran] at ok
  cases ok
  rfl

end Run

theorem numberedAll_append (issued : Nat) (ts us : List Text) :
    numberedAll issued (ts ++ us) =
      numberedAll issued ts ++ numberedAll (issued + (ts.map placeholders).sum) us := by
  induction ts generalizing issued with
  | nil => rfl
  | cons t ts ih =>
    simp only [List.cons_append, numberedAll, ih, List.map_cons, List.sum_cons, Nat.add_assoc]

@[simp] theorem length_numberedAll (issued : Nat) (ts : List Text) :
    (numberedAll issued ts).length = ts.length := by
  induction ts generalizing issued with
  | nil => rfl
  | cons t ts ih => simp [numberedAll, ih]

/-- From one progress to the next just these texts were handed over to have their parameters named,
    and what was noted before stays noted. -/
structure Advance (texts : List Text) (p p' : Progress) : Prop where
  named : p'.named = p.named ++ texts.zip (numberedAll p.issued texts)
  issued : p'.issued = p.issued + (texts.map placeholders).sum
  issues : p.issues <+: p'.issues

namespace Advance

variable {p p₁ p' : Progress} {ts us : List Text} {t : Text} {i : Issue} {is : List Issue}

theorem refl (p : Progress) : Advance [] p p := ⟨by simp, by simp, List.prefix_refl _⟩

theorem trans (first : Advance ts p p₁) (second : Advance us p₁ p') : Advance (ts ++ us) p p' := by
  refine ⟨?_, ?_, first.issues.trans second.issues⟩
  · rw [second.named, first.named, first.issued, numberedAll_append,
      List.zip_append (by simp), List.append_assoc]
  · rw [second.issued, first.issued, List.map_append, List.sum_append, Nat.add_assoc]

theorem nameParams (t : Text) (p : Progress) : Advance [t] p (nameParams t p).2 :=
  ⟨rfl, by simp [QueryChain.nameParams], List.prefix_refl _⟩

theorem note (i : Issue) (p : Progress) : Advance [] p (note i p).2 :=
  ⟨by simp [QueryChain.note], by simp [QueryChain.note], List.prefix_append _ _⟩

theorem noteAll (is : List Issue) (p : Progress) : Advance [] p (noteAll is p).2 :=
  ⟨by simp [QueryChain.noteAll], by simp [QueryChain.noteAll], List.prefix_append _ _⟩

/-- Where nothing is noted at the end, nothing was on the way. -/
theorem clean (advance : Advance ts p p') (none : p'.issues = []) : p.issues = [] :=
  List.prefix_nil.mp (none ▸ advance.issues)

end Advance

theorem noting_bind {α β : Type} (x : Noting β) (f : β → Noting α) (p : Progress) :
    (x >>= f) p = f (x p).1 (x p).2 := rfl

theorem noting_pure {α : Type} (a : α) (p : Progress) : (pure a : Noting α) p = (a, p) := rfl

section Refinement

variable (sql : Text) (p : Progress)

theorem readWhere_eq_none (missing : whereSection? sql = none) : readWhere sql p = ([], p) := by
  rw [readWhere, missing]
  rfl

theorem readWhere_eq_some {body : Text} (found : whereSection? sql = some body) : readWhere sql p =
    (splitConditions (nameParams (normalize body) p).1,
      if splitConditions (nameParams (normalize body) p).1 = [] then
        (note (.malformedClause "WHERE" sql "empty condition") (nameParams (normalize body) p).2).2
      else (nameParams (normalize body) p).2) := by
  rw [readWhere, found]
  dsimp only
  rw [noting_bind]
  by_cases empty : splitConditions (nameParams (normalize body) p).1 = []
  · rw [if_pos empty, if_pos empty]
    rfl
  · rw [if_neg empty, if_neg empty]
    rfl

theorem advance_readWhere :
    Advance ((whereSection? sql).map normalize).toList p (readWhere sql p).2 := by
  cases found : whereSection? sql with
  | none =>
    rw [readWhere_eq_none sql p found]
    exact .refl p
  | some body =>
    rw [readWhere_eq_some sql p found]
    have named := Advance.nameParams (normalize body) p
    by_cases empty : splitConditions (nameParams (normalize body) p).1 = []
    · rw [if_pos empty]
      exact named.trans (.note _ _)
    · rw [if_neg empty]
      exact named

theorem advance_readGroupBy : Advance (groupBySection? sql).toList p (readGroupBy sql p).2 := by
  rw [readGroupBy]
  cases groupBySection? sql with
  | none => exact .refl p
  | some body => exact .nameParams body p

theorem advance_readHaving : Advance (havingSection? sql).toList p (readHaving sql p).2 := by
  rw [readHaving]
  cases havingSection? sql with
  | none => exact .refl p
  | some body => exact .nameParams body p

theorem advance_readOrderBy : Advance (orderBySection? sql).toList p (readOrderBy sql p).2 := by
  rw [readOrderBy]
  cases orderBySection? sql with
  | none => exact .refl p
  | some body => exact .nameParams body p

theorem advance_readLimitSection :
    Advance (limitSection? sql).toList p (readLimitSection sql p).2 := by
  rw [readLimitSection]
  cases limitSection? sql with
  | none => exact .refl p
  | some body =>
    have named := Advance.nameParams body p
    dsimp only
    rw [noting_bind]
    rcases limit? (nameParams body p).1 with _ | ⟨offset, count⟩
    · exact named.trans (.note _ _)
    · exact named

theorem advance_readOffsetSection (offset : Option Bound) :
    Advance (offsetSection? sql).toList p (readOffsetSection offset sql p).2 := by
  rw [readOffsetSection]
  cases offsetSection? sql with
  | none => exact .refl p
  | some body =>
    have named := Advance.nameParams body p
    dsimp only
    rw [noting_bind]
    rcases bound? (nameParams body p).1 with _ | bound
    · exact named.trans (.note _ _)
    · exact named

theorem advance_readLimitAndOffset :
    Advance ((limitSection? sql).toList ++ (offsetSection? sql).toList) p
      (readLimitAndOffset sql p).2 := by
  rw [readLimitAndOffset, noting_bind]
  exact (advance_readLimitSection sql p).trans (advance_readOffsetSection sql _ _)

theorem advance_readRowCount : Advance (limitSection? sql).toList p (readRowCount sql p).2 := by
  have counted := advance_readLimitSection sql p
  rw [readRowCount, noting_bind]
  by_cases offset : (readLimitSection sql p).1.2.isSome
  · simp only [offset, if_true]
    have noted := counted.trans (.note (.malformedClause "LIMIT" ((limitSection? sql).getD [])
      "row offset is not allowed here") _)
    rw [List.append_nil] at noted
    exact noted
  · simp only [offset]
    exact counted

end Refinement

section Tables

variable {reserved : ReservedWords} {clause t : Text} {p p' : Progress}

theorem readTable_ok {table : TableRef} (ok : Gives (readTable reserved clause t) p table p') :
    ∃ parsed issue, TableFragment.ofText? reserved t = some parsed ∧ parsed.table = table ∧
      parsed.checkTrailing clause = .ok issue ∧ p' = (noteAll issue.toList p).2 := by
  dsimp only [readTable] at ok
  obtain ⟨-, ok⟩ := gives_guard ok
  obtain ⟨parsed, p₁, read, ok⟩ := gives_bind ok
  obtain ⟨parses, rfl⟩ := gives_require read
  cases trailing : parsed.checkTrailing clause with
  | error issue =>
    rw [trailing] at ok
    obtain ⟨_, _, refused, -⟩ := gives_bind ok
    exact absurd refused gives_refuse
  | ok issue =>
    rw [trailing] at ok
    obtain ⟨_, p₂, noted, ok⟩ := gives_bind ok
    have step := gives_lift noted
    obtain ⟨rfl, rfl⟩ := gives_pure ok
    exact ⟨parsed, issue, parses, rfl, trailing, by rw [step]⟩

theorem advance_readTable {table : TableRef} (ok : Gives (readTable reserved clause t) p table p') :
    Advance [] p p' := by
  obtain ⟨parsed, issue, -, -, -, rfl⟩ := readTable_ok ok
  exact .noteAll _ p

theorem advance_readTables {fragments : List Text} {tables : List TableRef}
    (ok : Gives (readTables reserved clause fragments) p tables p') : Advance [] p p' := by
  induction fragments generalizing p tables with
  | nil =>
    obtain ⟨rfl, rfl⟩ := gives_pure ok
    exact .refl _
  | cons fragment fragments ih =>
    rw [readTables] at ok
    obtain ⟨table, p₁, first, ok⟩ := gives_bind ok
    obtain ⟨more, p₂, rest, ok⟩ := gives_bind ok
    obtain ⟨rfl, rfl⟩ := gives_pure ok
    exact (advance_readTable first).trans (ih rest)

theorem readSources_ok {many : Bool} {sources : Sources}
    (ok : Gives (readSources reserved clause many t) p sources p') :
    ∃ p₁ issues,
      ¬((splitTop ',' (mainTables (nameParams t p).1)).length > 1 && !many) ∧
      Gives (readTables reserved clause (splitTop ',' (mainTables (nameParams t p).1)))
        (nameParams t p).2 (sources.table :: sources.extraTables) p₁ ∧
      resolveJoins reserved (nameParams t p).1 = .ok (sources.joins, issues) ∧
      ¬((splitTop ',' (mainTables (nameParams t p).1)).length > 1 && !sources.joins.isEmpty) ∧
      p' = (noteAll issues p₁).2 := by
  dsimp only [readSources] at ok
  obtain ⟨named, p₀, step, ok⟩ := gives_bind ok
  have names := gives_lift step
  obtain ⟨single, ok⟩ := gives_guard ok
  obtain ⟨tables, p₁, read, ok⟩ := gives_bind ok
  rw [names]
  cases tables with
  | nil => exact absurd ok gives_refuse
  | cons table extraTables =>
    dsimp only at ok
    cases resolved : resolveJoins reserved named with
    | error issue =>
      rw [resolved] at ok
      exact absurd ok gives_refuse
    | ok joinsAndIssues =>
      obtain ⟨joins, issues⟩ := joinsAndIssues
      rw [resolved] at ok
      obtain ⟨mixed, ok⟩ := gives_guard ok
      obtain ⟨_, p₂, noted, ok⟩ := gives_bind ok
      have last := gives_lift noted
      obtain ⟨rfl, rfl⟩ := gives_pure ok
      exact ⟨p₁, issues, single, read, rfl, mixed, by rw [last]⟩

theorem advance_readSources {many : Bool} {sources : Sources}
    (ok : Gives (readSources reserved clause many t) p sources p') : Advance [t] p p' := by
  obtain ⟨p₁, issues, -, read, -, -, rfl⟩ := readSources_ok ok
  have named := Advance.nameParams t p
  have tables := named.trans (advance_readTables read)
  exact tables.trans (.noteAll issues p₁)

theorem advance_readPairs (target : TableRef) (pairs : List Text) (p : Progress) :
    Advance [] p (readPairs target pairs p).2 := by
  induction pairs generalizing p with
  | nil => exact .refl p
  | cons pair pairs ih =>
    rw [readPairs]
    cases assignment? target pair with
    | error issue => exact (Advance.note issue p).trans (ih _)
    | ok a => exact ih p

theorem advance_readAssignments (target : TableRef) (list : Text) (p : Progress) :
    Advance [list] p (readAssignments target list p).2 := by
  have named := Advance.nameParams list p
  exact named.trans (advance_readPairs target _ _)

end Tables
end QueryChain
