import QueryChain.Proofs.Statement.Clauses

namespace QueryChain

variable {reserved : ReservedWords} {sql pair column value name : Text} {target main : TableRef}
  {pairs : List Text} {p p' : Progress} {c : Clauses}

section Pairs

def pairIssue? (target : TableRef) (pair : Text) : Option Issue :=
  match assignment? target pair with
  | .ok _ => none
  | .error issue => some issue

/-- Each pair of a list is an assignment or is noted, whatever becomes of the others. -/
theorem readPairs_eq (target : TableRef) (pairs : List Text) (p : Progress) : readPairs target pairs p =
    (pairs.filterMap fun pair => (assignment? target pair).toOption,
      (noteAll (pairs.filterMap (pairIssue? target)) p).2) := by
  induction pairs generalizing p with
  | nil => simp [readPairs, noting_pure, noteAll]
  | cons pair pairs ih =>
    rw [readPairs]
    cases read : assignment? target pair with
    | ok a =>
      dsimp only
      rw [noting_bind, ih]
      simp [read, pairIssue?, Except.toOption, noting_pure]
    | error issue =>
      dsimp only
      rw [noting_bind, ih]
      simp [read, pairIssue?, Except.toOption, note, noteAll]

theorem assignment?_of_parts (parts : cutTop? '=' pair = some (column, value)) (qualified : qualifier? column = some name) :
    assignment? target pair =
      if target.isReferredBy name then
        if columnName column = [] ∨ trim value = [] then
          .error (.malformedClause "SET" pair "expected `column = value`")
        else .ok ⟨columnName column, trim value⟩
      else .error (.malformedClause "SET" pair ("column belongs to `" ++ name ++ "`, not the target table")) := by
  rw [assignment?, parts]
  dsimp only
  rw [qualified]
  cases referred : target.isReferredBy name with
  | true => rw [Option.filter_some, referred]; rfl
  | false => rw [Option.filter_some, referred]; rfl

end Pairs
section Update

def setPairs (sql : Text) : List Text :=
  match updateTarget? sql, setSection? sql with
  | some target, some list => splitTop ',' (numbered (placeholders target) list)
  | _, _ => []

theorem readUpdate_pairs (ok : Gives (readUpdate reserved sql) {} c p') : ∃ main, c.table = some main ∧
    c.assignments = (setPairs sql).filterMap (fun pair => (assignment? main pair).toOption) ∧
    ∀ pair ∈ setPairs sql, ∀ i ∈ pairIssue? main pair, i ∈ p'.issues := by
  obtain ⟨target, list, sources, assignments, conditions, orderBy, limit, p₁, p₂, p₃, p₄, found, -, read, foundSet,
    pairs, -, where_, order, count, rfl⟩ := readUpdate_ok ok
  have named : p₁.issued = placeholders target := by simpa using (advance_readSources read).issued
  have shown : setPairs sql = splitTop ',' (nameParams list p₁).1 := by
    rw [setPairs, found, foundSet, nameParams, named]
  have step : readPairs sources.table (setPairs sql) (nameParams list p₁).2 = (assignments, p₂) := by
    rw [shown]
    exact pairs
  rw [readPairs_eq] at step
  obtain ⟨rfl, noted⟩ := Prod.mk.inj step
  refine ⟨sources.table, rfl, rfl, fun pair member i issue => ?_⟩
  have conditioned := (advance_readWhere sql p₂).issues
  rw [where_] at conditioned
  have ordered := (advance_readOrderBy sql p₃).issues
  rw [order] at ordered
  have counted := (advance_readRowCount sql p₄).issues
  rw [count] at counted
  apply ((conditioned.trans ordered).trans counted).subset
  rw [← noted]
  exact List.mem_append_right _ (List.mem_filterMap.mpr ⟨pair, member, issue⟩)

end Update
section Delete

def deleteTarget? (sql : Text) : Option Text := (deleteParts? sql).bind (·.targets.head?)

theorem readDelete_target (ok : Gives (readDelete reserved sql) p c p') : ∃ main, c.table = some main ∧
    ∀ target ∈ deleteTarget? sql, main.isReferredBy (targetName target) := by
  dsimp only [readDelete] at ok
  obtain ⟨parts, p₀, found, ok⟩ := gives_bind ok
  obtain ⟨there, rfl⟩ := gives_require found
  obtain ⟨body, p₀, foundBody, ok⟩ := gives_bind ok
  obtain ⟨single, ok⟩ := gives_guard ok
  obtain ⟨noUsing, ok⟩ := gives_guard ok
  obtain ⟨sources, p₁, read, ok⟩ := gives_bind ok
  cases foreign : (parts.targets.head?.map targetName).filter (!sources.table.isReferredBy ·) with
  | some name =>
    rw [foreign] at ok
    obtain ⟨_, _, refused, -⟩ := gives_bind ok
    exact absurd refused gives_refuse
  | none =>
    rw [foreign] at ok
    obtain ⟨conditions, p₂, where_, ok⟩ := gives_bind ok
    obtain ⟨orderBy, p₃, order, ok⟩ := gives_bind ok
    obtain ⟨limit, p₄, count, ok⟩ := gives_bind ok
    obtain ⟨rfl, rfl⟩ := gives_pure ok
    refine ⟨sources.table, rfl, fun target member => ?_⟩
    have first : parts.targets.head? = some target := by simpa [deleteTarget?, there] using member
    rw [first] at foreign
    simpa [Option.filter] using foreign

end Delete

/-- The name of a joined table that is not that of the main table. -/
def Clauses.JoinedName (c : Clauses) (name : Text) : Prop :=
  (∃ j ∈ c.joins, sameLetters j.table.reference name) ∧ ∀ t ∈ c.table, ¬sameLetters t.reference name

instance (c : Clauses) (name : Text) : Decidable (c.JoinedName name) := inferInstanceAs (Decidable (_ ∧ _))

/-- The pair is no assignment, and the conversion reports it. -/
def Conversion.Drops (c : Conversion) (main : TableRef) (pair : Text) : Prop :=
  ∃ problem, assignment? main pair = .error (.malformedClause "SET" pair problem) ∧
    .malformedClause "SET" pair problem ∈ c.issues

theorem Converted.issues_eq {c : Conversion} (converted : Converted reserved sql c p) : c.issues = p.issues := by
  rw [Conversion.issues, converted.outcome, Progress.outcome]
  by_cases clean : p.issues = []
  · rw [if_pos clean, clean]
  · rw [if_neg clean]

/-- A column or target that is qualified by the name of a joined table is kept apart from the main table,
    unless that name is the main table's own, which an alias hides: then, and only then, the column is
    taken for one of the main table. -/
theorem joined_names_kept_apart_iff {c : Conversion} (ok : convert reserved sql = .ok c)
    (table : c.clauses.table = some main) :
    (c.kind = .update →
      c.clauses.assignments = (setPairs (normalize sql)).filterMap (fun pair => (assignment? main pair).toOption) ∧
      ∀ pair ∈ setPairs (normalize sql), ∀ column value name, cutTop? '=' pair = some (column, value) →
        qualifier? column = some name → c.clauses.JoinedName name →
        (c.Drops main pair ↔ ¬sameLetters main.table name ∨ columnName column = [] ∨ trim value = [])) ∧
    (c.kind = .delete → ∀ target ∈ deleteTarget? (normalize sql), c.clauses.JoinedName (targetName target) →
      sameLetters main.table (targetName target)) := by
  obtain ⟨p, converted⟩ := convert_ok ok
  refine ⟨fun isUpdate => ?_, fun isDelete target found joined => ?_⟩
  · have read := converted.read
    rw [isUpdate] at read
    obtain ⟨main', same, assignments, noted⟩ := readUpdate_pairs read
    cases table.symm.trans same
    refine ⟨assignments, fun pair member column value name parts qualified joined => ?_⟩
    have apart : sameLetters main.reference name = false := by simpa using joined.2 main table
    have result : assignment? main pair = _ := assignment?_of_parts parts qualified
    have dropped {problem : Text} (refused : assignment? main pair = .error (.malformedClause "SET" pair problem)) :
        c.Drops main pair := by
      refine ⟨problem, refused, ?_⟩
      rw [converted.issues_eq]
      exact noted pair member _ (by simp [pairIssue?, refused])
    rw [TableRef.isReferredBy, apart, Bool.false_or] at result
    by_cases own : sameLetters main.table name
    · rw [if_pos own] at result
      by_cases incomplete : columnName column = [] ∨ trim value = []
      · rw [if_pos incomplete] at result
        exact iff_of_true (dropped result) (.inr incomplete)
      · rw [if_neg incomplete] at result
        refine iff_of_false ?_ (by simpa [own] using incomplete)
        rintro ⟨problem, refused, -⟩
        rw [result] at refused
        cases refused
    · rw [if_neg own] at result
      exact iff_of_true (dropped result) (.inl own)
  · have read := converted.read
    rw [isDelete] at read
    obtain ⟨main', same, referred⟩ := readDelete_target read
    cases table.symm.trans same
    have apart : sameLetters main.reference (targetName target) = false := by simpa using joined.2 main table
    simpa [TableRef.isReferredBy, apart] using referred target found

def shadowingUpdate : Text :=
  "UPDATE users u JOIN accounts users ON u.id = users.id JOIN logs l ON l.u = u.id SET users.a = ?, l.b = 2, u.c = 3"

def shadowingClauses : Clauses where
  kind := .update
  table := some ⟨"users".toList, some "u".toList, true⟩
  joins := [⟨.plain, ⟨"accounts".toList, some "users".toList, true⟩, some "u.id = users.id".toList⟩,
    ⟨.plain, ⟨"logs".toList, some "l".toList, true⟩, some "l.u = u.id".toList⟩]
  assignments := [⟨"a".toList, ":param1".toList⟩, ⟨"c".toList, "3".toList⟩]

/-- A column of the table that goes by `users` is written to the table of that name instead. -/
theorem joined_names_kept_apart_iff_shadowing : ∃ c main, convert default shadowingUpdate = .ok c ∧
    c.clauses = shadowingClauses ∧ c.clauses.table = some main ∧
    c.clauses.JoinedName "users" ∧ ¬c.Drops main "users.a = :param1" ∧
    c.clauses.JoinedName "l" ∧ c.Drops main "l.b = 2" := by
  have chars : shadowingUpdate = _ := String.toList_ofList
  have facts : (convert default shadowingUpdate).map (fun c => (c.kind, c.clauses)) =
      .ok (.update, shadowingClauses) := by
    rw [chars]
    decide +kernel
  have pairs : setPairs (normalize shadowingUpdate) = (["users.a = :param1", "l.b = 2", "u.c = 3"] : List Text) := by
    rw [chars]
    decide +kernel
  have shadowed : shadowingClauses.JoinedName "users" := by decide
  have foreign : shadowingClauses.JoinedName "l" := by decide
  cases ok : convert default shadowingUpdate with
  | error issue =>
    rw [ok] at facts
    cases facts
  | ok c =>
    rw [ok] at facts
    obtain ⟨kind, clauses⟩ := Prod.mk.inj (Except.ok.inj facts)
    have table : c.clauses.table = some ⟨"users".toList, some "u".toList, true⟩ := by rw [clauses]; rfl
    have each := ((joined_names_kept_apart_iff ok table).1 kind).2
    rw [pairs] at each
    refine ⟨c, _, rfl, clauses, table, clauses ▸ shadowed, ?_, clauses ▸ foreign, ?_⟩
    · rw [each "users.a = :param1" (by simp) "users.a ".toList " :param1".toList "users".toList
        (by decide +kernel) (by decide +kernel) (clauses ▸ shadowed)]
      decide +kernel
    · rw [each "l.b = 2" (by simp) "l.b ".toList " 2".toList "l".toList
        (by decide +kernel) (by decide +kernel) (clauses ▸ foreign)]
      decide +kernel

end QueryChain
