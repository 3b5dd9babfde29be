import QueryChain.Conversion
import QueryChain.Proofs.Statement.Reading

namespace QueryChain

variable {reserved : ReservedWords} {sql : Text} {p p' : Progress} {c : Clauses}

section Select

theorem readFrom_ok {sources : Option Sources} (ok : Gives (readFrom reserved sql) p sources p') :
    (fromSection? sql = none ∧ sources = none ∧ p = p') ∨
      ∃ body s, fromSection? sql = some body ∧ sources = some s ∧
        Gives (readSources reserved "FROM clause" true body) p s p' := by
  rw [readFrom] at ok
  cases found : fromSection? sql with
  | none =>
    rw [found] at ok
    obtain ⟨rfl, rfl⟩ := gives_pure ok
    exact .inl ⟨rfl, rfl, rfl⟩
  | some body =>
    rw [found] at ok
    obtain ⟨s, p₁, read, ok⟩ := gives_bind ok
    obtain ⟨rfl, rfl⟩ := gives_pure ok
    exact .inr ⟨body, s, rfl, rfl, read⟩

theorem advance_readFrom {sources : Option Sources} (ok : Gives (readFrom reserved sql) p sources p') :
    Advance (fromSection? sql).toList p p' := by
  rcases readFrom_ok ok with ⟨missing, -, rfl⟩ | ⟨body, s, found, -, read⟩
  · rw [missing]
    exact .refl p
  · rw [found]
    exact advance_readSources read

/-- What a query is read into, clause by clause. -/
theorem readSelect_ok (ok : Gives (readSelect reserved sql) p c p') :
    ∃ distinct list sources conditions groupBy having orderBy limit offset p₁ p₂ p₃ p₄ p₅,
      lockingKeywords.find? (hasKeyword · sql) = none ∧
      selectSection? sql = some (distinct, list) ∧ list ≠ [] ∧
      Gives (readFrom reserved sql) (nameParams list p).2 sources p₁ ∧
      readWhere sql p₁ = (conditions, p₂) ∧ readGroupBy sql p₂ = (groupBy, p₃) ∧
      readHaving sql p₃ = (having, p₄) ∧ readOrderBy sql p₄ = (orderBy, p₅) ∧
      readLimitAndOffset sql p₅ = ((limit, offset), p') ∧
      c = {
        kind := .select
        distinct
        fields := splitTop ',' (nameParams list p).1
        table := sources.map (·.table)
        extraTables := (sources.map (·.extraTables)).getD []
        joins := (sources.map (·.joins)).getD []
        conditions, groupBy, having, orderBy, limit, offset } := by
  dsimp only [readSelect] at ok
  cases locking : lockingKeywords.find? (hasKeyword · sql) with
  | some keyword =>
    rw [locking] at ok
    obtain ⟨_, _, refused, -⟩ := gives_bind ok
    exact absurd refused gives_refuse
  | none =>
    rw [locking] at ok
    obtain ⟨⟨distinct, list⟩, p₀, found, ok⟩ := gives_bind ok
    obtain ⟨section_, rfl⟩ := gives_require found
    obtain ⟨there, full⟩ := Option.filter_eq_some_iff.mp section_
    obtain ⟨fields, p₀, step, ok⟩ := gives_bind ok
    have names : nameParams list p = (fields, p₀) := gives_lift step
    obtain ⟨sources, p₁, from_, ok⟩ := gives_bind ok
    obtain ⟨conditions, p₂, where_, ok⟩ := gives_bind ok
    obtain ⟨groupBy, p₃, group, ok⟩ := gives_bind ok
    obtain ⟨having, p₄, have_, ok⟩ := gives_bind ok
    obtain ⟨orderBy, p₅, order, ok⟩ := gives_bind ok
    obtain ⟨⟨limit, offset⟩, p₆, bounds, ok⟩ := gives_bind ok
    obtain ⟨rfl, rfl⟩ := gives_pure ok
    refine ⟨distinct, list, sources, conditions, groupBy, having, orderBy, limit, offset, p₁, p₂, p₃,
      p₄, p₅, rfl, there, by simpa using full, ?_, gives_lift where_, gives_lift group,
      gives_lift have_, gives_lift order, gives_lift bounds, ?_⟩
    · rwa [names]
    · rw [names]

theorem advance_readSelect (ok : Gives (readSelect reserved sql) p c p') :
    ∃ distinct list, selectSection? sql = some (distinct, list) ∧
      Advance ([some list, fromSection? sql, (whereSection? sql).map normalize, groupBySection? sql,
        havingSection? sql, orderBySection? sql, limitSection? sql, offsetSection? sql].flatMap Option.toList)
        p p' := by
  obtain ⟨distinct, list, sources, conditions, groupBy, having, orderBy, limit, offset, p₁, p₂, p₃,
    p₄, p₅, -, found, -, from_, where_, group, have_, order, bounds, -⟩ := readSelect_ok ok
  refine ⟨distinct, list, found, ?_⟩
  have steps := (Advance.nameParams list p).trans (advance_readFrom from_)
  have first := advance_readWhere sql p₁
  have second := advance_readGroupBy sql p₂
  have third := advance_readHaving sql p₃
  have fourth := advance_readOrderBy sql p₄
  have fifth := advance_readLimitAndOffset sql p₅
  rw [where_] at first
  rw [group] at second
  rw [have_] at third
  rw [order] at fourth
  rw [bounds] at fifth
  have all := ((((steps.trans first).trans second).trans third).trans fourth).trans fifth
  simpa only [List.flatMap_cons, List.flatMap_nil, List.append_assoc, List.append_nil,
    Option.toList_some] using all

end Select
section Mutations

/-- What an update is read into, clause by clause. -/
theorem readUpdate_ok (ok : Gives (readUpdate reserved sql) p c p') :
    ∃ target list sources assignments conditions orderBy limit p₁ p₂ p₃ p₄,
      updateTarget? sql = some target ∧ target ≠ [] ∧
      Gives (readSources reserved "UPDATE target" false target) p sources p₁ ∧
      setSection? sql = some list ∧ readAssignments sources.table list p₁ = (assignments, p₂) ∧
      assignments ≠ [] ∧ readWhere sql p₂ = (conditions, p₃) ∧
      readOrderBy sql p₃ = (orderBy, p₄) ∧ readRowCount sql p₄ = (limit, p') ∧
      c = {
        kind := .update
        table := some sources.table
        joins := sources.joins
        assignments, conditions, orderBy, limit } := by
  dsimp only [readUpdate] at ok
  obtain ⟨target, p₀, found, ok⟩ := gives_bind ok
  obtain ⟨section_, rfl⟩ := gives_require found
  obtain ⟨there, full⟩ := Option.filter_eq_some_iff.mp section_
  obtain ⟨sources, p₁, read, ok⟩ := gives_bind ok
  obtain ⟨list, p₀, foundSet, ok⟩ := gives_bind ok
  obtain ⟨thereSet, rfl⟩ := gives_require foundSet
  obtain ⟨assignments, p₂, pairs, ok⟩ := gives_bind ok
  obtain ⟨some_, ok⟩ := gives_guard ok
  obtain ⟨conditions, p₃, where_, ok⟩ := gives_bind ok
  obtain ⟨orderBy, p₄, order, ok⟩ := gives_bind ok
  obtain ⟨limit, p₅, count, ok⟩ := gives_bind ok
  obtain ⟨rfl, rfl⟩ := gives_pure ok
  exact ⟨target, list, sources, assignments, conditions, orderBy, limit, p₁, p₂, p₃, p₄, there,
    by simpa using full, read, thereSet, gives_lift pairs, some_, gives_lift where_,
    gives_lift order, gives_lift count, rfl⟩

theorem advance_readUpdate (ok : Gives (readUpdate reserved sql) p c p') :
    ∃ target list, updateTarget? sql = some target ∧ setSection? sql = some list ∧
      Advance (target :: [some list, (whereSection? sql).map normalize, orderBySection? sql,
        limitSection? sql].flatMap Option.toList) p p' := by
  obtain ⟨target, list, sources, assignments, conditions, orderBy, limit, p₁, p₂, p₃, p₄, found, -,
    read, foundSet, pairs, -, where_, order, count, -⟩ := readUpdate_ok ok
  refine ⟨target, list, found, foundSet, ?_⟩
  have first := advance_readAssignments sources.table list p₁
  have second := advance_readWhere sql p₂
  have third := advance_readOrderBy sql p₃
  have fourth := advance_readRowCount sql p₄
  rw [pairs] at first
  rw [where_] at second
  rw [order] at third
  rw [count] at fourth
  have all := ((((advance_readSources read).trans first).trans second).trans third).trans fourth
  simpa only [List.flatMap_cons, List.flatMap_nil, List.append_assoc, List.append_nil,
    Option.toList_some, List.cons_append, List.nil_append] using all

/-- What a deletion is read into, clause by clause. -/
theorem readDelete_ok (ok : Gives (readDelete reserved sql) p c p') :
    ∃ parts body sources conditions orderBy limit p₁ p₂ p₃,
      deleteParts? sql = some parts ∧ parts.source = some body ∧ body ≠ [] ∧
      ¬parts.targets.length > 1 ∧ ¬hasKeyword ["USING"] (mainTables body) ∧
      Gives (readSources reserved "DELETE statement" false body) p sources p₁ ∧
      readWhere sql p₁ = (conditions, p₂) ∧ readOrderBy sql p₂ = (orderBy, p₃) ∧
      readRowCount sql p₃ = (limit, p') ∧
      c = {
        kind := .delete
        table := some sources.table
        joins := sources.joins
        conditions, orderBy, limit } := by
  dsimp only [readDelete] at ok
  obtain ⟨parts, p₀, found, ok⟩ := gives_bind ok
  obtain ⟨there, rfl⟩ := gives_require found
  obtain ⟨body, p₀, foundBody, ok⟩ := gives_bind ok
  obtain ⟨section_, rfl⟩ := gives_require foundBody
  obtain ⟨thereBody, full⟩ := Option.filter_eq_some_iff.mp section_
  obtain ⟨single, ok⟩ := gives_guard ok
  obtain ⟨noUsing, ok⟩ := gives_guard ok
  obtain ⟨sources, p₁, read, ok⟩ := gives_bind ok
  cases foreign : (parts.targets.head?.map targetName).filter (!sources.table.isReferredBy ·) with
  | some name =>
    rw [foreign] at ok
    obtain ⟨_, _, refused, -⟩ := gives_bind ok
    exact absurd refused gives_refuse
  | none =>
    rw [foreign] at ok
    obtain ⟨conditions, p₂, where_, ok⟩ := gives_bind ok
    obtain ⟨orderBy, p₃, order, ok⟩ := gives_bind ok
    obtain ⟨limit, p₄, count, ok⟩ := gives_bind ok
    obtain ⟨rfl, rfl⟩ := gives_pure ok
    exact ⟨parts, body, sources, conditions, orderBy, limit, p₁, p₂, p₃, there, thereBody,
      by simpa using full, single, noUsing, read, gives_lift where_, gives_lift order,
      gives_lift count, rfl⟩

theorem source_of_deleteParts? {parts : DeleteParts} {body : Text} (found : deleteParts? sql = some parts)
    (foundBody : parts.source = some body) : fromSection? sql = some body := by
  obtain ⟨⟨passed, rest⟩, -, rfl⟩ := Option.map_eq_some_iff.mp found
  dsimp only at foundBody
  split at foundBody
  · exact foundBody
  · cases foundBody

theorem advance_readDelete (ok : Gives (readDelete reserved sql) p c p') :
    Advance ([fromSection? sql, (whereSection? sql).map normalize, orderBySection? sql,
      limitSection? sql].flatMap Option.toList) p p' := by
  obtain ⟨parts, body, sources, conditions, orderBy, limit, p₁, p₂, p₃, found, foundBody, -, -, -,
    read, where_, order, count, -⟩ := readDelete_ok ok
  have source := source_of_deleteParts? found foundBody
  have first := advance_readWhere sql p₁
  have second := advance_readOrderBy sql p₂
  have third := advance_readRowCount sql p₃
  rw [where_] at first
  rw [order] at second
  rw [count] at third
  have all := (((advance_readSources read).trans first).trans second).trans third
  simpa only [source, List.flatMap_cons, List.flatMap_nil, List.append_assoc, List.append_nil,
    Option.toList_some] using all

end Mutations
section Insert

variable {table : TableRef} {columns : Option Text} {source : InsertSource}

theorem readValues_ok {values : Text} (ok : Gives (readValues columns values) p source p') :
    ¬(splitTop ',' (nameParams values p).1).length > 1 ∧ isGroup (nameParams values p).1 ∧
      ((columns = none ∧ source = .positional (valueList (nameParams values p).1) ∧
        p' = (note (.ambiguousSyntax "INSERT without a column list binds values by position"
          "adding an explicit column list") (nameParams values p).2).2) ∨
      ∃ t, columns = some t ∧
        (columnList t).length = (valueList (nameParams values p).1).length ∧
        source = .assignments
          (List.zipWith Assignment.mk (columnList t) (valueList (nameParams values p).1)) ∧
        p' = (nameParams values p).2) := by
  dsimp only [readValues] at ok
  obtain ⟨named, p₀, step, ok⟩ := gives_bind ok
  have names := gives_lift step
  obtain ⟨single, ok⟩ := gives_guard ok
  obtain ⟨group, ok⟩ := gives_guard ok
  rw [names]
  refine ⟨single, by simpa using group, ?_⟩
  cases columns with
  | none =>
    obtain ⟨_, p₁, noted, ok⟩ := gives_bind ok
    have last := gives_lift noted
    obtain ⟨rfl, rfl⟩ := gives_pure ok
    exact .inl ⟨rfl, rfl, by rw [last]⟩
  | some t =>
    obtain ⟨same, ok⟩ := gives_guard ok
    obtain ⟨rfl, rfl⟩ := gives_pure ok
    exact .inr ⟨t, rfl, by simpa using same, rfl, rfl⟩

theorem advance_readValues {values : Text} (ok : Gives (readValues columns values) p source p') :
    Advance [values] p p' := by
  obtain ⟨-, -, ⟨-, -, rfl⟩ | ⟨t, -, -, -, rfl⟩⟩ := readValues_ok ok
  · exact (Advance.nameParams values p).trans (.note _ _)
  · exact .nameParams values p

theorem advance_readInsertSource {body : InsertBody}
    (ok : Gives (readInsertSource sql table columns body) p source p') :
    body ≠ .missing ∧ Advance [body.text] p p' := by
  cases body with
  | missing => exact absurd ok gives_refuse
  | values values =>
    rw [readInsertSource] at ok
    exact ⟨by simp, advance_readValues ok⟩
  | set list =>
    dsimp only [readInsertSource] at ok
    obtain ⟨-, ok⟩ := gives_guard ok
    obtain ⟨assignments, p₁, pairs, ok⟩ := gives_bind ok
    obtain ⟨-, ok⟩ := gives_guard ok
    obtain ⟨rfl, rfl⟩ := gives_pure ok
    have advance := advance_readAssignments table list p
    rw [gives_lift pairs] at advance
    exact ⟨by simp, advance⟩
  | query text =>
    dsimp only [readInsertSource] at ok
    obtain ⟨_, p₁, noted, ok⟩ := gives_bind ok
    obtain ⟨named, p₂, step, ok⟩ := gives_bind ok
    obtain ⟨rfl, rfl⟩ := gives_pure ok
    have first := Advance.note (.ambiguousSyntax "INSERT ... SELECT has no setValue() equivalent"
      "rewriting the statement by hand") p
    have second := Advance.nameParams text p₁
    rw [gives_lift noted] at first
    rw [gives_lift step] at second
    exact ⟨by simp, first.trans second⟩

theorem readInsert_ok (ok : Gives (readInsert sql) p c p') :
    ∃ parts source, insertParts? sql = some parts ∧ parts.table.head? ≠ some '(' ∧
      ¬hasKeyword ["ON", "DUPLICATE", "KEY", "UPDATE"] sql ∧
      Gives (readInsertSource sql { table := plainName parts.table } parts.columns parts.body) p
        source p' ∧
      c = {
        kind := .insert
        table := some { table := plainName parts.table }
        source := some source } := by
  dsimp only [readInsert] at ok
  obtain ⟨noDuplicate, ok⟩ := gives_guard ok
  obtain ⟨parts, p₀, found, ok⟩ := gives_bind ok
  obtain ⟨section_, rfl⟩ := gives_require found
  obtain ⟨there, noGroup⟩ := Option.filter_eq_some_iff.mp section_
  obtain ⟨source, p₁, read, ok⟩ := gives_bind ok
  obtain ⟨rfl, rfl⟩ := gives_pure ok
  exact ⟨parts, source, there, by simpa using noGroup, noDuplicate, read, rfl⟩

theorem advance_readInsert (ok : Gives (readInsert sql) p c p') :
    ∃ parts, insertParts? sql = some parts ∧ parts.body ≠ .missing ∧ Advance [parts.body.text] p p' := by
  obtain ⟨parts, source, found, -, -, read, -⟩ := readInsert_ok ok
  exact ⟨parts, found, advance_readInsertSource read⟩

end Insert
theorem kind_of_read {kind : StatementKind} (read : Gives (readStatement reserved kind sql) p c p') :
    c.kind = kind := by
  cases kind with
  | select =>
    obtain ⟨_, _, _, _, _, _, _, _, _, _, _, _, _, _, -, -, -, -, -, -, -, -, -, rfl⟩ := readSelect_ok read
    rfl
  | insert =>
    obtain ⟨_, _, -, -, -, -, rfl⟩ := readInsert_ok read
    rfl
  | update =>
    obtain ⟨_, _, _, _, _, _, _, _, _, _, _, -, -, -, -, -, -, -, -, -, rfl⟩ := readUpdate_ok read
    rfl
  | delete =>
    obtain ⟨_, _, _, _, _, _, _, _, _, -, -, -, -, -, -, -, -, -, rfl⟩ := readDelete_ok read
    rfl

/-- The conditions of a statement are those of its `WHERE`, and what is noted there stays. -/
theorem where_of_read {kind : StatementKind} (query : kind ≠ .insert)
    (read : Gives (readStatement reserved kind sql) p c p') :
    ∃ p₁, c.conditions = (readWhere sql p₁).1 ∧ (readWhere sql p₁).2.issues <+: p'.issues := by
  cases kind with
  | insert => exact absurd rfl query
  | select =>
    obtain ⟨distinct, list, sources, conditions, groupBy, having, orderBy, limit, offset, p₁, p₂, p₃, p₄, p₅, -, -, -, -,
      where_, group, have_, order, bounds, rfl⟩ := readSelect_ok read
    have second := advance_readGroupBy sql p₂
    have third := advance_readHaving sql p₃
    have fourth := advance_readOrderBy sql p₄
    have fifth := advance_readLimitAndOffset sql p₅
    rw [group] at second
    rw [have_] at third
    rw [order] at fourth
    rw [bounds] at fifth
    refine ⟨p₁, by rw [where_], ?_⟩
    rw [where_]
    exact ((second.issues.trans third.issues).trans fourth.issues).trans fifth.issues
  | update =>
    obtain ⟨target, list, sources, assignments, conditions, orderBy, limit, p₁, p₂, p₃, p₄, -, -, -, -, -, -, where_, order,
      count, rfl⟩ := readUpdate_ok read
    have ordered := advance_readOrderBy sql p₃
    have counted := advance_readRowCount sql p₄
    rw [order] at ordered
    rw [count] at counted
    refine ⟨p₂, by rw [where_], ?_⟩
    rw [where_]
    exact ordered.issues.trans counted.issues
  | delete =>
    obtain ⟨parts, body, sources, conditions, orderBy, limit, p₁, p₂, p₃, -, -, -, -, -, -, where_, order, count, rfl⟩ :=
      readDelete_ok read
    have ordered := advance_readOrderBy sql p₂
    have counted := advance_readRowCount sql p₃
    rw [order] at ordered
    rw [count] at counted
    refine ⟨p₁, by rw [where_], ?_⟩
    rw [where_]
    exact ordered.issues.trans counted.issues

/-- What is known of a statement that was converted. -/
structure Converted (reserved : ReservedWords) (sql : Text) (c : Conversion) (p : Progress) : Prop where
  balanced : fault? sql = none
  kind : classify (normalize sql) = .ok c.kind
  read : Gives (readStatement reserved c.kind (normalize sql)) {} c.clauses p
  issued : p.issued = placeholders sql
  calls : c.calls = c.clauses.calls
  paramCount : c.paramCount = placeholders sql
  outcome : c.outcome = p.outcome

theorem convert_ok {c : Conversion} (ok : convert reserved sql = .ok c) :
    ∃ p, Converted reserved sql c p := by
  dsimp only [convert] at ok
  cases balanced : fault? sql with
  | some fault =>
    rw [balanced] at ok
    cases ok
  | none =>
    rw [balanced] at ok
    dsimp only at ok
    cases kind : classify (normalize sql) with
    | error issue =>
      rw [kind] at ok
      cases ok
    | ok k =>
      rw [kind] at ok
      rcases ran : (readStatement reserved k (normalize sql)).run {} with ⟨issue | clauses, p⟩
      · simp only [bind, Except.bind, ran] at ok
        cases ok
      · simp only [bind, Except.bind, ran] at ok
        by_cases mismatch : p.issued ≠ placeholders sql
        · rw [if_pos mismatch] at ok
          cases ok
        · rw [if_neg mismatch] at ok
          cases ok
          exact ⟨p, balanced, kind, ran, by simpa using mismatch, rfl, rfl, rfl⟩

/-- A complete conversion noted nothing. -/
theorem Converted.clean {c : Conversion} {p : Progress} (converted : Converted reserved sql c p)
    (success : c.outcome = .success) : p.issues = [] := by
  have outcome := converted.outcome
  rw [success, Progress.outcome] at outcome
  by_contra noted
  rw [if_neg noted] at outcome
  cases outcome

end QueryChain
