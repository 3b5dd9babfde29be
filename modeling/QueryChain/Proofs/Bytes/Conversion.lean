import QueryChain.Conversion
import QueryChain.Proofs.Bytes.Params
import QueryChain.Proofs.Bytes.Statements
import QueryChain.Report

namespace QueryChain

namespace Bytewise

def readPairs? (target : TableRef) : List Text → Noting (List Assignment)
  | [] => return []
  | pair :: pairs => do
    match ← assignment? target pair with
    | .ok a => return a :: (← readPairs? target pairs)
    | .error issue =>
      noting (note issue)
      readPairs? target pairs

def readAssignments? (target : TableRef) (list : Text) : Noting (List Assignment) := do
  readPairs? target (← splitTop? ',' (← nameParams? list))

def columnLists? (columns : Option Text) : Option (Option (List Text)) := columns.mapM columnList?

def readValues? (columns : Option Text) (values : Text) : Reading InsertSource := do
  let named ← nameParams? values
  if (← splitTop? ',' named).length > 1 then
    reading (refuse (.unsupportedConstruct "multi-row VALUES" "INSERT statement"))
  if !(← isGroup? named) then
    reading (refuse (.malformedClause "VALUES" values "expected a parenthesized value list"))
  let written ← valueList? named
  match ← columnLists? columns with
  | none =>
    reading (note (.ambiguousSyntax "INSERT without a column list binds values by position"
      "adding an explicit column list"))
    return .positional written
  | some columns =>
    if columns.length ≠ written.length then
      reading (refuse (.malformedClause "VALUES" named
        (decimal columns.length ++ " column(s) but " ++ decimal written.length ++ " value(s)")))
    return .assignments (List.zipWith Assignment.mk columns written)

def readInsertSource? (sql : Text) (table : TableRef) (columns : Option Text) : InsertBody → Reading InsertSource
  | .values values => readValues? columns values
  | .set list => do
    if columns.isSome then
      reading (refuse (.malformedClause "INSERT" sql "column list cannot be combined with SET"))
    let assignments ← readAssignments? table list
    if assignments = [] then
      reading (refuse (.malformedClause "SET" list "no assignment could be parsed"))
    return .assignments assignments
  | .query text => do
    reading (note (.ambiguousSyntax "INSERT ... SELECT has no setValue() equivalent"
      "rewriting the statement by hand"))
    let columns ← columnLists? columns
    return .query (columns.getD []) (← nameParams? text)
  | .missing => reading (refuse (.malformedClause "INSERT" sql "expected VALUES, SET or SELECT"))

def readInsert? (sql : Text) : Reading Clauses := do
  if ← hasKeyword? ["ON", "DUPLICATE", "KEY", "UPDATE"] sql then
    reading (refuse (.unsupportedConstruct "ON DUPLICATE KEY UPDATE" "INSERT statement"))
  let parts ← reading (require ((← insertParts? sql).filter (·.table.head? ≠ some '('))
    (.malformedClause "INSERT" sql "expected a target table"))
  let table : TableRef := { table := ← plainName? parts.table }
  let source ← readInsertSource? sql table parts.columns parts.body
  return { kind := .insert, table := some table, source := some source }

def readUpdate? (reserved : ReservedWords) (sql : Text) : Reading Clauses := do
  let target ← reading (require ((← updateTarget? sql).filter (· ≠ []))
    (.malformedClause "UPDATE" sql "expected a target table"))
  let sources ← readSources? reserved "UPDATE target" false target
  let list ← reading (require (← setSection? sql) (.malformedClause "UPDATE" sql "missing SET clause"))
  let assignments ← readAssignments? sources.table list
  if assignments = [] then
    reading (refuse (.malformedClause "SET" list "no assignment could be parsed"))
  let conditions ← readWhere? sql
  let orderBy ← readOrderBy? sql
  let limit ← readRowCount? sql
  return {
    kind := .update
    table := some sources.table
    joins := sources.joins
    assignments, conditions, orderBy, limit }

def targetNames? (targets : List Text) : Option (Option Text) :=
  targets.head?.mapM fun target => plainName? (dropRowMarks target.reverse)

def readDelete? (reserved : ReservedWords) (sql : Text) : Reading Clauses := do
  let parts ← reading (require (← deleteParts? sql) (.malformedClause "DELETE" sql "expected DELETE ... FROM"))
  let body ← reading (require (parts.source.filter (· ≠ []))
    (.malformedClause "DELETE" sql "expected a FROM clause"))
  if parts.targets.length > 1 then
    reading (refuse (.unsupportedConstruct "multi-table DELETE" "DELETE statement"))
  if ← hasKeyword? ["USING"] (← mainTables? body) then
    reading (refuse (.unsupportedConstruct "DELETE ... USING" "DELETE statement"))
  let sources ← readSources? reserved "DELETE statement" false body
  if let some foreign := (← targetNames? parts.targets).filter (!sources.table.isReferredBy ·) then
    reading (refuse (.unsupportedConstruct ("DELETE target `" ++ foreign ++ "` is not the FROM table")
      "DELETE statement"))
  let conditions ← readWhere? sql
  let orderBy ← readOrderBy? sql
  let limit ← readRowCount? sql
  return {
    kind := .delete
    table := some sources.table
    joins := sources.joins
    conditions, orderBy, limit }

def locking? (sql : Text) : Option (Option Keyword) := lockingKeywords.findM? (hasKeyword? · sql)

def readSelect? (reserved : ReservedWords) (sql : Text) : Reading Clauses := do
  if let some locking := ← locking? sql then
    reading (refuse (.unsupportedConstruct (joinWith " " locking) "SELECT statement"))
  let (distinct, list) ← reading (require ((← selectSection? sql).filter (·.2 ≠ []))
    (.malformedClause "SELECT" sql "empty select list"))
  let fields ← splitTop? ',' (← nameParams? list)
  let sources ← readFrom? reserved sql
  let conditions ← readWhere? sql
  let groupBy ← readGroupBy? sql
  let having ← readHaving? sql
  let orderBy ← readOrderBy? sql
  let (limit, offset) ← readLimitAndOffset? sql
  return {
    kind := .select
    distinct, fields
    table := sources.map (·.table)
    extraTables := (sources.map (·.extraTables)).getD []
    joins := (sources.map (·.joins)).getD []
    conditions, groupBy, having, orderBy, limit, offset }

def readStatement? (reserved : ReservedWords) (kind : StatementKind) (sql : Text) : Reading Clauses :=
  match kind with
  | .select => readSelect? reserved sql
  | .insert => readInsert? sql
  | .update => readUpdate? reserved sql
  | .delete => readDelete? reserved sql

section Statements

theorem readPairs?_eq (target : TableRef) (pairs : List Text) :
    readPairs? target pairs = noting (readPairs target pairs) := by
  induction pairs with
  | nil => rfl
  | cons pair pairs ih =>
    simp only [readPairs?, readPairs, assignment?_eq, lift_some, pure_bind, ih]
    cases QueryChain.assignment? target pair with
    | ok a => simp only [noting_bind, noting_pure]
    | error issue => simp only [noting_bind]

theorem readAssignments?_eq (target : TableRef) (list : Text) :
    readAssignments? target list = noting (readAssignments target list) := by
  simp only [readAssignments?, readAssignments, nameParams?_eq, splitTop?_eq, lift_some, pure_bind, noting_bind,
    readPairs?_eq]

theorem columnLists?_eq (columns : Option Text) : columnLists? columns = some (columns.map columnList) := by
  cases columns with
  | none => rfl
  | some t => simp [columnLists?, columnList?_eq]

theorem readValues?_eq (columns : Option Text) (values : Text) :
    readValues? columns values = reading (readValues columns values) := by
  simp only [readValues?, readValues, nameParams?_eq, splitTop?_eq, isGroup?_eq, valueList?_eq, columnLists?_eq, lift_some',
    pure_bind, reading_bind, reading_lift, reading_ite]
  cases columns with
  | none => simp only [Option.map_none, reading_bind, reading_lift, reading_pure]
  | some columns => simp only [Option.map_some, reading_bind, reading_ite, reading_pure]

theorem readInsertSource?_eq (sql : Text) (table : TableRef) (columns : Option Text) (body : InsertBody) :
    readInsertSource? sql table columns body = reading (readInsertSource sql table columns body) := by
  cases body with
  | values values => exact readValues?_eq columns values
  | set list =>
    simp only [readInsertSource?, readInsertSource, readAssignments?_eq]
    cases columns with
    | some columns => rfl
    | none =>
      simp only [Option.isSome_none, Bool.false_eq_true, if_false, reading_bind, reading_lift]
      simp only [reading_ite, reading_bind, reading_pure]
  | query text =>
    simp only [readInsertSource?, readInsertSource, columnLists?_eq, nameParams?_eq, lift_some', pure_bind, reading_bind,
      reading_lift, reading_pure]
  | missing => rfl

theorem readInsert?_eq (sql : Text) : readInsert? sql = reading (readInsert sql) := by
  simp only [readInsert?, readInsert, hasKeyword?_eq (by decide : IsKeyword ["ON", "DUPLICATE", "KEY", "UPDATE"]),
    insertParts?_eq, plainName?_eq, readInsertSource?_eq, lift_some', pure_bind, reading_bind, reading_ite, reading_pure]

theorem readUpdate?_eq (reserved : ReservedWords) (sql : Text) :
    readUpdate? reserved sql = reading (readUpdate reserved sql) := by
  simp only [readUpdate?, readUpdate, updateTarget?_eq, setSection?_eq, readSources?_eq, readAssignments?_eq, readWhere?_eq,
    readOrderBy?_eq, readRowCount?_eq, lift_some', pure_bind, reading_bind, reading_lift, reading_ite, reading_pure]

theorem targetNames?_eq (targets : List Text) : targetNames? targets = some (targets.head?.map targetName) := by
  cases targets with
  | nil => rfl
  | cons target targets => simp [targetNames?, plainName?_eq, targetName]

theorem readDelete?_eq (reserved : ReservedWords) (sql : Text) :
    readDelete? reserved sql = reading (readDelete reserved sql) := by
  simp only [readDelete?, readDelete, deleteParts?_eq, mainTables?_eq, hasKeyword?_eq (by decide : IsKeyword ["USING"]),
    readSources?_eq, targetNames?_eq, readWhere?_eq, readOrderBy?_eq, readRowCount?_eq, lift_some', pure_bind, reading_bind,
    reading_ite]
  refine bind_congr fun parts => bind_congr fun body => ?_
  split_ifs
  · exact reading_refuse ..
  · exact reading_refuse ..
  · exact reading_refuse ..
  · refine bind_congr fun sources => ?_
    cases (parts.targets.head?.map targetName).filter (!sources.table.isReferredBy ·) with
    | some foreign =>
      simp only [reading_bind]
      exact reading_refuse ..
    | none => simp only [reading_bind, reading_lift, reading_pure]

theorem locking?_eq (sql : Text) : locking? sql = some (lockingKeywords.find? (hasKeyword · sql)) := by
  have areKeywords : ∀ k ∈ lockingKeywords, IsKeyword k := by decide
  rw [locking?]
  generalize lockingKeywords = ks at areKeywords
  induction ks with
  | nil => rfl
  | cons k ks ih =>
    rw [List.findM?, hasKeyword?_eq (areKeywords k (by simp)), List.find?_cons]
    cases hasKeyword k sql with
    | true => rfl
    | false => exact ih fun k member => areKeywords k (by simp [member])

theorem readSelect?_eq (reserved : ReservedWords) (sql : Text) :
    readSelect? reserved sql = reading (readSelect reserved sql) := by
  simp only [readSelect?, readSelect, locking?_eq, selectSection?_eq, splitTop?_eq, nameParams?_eq,
    readFrom?_eq, readWhere?_eq, readGroupBy?_eq, readHaving?_eq, readOrderBy?_eq, readLimitAndOffset?_eq,
      lift_some', pure_bind]
  cases lockingKeywords.find? (hasKeyword · sql) with
  | some locking => rfl
  | none => simp only [reading_bind, reading_lift, reading_pure]

theorem readStatement?_eq (reserved : ReservedWords) (kind : StatementKind) (sql : Text) :
    readStatement? reserved kind sql = reading (readStatement reserved kind sql) := by
  cases kind with
  | select => exact readSelect?_eq reserved sql
  | insert => exact readInsert?_eq sql
  | update => exact readUpdate?_eq reserved sql
  | delete => exact readDelete?_eq reserved sql

end Statements

def countPlaceholders? (sql : Text) : Option Nat := do return ((← scan? sql).map Prod.snd).countP Mark.isPlaceholder

def convert? (reserved : ReservedWords) (sql : Text) : ExceptT Issue Option Conversion := do
  if let some fault := ← fault? sql then throw (.ofFault fault)
  let normal ← normalize? sql
  let kind ← ExceptT.mk (classify? normal)
  let (read, progress) ← (readStatement? reserved kind normal).run.run {}
  let clauses ← ExceptT.mk (some read)
  let expected ← countPlaceholders? sql
  if progress.issued ≠ expected then
    throw (.parameterMismatch expected progress.issued)
  return {
    kind, clauses
    calls := clauses.calls
    paramCount := expected
    outcome := progress.outcome }

/-- What is answered to a statement: its conversion, the text that is printed for it and the parameters
    of each call. -/
structure Answer where
  result : Except Issue Conversion
  text : Text
  params : List (List Nat)

def callsOf : Except Issue Conversion → List Call
  | .ok c => c.calls
  | .error _ => []

def answer? (config : Config) (index : Nat) (sql : Text) : Option Answer := do
  let result ← (convert? config.reservedWords sql).run
  let params ← (callsOf result).mapM callParams?
  return ⟨result, Report.render config.emissionMode ⟨index, sql, result⟩, params⟩

section Convert

theorem countPlaceholders?_eq (sql : Text) : countPlaceholders? sql = some (placeholders sql) := by
  simp only [countPlaceholders?, scan?_eq, Option.bind_eq_bind, Option.bind_some, map_snd_spots]
  rfl

theorem convert?_eq (reserved : ReservedWords) (sql : Text) :
    convert? reserved sql = ExceptT.mk (some (convert reserved sql)) := by
  have stepped (kind : StatementKind) : (reading (readStatement reserved kind (normalize sql))).run.run {} =
      some ((readStatement reserved kind (normalize sql)).run {}) := rfl
  have okBind {α β : Type} (a : α) (f : α → Except Issue β) : (Except.ok a >>= f) = f a := rfl
  simp only [convert?, convert, fault?_eq, normalize?_eq, classify?_eq, readStatement?_eq, countPlaceholders?_eq,
    lift_checked, pure_bind]
  cases QueryChain.fault? sql with
  | some fault => rfl
  | none =>
    cases classify (normalize sql) with
    | error issue => rfl
    | ok kind =>
      simp only [bind_checked_ok, okBind, stepped, lift_checked, pure_bind]
      generalize (readStatement reserved kind (normalize sql)).run {} = r
      obtain ⟨read, progress⟩ := r
      cases read with
      | error issue => rfl
      | ok clauses =>
        simp only [bind_checked_ok, okBind]
        by_cases different : progress.issued ≠ placeholders sql
        · simp only [if_pos different]
          rfl
        · simp only [if_neg different]
          rfl

/-- No slice is ever taken out of range, with its ends in the wrong order or inside a character: for
    every text the conversion that slices bytes comes to an end with the result of the one that
    does not, and so do the text printed for it and the parameters of its calls. -/
theorem slices_in_range (config : Config) (index : Nat) (sql : Text) :
    answer? config index sql = some {
      result := convert config.reservedWords sql
      text := Report.render config.emissionMode ⟨index, sql, convert config.reservedWords sql⟩
      params := (callsOf (convert config.reservedWords sql)).map Call.params } := by
  have params (calls : List Call) : calls.mapM callParams? = some (calls.map Call.params) :=
    mapM_some fun c _ => callParams?_eq c
  simp only [answer?, convert?_eq, ExceptT.run_mk, Option.bind_eq_bind, Option.bind_some, params]
  rfl

end Convert
end Bytewise
end QueryChain
