import QueryChain.Statement.Assignment
import QueryChain.Statement.Section

namespace QueryChain

/-- Values go to the columns one by one; without columns they are bound by position, which a later
    change of the table would break. -/
def readValues (columns : Option Text) (values : Text) : Reading InsertSource := do
  let named ← nameParams values
  if (splitTop ',' named).length > 1 then
    refuse (.unsupportedConstruct "multi-row VALUES" "INSERT statement")
  if !isGroup named then
    refuse (.malformedClause "VALUES" values "expected a parenthesized value list")
  match columns.map columnList with
  | none =>
    note (.ambiguousSyntax "INSERT without a column list binds values by position"
      "adding an explicit column list")
    return .positional (valueList named)
  | some columns =>
    if columns.length ≠ (valueList named).length then
      refuse (.malformedClause "VALUES" named
        (decimal columns.length ++ " column(s) but " ++ decimal (valueList named).length ++
          " value(s)"))
    return .assignments (List.zipWith Assignment.mk columns (valueList named))

def readInsertSource (sql : Text) (table : TableRef) (columns : Option Text) :
    InsertBody → Reading InsertSource
  | .values values => readValues columns values
  | .set list => do
    if columns.isSome then
      refuse (.malformedClause "INSERT" sql "column list cannot be combined with SET")
    let assignments ← readAssignments table list
    if assignments = [] then
      refuse (.malformedClause "SET" list "no assignment could be parsed")
    return .assignments assignments
  | .query text => do
    note (.ambiguousSyntax "INSERT ... SELECT has no setValue() equivalent"
      "rewriting the statement by hand")
    return .query ((columns.map columnList).getD []) (← nameParams text)
  | .missing => refuse (.malformedClause "INSERT" sql "expected VALUES, SET or SELECT")

def readInsert (sql : Text) : Reading Clauses := do
  if hasKeyword ["ON", "DUPLICATE", "KEY", "UPDATE"] sql then
    refuse (.unsupportedConstruct "ON DUPLICATE KEY UPDATE" "INSERT statement")
  let parts ← require ((insertParts? sql).filter (·.table.head? ≠ some '('))
    (.malformedClause "INSERT" sql "expected a target table")
  let table : TableRef := { table := plainName parts.table }
  let source ← readInsertSource sql table parts.columns parts.body
  return { kind := .insert, table := some table, source := some source }

end QueryChain
