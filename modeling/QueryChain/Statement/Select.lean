import QueryChain.Statement.Refinement
import QueryChain.Statement.Sources

namespace QueryChain

def lockingKeywords : List Keyword :=
  [["FOR", "UPDATE"], ["LOCK", "IN", "SHARE", "MODE"], ["FOR", "SHARE"]]

def readFrom (reserved : ReservedWords) (sql : Text) : Reading (Option Sources) := do
  match fromSection? sql with
  | none => return none
  | some body => return some (← readSources reserved "FROM clause" true body)

/-- The clauses are read in the order in which they are written, since each takes its parameters
    from where the one before it stopped. -/
def readSelect (reserved : ReservedWords) (sql : Text) : Reading Clauses := do
  if let some locking := lockingKeywords.find? (hasKeyword · sql) then
    refuse (.unsupportedConstruct (joinWith " " locking) "SELECT statement")
  let (distinct, list) ← require ((selectSection? sql).filter (·.2 ≠ []))
    (.malformedClause "SELECT" sql "empty select list")
  let fields := splitTop ',' (← nameParams list)
  let sources ← readFrom reserved sql
  let conditions ← readWhere sql
  let groupBy ← readGroupBy sql
  let having ← readHaving sql
  let orderBy ← readOrderBy sql
  let (limit, offset) ← readLimitAndOffset sql
  return {
    kind := .select
    distinct, fields
    table := sources.map (·.table)
    extraTables := (sources.map (·.extraTables)).getD []
    joins := (sources.map (·.joins)).getD []
    conditions, groupBy, having, orderBy, limit, offset }

end QueryChain
