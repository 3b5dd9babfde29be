import QueryChain.Statement.Refinement
import QueryChain.Statement.Sources

namespace QueryChain

def dropRowMarks : Text → Text
  | '*' :: '.' :: backwards => dropRowMarks backwards
  | backwards => backwards.reverse

def targetName (target : Text) : Text := plainName (dropRowMarks target.reverse)

/-- Only the main table can be deleted from, with or without joins. -/
def readDelete (reserved : ReservedWords) (sql : Text) : Reading Clauses := do
  let parts ← require (deleteParts? sql) (.malformedClause "DELETE" sql "expected DELETE ... FROM")
  let body ← require (parts.source.filter (· ≠ []))
    (.malformedClause "DELETE" sql "expected a FROM clause")
  if parts.targets.length > 1 then
    refuse (.unsupportedConstruct "multi-table DELETE" "DELETE statement")
  if hasKeyword ["USING"] (mainTables body) then
    refuse (.unsupportedConstruct "DELETE ... USING" "DELETE statement")
  let sources ← readSources reserved "DELETE statement" false body
  if let some foreign := (parts.targets.head?.map targetName).filter
      (!sources.table.isReferredBy ·) then
    refuse (.unsupportedConstruct ("DELETE target `" ++ foreign ++ "` is not the FROM table")
      "DELETE statement")
  let conditions ← readWhere sql
  let orderBy ← readOrderBy sql
  let limit ← readRowCount sql
  return {
    kind := .delete
    table := some sources.table
    joins := sources.joins
    conditions, orderBy, limit }

end QueryChain
