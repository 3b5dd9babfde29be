import QueryChain.Statement.Assignment
import QueryChain.Statement.Refinement
import QueryChain.Statement.Sources

namespace QueryChain

def readUpdate (reserved : ReservedWords) (sql : Text) : Reading Clauses := do
  let target ← require ((updateTarget? sql).filter (· ≠ []))
    (.malformedClause "UPDATE" sql "expected a target table")
  let sources ← readSources reserved "UPDATE target" false target
  let list ← require (setSection? sql) (.malformedClause "UPDATE" sql "missing SET clause")
  let assignments ← readAssignments sources.table list
  if assignments = [] then
    refuse (.malformedClause "SET" list "no assignment could be parsed")
  let conditions ← readWhere sql
  let orderBy ← readOrderBy sql
  let limit ← readRowCount sql
  return {
    kind := .update
    table := some sources.table
    joins := sources.joins
    assignments, conditions, orderBy, limit }

end QueryChain
