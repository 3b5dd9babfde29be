import QueryChain.Statement.Join
import QueryChain.Statement.Progress

namespace QueryChain

structure Sources where
  table : TableRef
  extraTables : List TableRef
  joins : List Join
  deriving DecidableEq, Repr

def readTable (reserved : ReservedWords) (clause fragment : Text) : Reading TableRef := do
  if fragment.head? == some '(' then refuse (.unsupportedConstruct "derived table" clause)
  let parsed ← require (TableFragment.ofText? reserved fragment)
    (.malformedClause clause fragment "expected a table name")
  match parsed.checkTrailing clause with
  | .error issue => refuse issue
  | .ok issue => noteAll issue.toList
  return parsed.table

def readTables (reserved : ReservedWords) (clause : Text) : List Text → Reading (List TableRef)
  | [] => return []
  | fragment :: fragments => do
    let table ← readTable reserved clause fragment
    return table :: (← readTables reserved clause fragments)

/-- Resolves a list of tables with its joins. Joins hang off the main table, so that several
    tables and joins do not go together. -/
def readSources (reserved : ReservedWords) (clause : Text) (manyTables : Bool) (t : Text) :
    Reading Sources := do
  let named ← nameParams t
  let fragments := splitTop ',' (mainTables named)
  if fragments.length > 1 && !manyTables then
    refuse (.unsupportedConstruct "multiple target tables" clause)
  match ← readTables reserved clause fragments with
  | [] => refuse (.malformedClause clause t "expected a table name")
  | table :: extraTables =>
    match resolveJoins reserved named with
    | .error issue => refuse issue
    | .ok (joins, issues) =>
      if fragments.length > 1 && !joins.isEmpty then
        refuse (.unsupportedConstruct mixedJoin clause)
      noteAll issues
      return ⟨table, extraTables, joins⟩

end QueryChain
