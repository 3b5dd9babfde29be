import QueryChain.Builder.Chain
import QueryChain.Sql.NormalForm
import QueryChain.Statement.Read

namespace QueryChain

/-- A converted statement: what was read, and the builder calls for it. -/
structure Conversion where
  kind : StatementKind
  clauses : Clauses
  calls : List Call
  paramCount : Nat
  outcome : Outcome
  deriving DecidableEq, Repr

namespace Conversion

def issues (c : Conversion) : List Issue :=
  match c.outcome with
  | .partialSuccess issues => issues
  | _ => []

def isPartial (c : Conversion) : Bool :=
  match c.outcome with
  | .partialSuccess _ => true
  | _ => false

end Conversion

/-- Converts one statement. A statement is declined rather than converted with fewer parameters
    than it has placeholders. -/
def convert (reserved : ReservedWords) (sql : Text) : Except Issue Conversion := do
  if let some fault := fault? sql then throw (.ofFault fault)
  let kind ← classify (normalize sql)
  let (read, progress) := (readStatement reserved kind (normalize sql)).run {}
  let clauses ← read
  if progress.issued ≠ placeholders sql then
    throw (.parameterMismatch (placeholders sql) progress.issued)
  return {
    kind, clauses
    calls := clauses.calls
    paramCount := placeholders sql
    outcome := progress.outcome }

def outcomeOf : Except Issue Conversion → Outcome
  | .ok c => c.outcome
  | .error issue => .failed issue

structure Tally where
  converted : Nat := 0
  partially : Nat := 0
  declined : Nat := 0
  deriving DecidableEq, Repr

namespace Tally

def total (t : Tally) : Nat := t.converted + t.partially + t.declined

def record (t : Tally) : Except Issue Conversion → Tally
  | .ok c =>
    if c.isPartial then { t with partially := t.partially + 1 }
    else { t with converted := t.converted + 1 }
  | .error _ => { t with declined := t.declined + 1 }

end Tally
end QueryChain
