import QueryChain.Statement.Progress
import QueryChain.Statement.Table

namespace QueryChain

/-- One `column = value` of a `SET` list; the column may be qualified by its table only. -/
def assignment? (target : TableRef) (pair : Text) : Except Issue Assignment :=
  match cutTop? '=' pair with
  | none => .error (.malformedClause "SET" pair "missing '='")
  | some (column, value) =>
    match (qualifier? column).filter (!target.isReferredBy ·) with
    | some foreign =>
      .error (.malformedClause "SET" pair
        ("column belongs to `" ++ foreign ++ "`, not the target table"))
    | none =>
      if columnName column = [] ∨ trim value = [] then
        .error (.malformedClause "SET" pair "expected `column = value`")
      else .ok ⟨columnName column, trim value⟩

def readPairs (target : TableRef) : List Text → Noting (List Assignment)
  | [] => return []
  | pair :: pairs =>
    match assignment? target pair with
    | .ok a => return a :: (← readPairs target pairs)
    | .error issue => do
      note issue
      readPairs target pairs

/-- The assignments of a `SET` list. A pair that is none is noted; its placeholders are named all
    the same, so that those behind it keep their numbers. -/
def readAssignments (target : TableRef) (list : Text) : Noting (List Assignment) := do
  readPairs target (splitTop ',' (← nameParams list))

def columnList (t : Text) : List Text := (splitTop ',' (groupBody t)).map columnName

def valueList (t : Text) : List Text := splitTop ',' (groupBody t)

end QueryChain
