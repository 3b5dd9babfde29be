import QueryChain.Statement.Bound
import QueryChain.Statement.Condition
import QueryChain.Statement.Progress
import QueryChain.Statement.Section

namespace QueryChain

def readWhere (sql : Text) : Noting (List Condition) := do
  match whereSection? sql with
  | none => return []
  | some body =>
    let named ← nameParams (normalize body)
    let conditions := splitConditions named
    if conditions = [] then note (.malformedClause "WHERE" sql "empty condition")
    return conditions

def readGroupBy (sql : Text) : Noting (List Text) := do
  match groupBySection? sql with
  | none => return []
  | some body => return splitTop ',' (← nameParams body)

def readHaving (sql : Text) : Noting (Option Text) := do
  match havingSection? sql with
  | none => return none
  | some body =>
    let named ← nameParams body
    return if named = [] then none else some named

def orderItem (t : Text) : OrderItem :=
  match (tokens t).reverse with
  | last :: _ :: _ =>
    let field := trim (t.take (t.length - last.length))
    if sameLetters last "DESC" then ⟨field, .descending⟩
    else if sameLetters last "ASC" then ⟨field, .ascending⟩
    else ⟨t, .ascending⟩
  | _ => ⟨t, .ascending⟩

def readOrderBy (sql : Text) : Noting (List OrderItem) := do
  match orderBySection? sql with
  | none => return []
  | some body => return ((splitTop ',' (← nameParams body)).filter (· ≠ [])).map orderItem

def badBound (clause body : Text) : Issue :=
  .malformedClause clause body "expected an integer or placeholder"

def readLimitSection (sql : Text) : Noting (Option Bound × Option Bound) := do
  match limitSection? sql with
  | none => return (none, none)
  | some body =>
    let named ← nameParams body
    match limit? named with
    | some (offset, count) => return (some count, offset)
    | none =>
      note (badBound "LIMIT" named)
      return (none, none)

/-- An offset of its own wins over the one in front of the row count. -/
def readOffsetSection (offset : Option Bound) (sql : Text) : Noting (Option Bound) := do
  match offsetSection? sql with
  | none => return offset
  | some body =>
    let named ← nameParams body
    match bound? named with
    | some bound => return some bound
    | none =>
      note (badBound "OFFSET" named)
      return offset

def readLimitAndOffset (sql : Text) : Noting (Option Bound × Option Bound) := do
  let (limit, offset) ← readLimitSection sql
  return (limit, ← readOffsetSection offset sql)

/-- The row count of a statement that takes no offset: one that is given is dropped. -/
def readRowCount (sql : Text) : Noting (Option Bound) := do
  let (limit, offset) ← readLimitSection sql
  if offset.isSome then
    note (.malformedClause "LIMIT" ((limitSection? sql).getD []) "row offset is not allowed here")
  return limit

end QueryChain
