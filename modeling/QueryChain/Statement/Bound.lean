import QueryChain.Sql.Pieces
import QueryChain.Sql.Placeholder
import QueryChain.Statement.Clauses

namespace QueryChain

def bound? (t : Text) : Option Bound :=
  if trim t ≠ [] ∧ (trim t).all Char.isDigit then (number? (trim t)).map .literal
  else (param? (trim t)).map .param

def limit? (t : Text) : Option (Option Bound × Bound) :=
  match splitTop ',' t with
  | [count] => (bound? count).map (none, ·)
  | [offset, count] => do return (some (← bound? offset), ← bound? count)
  | _ => none

end QueryChain
