import QueryChain.Sql.Placeholder
import QueryChain.Text.Quoted

namespace QueryChain

inductive Method where
  | select
  | distinct
  | addFrom
  | join
  | innerJoin
  | leftJoin
  | rightJoin
  | firstWhere
  | andWhere
  | orWhere
  | addGroupBy
  | having
  | addOrderBy
  | setMaxResults
  | setFirstResult
  | insert
  | setValue
  | update
  | set
  | delete
  | manualReview
  deriving DecidableEq, Repr

def Method.name : Method → Text
  | .select => "select"
  | .distinct => "distinct"
  | .addFrom => "from"
  | .join => "join"
  | .innerJoin => "innerJoin"
  | .leftJoin => "leftJoin"
  | .rightJoin => "rightJoin"
  | .firstWhere => "where"
  | .andWhere => "andWhere"
  | .orWhere => "orWhere"
  | .addGroupBy => "addGroupBy"
  | .having => "having"
  | .addOrderBy => "addOrderBy"
  | .setMaxResults => "setMaxResults"
  | .setFirstResult => "setFirstResult"
  | .insert => "insert"
  | .setValue => "setValue"
  | .update => "update"
  | .set => "set"
  | .delete => "delete"
  | .manualReview => "manualReview"

def Method.all : List Method :=
  [.select, .distinct, .addFrom, .join, .innerJoin, .leftJoin, .rightJoin, .firstWhere, .andWhere,
    .orWhere, .addGroupBy, .having, .addOrderBy, .setMaxResults, .setFirstResult, .insert,
    .setValue, .update, .set, .delete, .manualReview]

theorem Method.mem_all (m : Method) : m ∈ all := by cases m <;> decide

def Method.ofName? (name : Text) : Option Method := all.find? (·.name == name)

inductive Arg where
  | str (value : Text)
  | int (value : Nat)
  | param (index : Nat)
  deriving DecidableEq, Repr

namespace Arg

/-- A value that is exactly one parameter is passed as such, any other as text. -/
def ofValue (t : Text) : Arg :=
  match param? t with
  | some n => .param n
  | none => .str (trim t)

def text? : Arg → Option Text
  | .str t => some t
  | _ => none

def render : Arg → Text
  | .str t => quoted t
  | .int n => decimal n
  | .param n => paramName n

def params : Arg → List Nat
  | .str t => paramsIn t
  | .int _ => []
  | .param n => [n]

end Arg

structure Call where
  method : Method
  args : List Arg
  deriving DecidableEq, Repr

namespace Call

def render (c : Call) : Text := c.method.name ++ "(" ++ joinWith ", " (c.args.map Arg.render) ++ ")"

def params (c : Call) : List Nat := c.args.flatMap Arg.params

end Call
end QueryChain
