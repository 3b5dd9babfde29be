import QueryChain.Builder.Call
import QueryChain.Statement.Clauses

namespace QueryChain

def Bound.arg : Bound → Arg
  | .literal n => .int n
  | .param n => .param n

def tableCall (method : Method) (t : TableRef) : Call :=
  ⟨method, .str t.table :: t.writtenAlias?.toList.map .str⟩

/-- The builder has no other joins: the rest is passed as a plain join. -/
def JoinKind.method : JoinKind → Method
  | .inner => .innerJoin
  | .left => .leftJoin
  | .right => .rightJoin
  | .outer | .cross | .plain => .join

def joinCall (main : Text) (j : Join) : Call :=
  ⟨j.kind.method,
    [.str main, .str j.table.table, .str j.table.reference] ++ j.condition.toList.map .str⟩

def assignmentCall (method : Method) (a : Assignment) : Call :=
  ⟨method, [.str a.column, .ofValue a.value]⟩

def laterConditionCall (c : Condition) : Call :=
  ⟨if c.connective = some .or then .orWhere else .andWhere, [.str c.text]⟩

def conditionCalls : List Condition → List Call
  | [] => []
  | first :: rest => ⟨.firstWhere, [.str first.text]⟩ :: rest.map laterConditionCall

def positionalCalls (values : List Text) : List Call :=
  values.mapIdx fun i v => ⟨.setValue, [.int i, .ofValue v]⟩

def queryLabel (columns : List Text) : Text :=
  if columns = [] then "INSERT ... SELECT"
  else "INSERT ... SELECT into (" ++ joinWith ", " columns ++ ")"

def InsertSource.calls : InsertSource → List Call
  | .assignments pairs => pairs.map (assignmentCall .setValue)
  | .positional values => positionalCalls values
  | .query columns text => [⟨.manualReview, [.str (queryLabel columns), .str text]⟩]

namespace Clauses

def tableCalls (method : Method) (c : Clauses) : List Call :=
  c.table.toList.map (tableCall method)

/-- Joins hang off the main table; without one there are none. -/
def joinCalls (c : Clauses) : List Call :=
  match c.mainReference? with
  | none => []
  | some main => c.joins.map (joinCall main)

def orderCalls (c : Clauses) : List Call :=
  c.orderBy.map fun o => ⟨.addOrderBy, [.str o.field, .str o.direction.word]⟩

def limitCalls (c : Clauses) : List Call :=
  c.limit.toList.map fun b => ⟨.setMaxResults, [b.arg]⟩

def selectCalls (c : Clauses) : List Call :=
  (if c.fields = [] then [] else [⟨.select, c.fields.map .str⟩]) ++
  (if c.distinct then [⟨.distinct, []⟩] else []) ++
  (c.table.toList ++ c.extraTables).map (tableCall .addFrom) ++
  c.joinCalls ++ conditionCalls c.conditions ++
  c.groupBy.map (fun field => ⟨.addGroupBy, [.str field]⟩) ++
  c.having.toList.map (fun having => ⟨.having, [.str having]⟩) ++
  c.orderCalls ++ c.limitCalls ++
  c.offset.toList.map (fun b => ⟨.setFirstResult, [b.arg]⟩)

def insertCalls (c : Clauses) : List Call :=
  c.table.toList.map (fun t => ⟨.insert, [.str t.table]⟩) ++
  c.source.toList.flatMap InsertSource.calls

def updateCalls (c : Clauses) : List Call :=
  c.tableCalls .update ++ c.assignments.map (assignmentCall .set) ++
  c.joinCalls ++ conditionCalls c.conditions ++ c.orderCalls ++ c.limitCalls

def deleteCalls (c : Clauses) : List Call :=
  c.tableCalls .delete ++ c.joinCalls ++ conditionCalls c.conditions ++ c.orderCalls ++
  c.limitCalls

/-- The builder calls that rebuild the statement. Clauses that its kind has not are left alone. -/
def calls (c : Clauses) : List Call :=
  match c.kind with
  | .select => c.selectCalls
  | .insert => c.insertCalls
  | .update => c.updateCalls
  | .delete => c.deleteCalls

end Clauses
end QueryChain
