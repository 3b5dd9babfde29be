import QueryChain.Conversion
import QueryChain.Json.Basic

namespace QueryChain

def StatementKind.toJson : StatementKind → Json
  | .select => .string "Select"
  | .insert => .string "Insert"
  | .update => .string "Update"
  | .delete => .string "Delete"

def JoinKind.toJson : JoinKind → Json
  | .inner => .string "Inner"
  | .left => .string "Left"
  | .right => .string "Right"
  | .outer => .string "Outer"
  | .cross => .string "Cross"
  | .plain => .string "Plain"

def Connective.toJson : Connective → Json
  | .and => .string "And"
  | .or => .string "Or"

def Direction.toJson : Direction → Json
  | .ascending => .string "Asc"
  | .descending => .string "Desc"

def Severity.toJson : Severity → Json
  | .info => .string "Info"
  | .warning => .string "Warning"
  | .error => .string "Error"

def TableRef.toJson (t : TableRef) : Json :=
  .object [("table", .string t.table), ("alias", .optional .string t.aliasName),
    ("has_explicit_alias", .bool t.aliasWritten)]

def Join.toJson (j : Join) : Json :=
  .object [("kind", j.kind.toJson), ("table", j.table.toJson),
    ("condition", .optional .string j.condition)]

def Condition.toJson (c : Condition) : Json :=
  .object [("text", .string c.text), ("operator", .optional Connective.toJson c.connective)]

def OrderItem.toJson (o : OrderItem) : Json :=
  .object [("field", .string o.field), ("direction", o.direction.toJson)]

def Bound.toJson : Bound → Json
  | .literal n => .tagged "Literal" (.nat n)
  | .param n => .tagged "Param" (.nat n)

def Assignment.toJson (a : Assignment) : Json :=
  .object [("column", .string a.column), ("value", .string a.value)]

def InsertSource.toJson : InsertSource → Json
  | .assignments pairs => .tagged "Assignments" (.array (pairs.map Assignment.toJson))
  | .positional values => .tagged "Positional" (.strings values)
  | .query columns text =>
    .tagged "Select" (.object [("columns", .strings columns), ("query", .string text)])

def Clauses.toJson (c : Clauses) : Json :=
  .object [
    ("kind", c.kind.toJson),
    ("distinct", .bool c.distinct),
    ("select", .strings c.fields),
    ("table", .optional TableRef.toJson c.table),
    ("extra_tables", .array (c.extraTables.map TableRef.toJson)),
    ("joins", .array (c.joins.map Join.toJson)),
    ("where_conditions", .array (c.conditions.map Condition.toJson)),
    ("group_by", .strings c.groupBy),
    ("having", .optional .string c.having),
    ("order_by", .array (c.orderBy.map OrderItem.toJson)),
    ("limit", .optional Bound.toJson c.limit),
    ("offset", .optional Bound.toJson c.offset),
    ("set", .array (c.assignments.map Assignment.toJson)),
    ("insert", .optional InsertSource.toJson c.source)]

def Arg.toJson : Arg → Json
  | .str t => .tagged "Literal" (.tagged "String" (.string t))
  | .int n => .tagged "Literal" (.tagged "Integer" (.nat n))
  | .param n => .tagged "Param" (.nat n)

def Call.toJson (c : Call) : Json :=
  .object [("method", .string c.method.name), ("args", .array (c.args.map Arg.toJson))]

namespace Issue

def fields : Issue → List (Text × Json)
  | .unsupportedFragment reason => [("reason", .string reason)]
  | .unknownStatement keyword => [("keyword", .string keyword)]
  | .unsupportedConstruct construct position =>
    [("construct", .string construct), ("position", .string position)]
  | .malformedClause clause fragment problem =>
    [("clause", .string clause), ("fragment", .string fragment), ("message", .string problem)]
  | .ambiguousSyntax problem suggestion =>
    [("message", .string problem), ("suggestion", .string suggestion)]
  | .parameterMismatch expected found => [("expected", .nat expected), ("found", .nat found)]

def toJson (i : Issue) : Json := .tagged i.name (.object i.fields)

end Issue

def Outcome.toJson : Outcome → Json
  | .success => .string "Success"
  | .partialSuccess issues => .tagged "Partial" (.array (issues.map Issue.toJson))
  | .failed issue => .tagged "Failed" issue.toJson

def Conversion.toJson (c : Conversion) : Json :=
  .object [("kind", c.kind.toJson), ("clauses", c.clauses.toJson),
    ("ops", .array (c.calls.map Call.toJson)), ("param_count", .nat c.paramCount),
    ("outcome", c.outcome.toJson)]

end QueryChain
