import QueryChain.Fragment
import QueryChain.Json.Reader

namespace QueryChain

namespace Fragment

mutual

def toJson : Fragment → Json
  | .literal value => .object [("type", .string "literal"), ("value", .string value)]
  | .concat parts => .object [("type", .string "concat"), ("parts", .array (toJsons parts))]
  | .dynamic expression =>
    .object [("type", .string "dynamic"), ("expression", .string expression)]

def toJsons : List Fragment → List Json
  | [] => []
  | f :: fs => f.toJson :: toJsons fs

end

inductive Shape where
  | literal
  | concat
  | dynamic
  deriving DecidableEq

namespace Shape

def all : List Shape := [.literal, .concat, .dynamic]

def name : Shape → Text
  | .literal => "literal"
  | .concat => "concat"
  | .dynamic => "dynamic"

def field : Shape → Text
  | .literal => "value"
  | .concat => "parts"
  | .dynamic => "expression"

def ofJson? (nested : Bool) : Json → Option Shape
  | .string t => all.find? (·.name == t)
  | .number numeral => if nested then (QueryChain.number? numeral).bind (all[·]?) else none
  | _ => none

end Shape

def parts? (nested : Bool) : Json → Option (Shape × Json)
  | .object fields =>
    match Json.valuesOf "type" fields with
    | [tag] => do
      let shape ← Shape.ofJson? nested tag
      match Json.valuesOf shape.field fields with
      | [content] => some (shape, content)
      | _ => none
    | _ => none
  | .array [tag, content] => (Shape.ofJson? nested tag).map (·, content)
  | _ => none

def ofJsonWithin? (nested : Bool) : Nat → Json → Option Fragment
  | 0, _ => none
  | depth + 1, j => do
    match ← parts? nested j with
    | (.literal, .string value) => some (.literal value)
    | (.dynamic, .string expression) => some (.dynamic expression)
    | (.concat, .array parts) => (parts.mapM (ofJsonWithin? true depth)).map .concat
    | _ => none

end Fragment

def Fragment.ofJson? (j : Json) : Option Fragment := Fragment.ofJsonWithin? false (j.depth + 1) j

def Fragment.ofJsonText? (t : Text) : Option Fragment :=
  (Json.ofText? (fun _ => true) t).bind Fragment.ofJson?

end QueryChain
