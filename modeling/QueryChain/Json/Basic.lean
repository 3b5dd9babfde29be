import QueryChain.Text.Decimal

namespace QueryChain

/-- A number is kept as it is written. -/
inductive Json where
  | null
  | bool (value : Bool)
  | number (literal : Text)
  | string (value : Text)
  | array (items : List Json)
  | object (fields : List (Text × Json))
  deriving Inhabited

namespace Json

def nat (n : Nat) : Json := .number (decimal n)

def strings (ts : List Text) : Json := .array (ts.map .string)

def optional {α : Type} (encode : α → Json) : Option α → Json
  | none => .null
  | some a => encode a

def tagged (tag : Text) (value : Json) : Json := .object [(tag, value)]

def valuesOf (key : Text) (fields : List (Text × Json)) : List Json :=
  (fields.filter (·.1 == key)).map Prod.snd

def string? : Json → Option Text
  | .string t => some t
  | _ => none

def strings? : Json → Option (List Text)
  | .array items => items.mapM string?
  | _ => none

mutual

def depth : Json → Nat
  | .array items => depthOfItems items + 1
  | .object fields => depthOfFields fields + 1
  | _ => 0

def depthOfItems : List Json → Nat
  | [] => 0
  | j :: js => max j.depth (depthOfItems js)

def depthOfFields : List (Text × Json) → Nat
  | [] => 0
  | (_, j) :: fs => max j.depth (depthOfFields fs)

end

end Json
end QueryChain
