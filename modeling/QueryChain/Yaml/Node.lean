import QueryChain.Text.Basic

namespace QueryChain.Yaml

structure Properties where
  anchor : Option Nat := none
  tag : Option Text := none
  deriving DecidableEq, Repr

/-- A document as it is written: scalars have no meaning yet, and a repeated node refers to the
    anchor of another. -/
inductive Node where
  | scalar (properties : Properties) (isPlain : Bool) (text : Text)
  | sequence (properties : Properties) (items : List Node)
  | mapping (properties : Properties) (entries : List (Node × Node))
  | repeated (anchor : Nat)
  deriving Inhabited

namespace Node

def properties : Node → Properties
  | scalar p _ _ => p
  | sequence p _ => p
  | mapping p _ => p
  | repeated _ => {}

def missing (p : Properties) : Node := .scalar p true []

def isMissing : Node → Bool
  | scalar _ isPlain text => isPlain && text == []
  | _ => false

mutual

def parts : Node → List Node
  | .sequence p items => .sequence p items :: partsOfItems items
  | .mapping p entries => .mapping p entries :: partsOfEntries entries
  | n => [n]

def partsOfItems : List Node → List Node
  | [] => []
  | n :: ns => n.parts ++ partsOfItems ns

def partsOfEntries : List (Node × Node) → List Node
  | [] => []
  | (key, value) :: es => key.parts ++ value.parts ++ partsOfEntries es

end

def isCollection : Node → Bool
  | sequence .. | mapping .. => true
  | _ => false

def size (n : Node) : Nat := n.parts.length + n.parts.countP isCollection

def resolve (root : Node) : Node → Node
  | .repeated number =>
    ((root.parts.filter fun n => n.properties.anchor == some number).getLast?).getD default
  | n => n

end Node
end QueryChain.Yaml
