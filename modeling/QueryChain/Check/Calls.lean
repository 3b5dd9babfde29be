import QueryChain.Conversion

namespace QueryChain

namespace Conversion

def hasCalls (c : Conversion) (expected : List Text) : Bool := c.calls.map Call.render == expected

def hasCall (c : Conversion) (expected : Text) : Bool :=
  (c.calls.map Call.render).contains expected

def position? (c : Conversion) (m : Method) : Option Nat := c.calls.findIdx? (·.method == m)

def callsBefore (c : Conversion) (first second : Method) : Bool :=
  match c.position? first, c.position? second with
  | some i, some j => i < j
  | _, _ => false

def paramsInOrder (c : Conversion) : Bool :=
  c.calls.flatMap Call.params == List.range' 1 c.paramCount

def count (c : Conversion) (m : Method) : Nat := c.calls.countP (·.method == m)

end Conversion
end QueryChain
