import QueryChain.Conversion

namespace QueryChain

inductive ExpectedOutcome where
  | success
  | partially
  | declined
  deriving DecidableEq, Repr

namespace ExpectedOutcome

def name : ExpectedOutcome → Text
  | .success => "success"
  | .partially => "partial"
  | .declined => "declined"

def all : List ExpectedOutcome := [.success, .partially, .declined]

def ofName? (t : Text) : Option ExpectedOutcome := all.find? (·.name == t)

end ExpectedOutcome

/-- A statement and what its conversion should be. What is not given is not checked. -/
structure Case where
  description : Text
  sql : Text
  expect : ExpectedOutcome
  calls : Option (List Text) := none
  contains : List Text := []
  params : Option Nat := none
  issue : Option Text := none
  deriving DecidableEq, Repr

inductive Mismatch where
  | outcome (expected : ExpectedOutcome) (actual : Text)
  | issue (expected : Text) (actual : Text)
  | paramCount (expected : Nat) (actual : Nat)
  | calls (expected : List Text) (actual : List Text)
  | missingCall (missing : Text) (actual : List Text)
  deriving DecidableEq, Repr

namespace Mismatch

def name : Mismatch → Text
  | .outcome .. => "OutcomeMismatch"
  | .issue .. => "ErrorMismatch"
  | .paramCount .. => "ParamCountMismatch"
  | .calls .. => "OpsMismatch"
  | .missingCall .. => "MissingOp"

def message : Mismatch → Text
  | .outcome expected actual => "Expected " ++ expected.name ++ ", got " ++ actual
  | .issue expected actual => "Expected error " ++ expected ++ ", got " ++ actual
  | .paramCount expected actual =>
    "Expected " ++ decimal expected ++ " parameter(s), got " ++ decimal actual
  | .calls expected actual =>
    "Op list mismatch:\n  expected: " ++ quotedList expected ++ "\n  actual:   " ++
      quotedList actual
  | .missingCall missing actual => "Missing op " ++ missing ++ " in " ++ quotedList actual

end Mismatch

namespace Case

def declinedMismatch? (c : Case) (issue : Issue) : Option Mismatch :=
  if c.expect = .declined then
    (c.issue.filter (· ≠ issue.name)).map fun expected => .issue expected issue.message
  else some (.outcome c.expect ("declined (" ++ issue.message ++ ")"))

def convertedOutcome (c : Conversion) : ExpectedOutcome :=
  if c.isPartial then .partially else .success

def convertedMismatch? (c : Case) (conversion : Conversion) : Option Mismatch :=
  let actual := conversion.calls.map Call.render
  if c.expect = .declined then some (.outcome .declined (decimal actual.length ++ " op(s)"))
  else if c.expect ≠ convertedOutcome conversion then
    some (.outcome c.expect (convertedOutcome conversion).name)
  else if let some expected := c.params.filter (· ≠ conversion.paramCount) then
    some (.paramCount expected conversion.paramCount)
  else if let some expected := c.calls.filter (· ≠ actual) then some (.calls expected actual)
  else (c.contains.find? (!actual.contains ·)).map fun missing => .missingCall missing actual

def mismatch? (c : Case) : Except Issue Conversion → Option Mismatch
  | .ok conversion => c.convertedMismatch? conversion
  | .error issue => c.declinedMismatch? issue

end Case
end QueryChain
