import QueryChain.Check.Expectation
import QueryChain.Yaml.Documents
import QueryChain.Yaml.Value

namespace QueryChain

open Yaml (Value)

inductive CaseFault where
  | unreadable
  | malformed (document : Nat)
  | emptySql (description : Text)
  | noCases
  deriving DecidableEq, Repr

def CaseFault.message? : CaseFault → Option Text
  | .emptySql description => some ("Case '" ++ description ++ "' has an empty sql field")
  | .noCases => some "Empty test case file"
  | _ => none

namespace Case

def field? (name : Text) (fields : List (Text × Value)) : Option (Option Value) :=
  match fields.filter (·.1 == name) with
  | [] => some none
  | [(_, v)] => some (some v)
  | _ => none

def required? {α : Type} (read : Value → Option α) (name : Text)
    (fields : List (Text × Value)) : Option α := do
  read (← (← field? name fields))

def optional? {α : Type} (read : Value → Option α) (name : Text)
    (fields : List (Text × Value)) : Option (Option α) := do
  match ← field? name fields with
  | none | some (.scalar .null) => return none
  | some v => return some (← read v)

def strings? (v : Value) : Option (List Text) := do (← v.items?).mapM Value.string?

def expectation? (v : Value) : Option ExpectedOutcome := v.name?.bind ExpectedOutcome.ofName?

def ofFields? (fields : List (Text × Value)) : Option Case := do
  return {
    description := ← required? Value.string? "description" fields
    sql := ← required? Value.string? "sql" fields
    expect := ← required? expectation? "expect" fields
    calls := ← optional? strings? "ops" fields
    contains := ← match ← field? "contains" fields with
      | none => some []
      | some v => strings? v
    params := ← optional? Value.nat? "params" fields
    issue := ← optional? Value.string? "error" fields }

def ofValue? (v : Value) : Option Case :=
  match v.untagged with
  | .mapping entries => do
    ofFields? (← entries.mapM fun (key, value) => do return (← key.string?, value))
  | _ => none

def ofDocument (index : Nat) (document : Option Yaml.Node) : Except CaseFault (Option Case) :=
  match document.bind Value.ofDocument? with
  | none => .error (.malformed index)
  | some v =>
    if v.isNull then .ok none
    else
      match ofValue? v with
      | none => .error (.malformed index)
      | some c => if trim c.sql = [] then .error (.emptySql c.description) else .ok (some c)

def ofDocuments (index : Nat) : List (Option Yaml.Node) → Except CaseFault (List Case)
  | [] => .ok []
  | document :: rest => do
    let first ← ofDocument index document
    let others ← ofDocuments (index + 1) rest
    return first.toList ++ others

/-- The cases of a text, of which there must be one. The first fault counts. -/
def ofText (t : Text) : Except CaseFault (List Case) := do
  let cases ← ofDocuments 0 (Yaml.documents t)
  if cases = [] then .error .noCases else .ok cases

def load (content : Option Text) : Except CaseFault (List Case) :=
  match content with
  | some t => ofText t
  | none => .error .unreadable

end Case
end QueryChain
