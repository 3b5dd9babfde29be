import QueryChain.Issue
import QueryChain.Sql.Placeholder

namespace QueryChain

/-- What a statement's clauses have in common while they are read one after the other: how many
    parameters were named, the issues noted on the way, and each text in which parameters were named
    with what it became. -/
structure Progress where
  issued : Nat := 0
  issues : List Issue := []
  named : List (Text × Text) := []
  deriving DecidableEq, Repr

abbrev Noting := StateM Progress

/-- A step that may also refuse the statement. What was noted before stays noted. -/
abbrev Reading := ExceptT Issue Noting

def nameParams (t : Text) : Noting Text := fun p =>
  (numbered p.issued t,
    { p with
      issued := p.issued + placeholders t
      named := p.named ++ [(t, numbered p.issued t)] })

def note (i : Issue) : Noting Unit := fun p => ((), { p with issues := p.issues ++ [i] })

def noteAll (is : List Issue) : Noting Unit := fun p => ((), { p with issues := p.issues ++ is })

def refuse {α : Type} (i : Issue) : Reading α := throw i

def require {α : Type} (x : Option α) (i : Issue) : Reading α :=
  match x with
  | some a => pure a
  | none => refuse i

inductive Outcome where
  | success
  | partialSuccess (issues : List Issue)
  | failed (issue : Issue)
  deriving DecidableEq, Repr

def Progress.outcome (p : Progress) : Outcome :=
  if p.issues = [] then .success else .partialSuccess p.issues

end QueryChain
