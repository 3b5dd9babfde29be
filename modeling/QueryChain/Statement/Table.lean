import QueryChain.Config.ReservedWords
import QueryChain.Issue
import QueryChain.Sql.Pieces
import QueryChain.Statement.Clauses

namespace QueryChain

def unquoted (segment : Text) : Text :=
  let inner := trim segment
  if 2 ≤ inner.length ∧
      ((inner.head? = some '`' ∧ inner.getLast? = some '`') ∨
        (inner.head? = some '"' ∧ inner.getLast? = some '"')) then
    inner.tail.dropLast
  else inner

/-- The dotted segments of an identifier; a dot inside quotes does not cut. -/
def segments (identifier : Text) : List Text := (splitTop '.' (trim identifier)).map unquoted

def plainName (identifier : Text) : Text := joinWith "." (segments identifier)

def columnName (identifier : Text) : Text := (segments identifier).getLastD []

def qualifier? (identifier : Text) : Option Text :=
  match (segments identifier).dropLast with
  | [] => none
  | front => some (joinWith "." front)

structure TableFragment where
  table : TableRef
  trailing : List Text
  deriving DecidableEq, Repr

def isAs (token : Text) : Bool := sameLetters token "AS"

def aliasCandidate? : List Text → Option (Text × List Text)
  | [] => none
  | first :: rest =>
    if isAs first then
      match rest with
      | [] => none
      | second :: more => some (second, more)
    else some (first, rest)

def acceptsAlias (reserved : ReservedWords) (name : Text) : Bool :=
  name ≠ [] && !reserved.contains name && !name.contains '('

namespace TableFragment

/-- Reads `table [[AS] alias]`. Where no alias is accepted, all tokens after the name trail. -/
def ofText? (reserved : ReservedWords) (t : Text) : Option TableFragment :=
  match tokens t with
  | [] => none
  | name :: rest =>
    if name.contains '(' || name.head? == some '\'' then none
    else
      let table : TableRef := { table := plainName name }
      match aliasCandidate? rest with
      | none => some ⟨table, rest⟩
      | some (token, more) =>
        if acceptsAlias reserved (plainName token) then
          some ⟨table.withAlias (plainName token), more⟩
        else some ⟨table, rest⟩

/-- Index hints and partition selection cannot be converted; other trailing text is dropped with
    an issue. -/
def checkTrailing (f : TableFragment) (clause : Text) : Except Issue (Option Issue) :=
  match f.trailing with
  | [] => .ok none
  | first :: _ =>
    if upper first ∈ (["USE", "FORCE", "IGNORE"] : List Text) then
      .error (.unsupportedConstruct "index hint" clause)
    else if upper first = "PARTITION".toList ∨ (after? "PARTITION(" (upper first)).isSome then
      .error (.unsupportedConstruct "PARTITION selection" clause)
    else
      .ok (some (.malformedClause clause (joinWith " " f.trailing)
        "unexpected text after table reference"))

end TableFragment
end QueryChain
