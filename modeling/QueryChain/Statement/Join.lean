import QueryChain.Sql.Cut
import QueryChain.Statement.Table

namespace QueryChain

inductive JoinWord where
  | join
  | straightJoin
  deriving DecidableEq, Repr

def JoinWord.word : JoinWord → Text
  | .join => "JOIN"
  | .straightJoin => "STRAIGHT_JOIN"

def joinWordAt? (c : Cursor) : Option JoinWord :=
  if c.atTop then [JoinWord.join, .straightJoin].find? fun w => c.startsWith [w.word] else none

def joinQualifiers : List Text :=
  ["INNER", "LEFT", "RIGHT", "OUTER", "CROSS", "FULL", "NATURAL"]

def lastQualifier? (t : Text) : Option (Text × Text) :=
  let backwards := (trimEnd t).reverse
  let word := upper (backwards.takeWhile (!isBlank ·)).reverse
  if word ∈ joinQualifiers then some ((backwards.dropWhile (!isBlank ·)).reverse, word) else none

def dropQualifiers : Nat → Text → List Text → Text × List Text
  | 0, t, found => (t, found)
  | n + 1, t, found =>
    match lastQualifier? t with
    | some (front, word) => dropQualifiers n front (word :: found)
    | none => (t, found)

def trailingQualifiers (t : Text) : Text × List Text := dropQualifiers t.length t []

structure JoinText where
  qualifiers : List Text
  body : Text
  deriving DecidableEq, Repr

/-- Gives each join the qualifiers at the end of the text before it. -/
def assignQualifiers (front : Text) : List (JoinWord × Text) → Text × List JoinText
  | [] => (front, [])
  | (.join, behind) :: rest =>
    let (body, joins) := assignQualifiers behind rest
    ((trailingQualifiers front).1, ⟨(trailingQualifiers front).2, body⟩ :: joins)
  | (.straightJoin, behind) :: rest =>
    let (body, joins) := assignQualifiers behind rest
    (front, ⟨[], body⟩ :: joins)

def cutJoins (t : Text) : Text × List JoinText :=
  let (front, parts) := cutWords (·.word.length) 0 (Cursor.annotate joinWordAt? none (scan t))
  assignQualifiers front parts

def mainTables (t : Text) : Text := trim (cutJoins t).1

structure JoinSegment where
  qualifiers : List Text
  table : Text
  condition : Option Text
  usesUsing : Bool
  deriving DecidableEq, Repr

def JoinText.segment (j : JoinText) : JoinSegment where
  qualifiers := j.qualifiers
  table := trim ((Cursor.start j.body).upTo [["ON"], ["USING"]])
  condition := ((Cursor.start j.body).find? [["ON"]]).map fun (_, after) => trim after.text
  usesUsing := hasKeyword ["USING"] j.body

def joinSegments (t : Text) : List JoinSegment := (cutJoins t).2.map JoinText.segment

def JoinSegment.isNatural (s : JoinSegment) : Bool := s.qualifiers.contains "NATURAL"

def JoinKind.ofQualifiers (qualifiers : List Text) : JoinKind :=
  if qualifiers.contains "LEFT" then .left
  else if qualifiers.contains "RIGHT" then .right
  else if qualifiers.contains "INNER" then .inner
  else if qualifiers.contains "CROSS" then .cross
  else if qualifiers.contains "OUTER" || qualifiers.contains "FULL" then .outer
  else .plain

def mixedJoin : Text := "comma-separated tables mixed with JOIN"

def JoinSegment.resolve (s : JoinSegment) (reserved : ReservedWords) :
    Except Issue (Join × Option Issue) := do
  if s.isNatural then throw (.unsupportedConstruct "NATURAL JOIN" "FROM clause")
  if s.usesUsing then throw (.unsupportedConstruct "JOIN ... USING" "FROM clause")
  if s.table.head? == some '(' then throw (.unsupportedConstruct "derived table" "JOIN")
  if hasTop ',' s.table || s.condition.any (hasTop ',') then
    throw (.unsupportedConstruct mixedJoin "FROM clause")
  match TableFragment.ofText? reserved s.table with
  | none => throw (.malformedClause "JOIN" s.table "expected a table name")
  | some fragment =>
    let issue ← fragment.checkTrailing "JOIN"
    return (⟨.ofQualifiers s.qualifiers, fragment.table, s.condition.filter (· ≠ [])⟩, issue)

/-- The joins of a text, and the issues of those that were kept with less than was written. -/
def resolveJoins (reserved : ReservedWords) (t : Text) : Except Issue (List Join × List Issue) := do
  let resolved ← (joinSegments t).mapM (·.resolve reserved)
  return (resolved.map Prod.fst, resolved.filterMap Prod.snd)

end QueryChain
