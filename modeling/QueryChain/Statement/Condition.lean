import QueryChain.Sql.Cut
import QueryChain.Sql.NormalForm
import QueryChain.Sql.Pieces
import QueryChain.Sql.Placeholder
import QueryChain.Statement.Clauses

namespace QueryChain

inductive LogicWord where
  | caseWord
  | endWord
  | between
  | connective (c : Connective)
  deriving DecidableEq, Repr

def LogicWord.word : LogicWord → Text
  | .caseWord => "CASE"
  | .endWord => "END"
  | .between => "BETWEEN"
  | .connective c => c.word

def LogicWord.all : List LogicWord :=
  [.caseWord, .endWord, .between, .connective .and, .connective .or]

def logicWordAt? (c : Cursor) : Option LogicWord :=
  if c.atTop then LogicWord.all.find? fun w => c.startsWith [w.word] else none

/-- Keeps the connectives that join conditions: none between `CASE` and its `END`, and not the
    `AND` that a `BETWEEN` still waits for. -/
def splitPoints (caseDepth : Nat) (between : Bool) :
    List (Char × Option LogicWord) → List (Char × Option Connective)
  | [] => []
  | (c, some .caseWord) :: rest => (c, none) :: splitPoints (caseDepth + 1) between rest
  | (c, some .endWord) :: rest => (c, none) :: splitPoints (caseDepth - 1) between rest
  | (c, some .between) :: rest => (c, none) :: splitPoints caseDepth (between || caseDepth == 0) rest
  | (c, some (.connective k)) :: rest =>
    if caseDepth ≠ 0 then (c, none) :: splitPoints caseDepth between rest
    else if k = .and ∧ between then (c, none) :: splitPoints 0 false rest
    else (c, some k) :: splitPoints 0 between rest
  | (c, none) :: rest => (c, none) :: splitPoints caseDepth between rest

/-- The non-empty pieces between the split points, each with the connective in front of it. The
    first has none, whatever was written there. -/
def conditionPieces (t : Text) : List Condition :=
  let logic := Cursor.annotate logicWordAt? none (scan t)
  let (head, parts) := cutWords (·.word.length) 0 (splitPoints 0 false logic)
  let pieces : List Condition := ⟨trim head, none⟩ :: parts.map fun (k, body) => ⟨trim body, some k⟩
  match pieces.filter (·.text ≠ []) with
  | [] => []
  | first :: rest => { first with connective := none } :: rest

/-- Joins a condition to the one before it when it is an `AND` behind an `OR`: a chain of calls is
    read from the left, where SQL binds `AND` tighter. -/
def foldAnds (afterOr : Bool) (last : Condition) : List Condition → List Condition
  | [] => [last]
  | c :: rest =>
    if afterOr ∧ c.connective = some .and then
      foldAnds afterOr { last with text := last.text ++ " AND " ++ c.text } rest
    else last :: foldAnds (afterOr || c.connective == some .or) c rest

def foldPrecedence : List Condition → List Condition
  | [] => []
  | first :: rest => foldAnds (first.connective == some .or) first rest

def splitConditions (t : Text) : List Condition :=
  if t = [] then []
  else if isGroup t then [⟨t, none⟩]
  else if (conditionPieces t).length < 2 then [⟨t, none⟩]
  else foldPrecedence (conditionPieces t)

def conditionsOf (issued : Nat) (section_ : Text) : List Condition :=
  splitConditions (numbered issued (normalize section_))

end QueryChain
