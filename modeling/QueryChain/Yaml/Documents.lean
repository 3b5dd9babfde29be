import QueryChain.Yaml.Layout
import QueryChain.Yaml.Node

namespace QueryChain.Yaml

structure Remainder where
  tokens : List Token
  anchors : List (Text × Nat) := []

/-- A step of reading a document. It stops where the document is malformed. -/
abbrev Grammar := StateT Remainder Option

abbrev TagShorthands := List (Text × Text)

namespace Grammar

def peek : Grammar Token := fun r => do return (← r.tokens.head?, r)

def skip : Grammar Unit := fun r => some ((), { r with tokens := r.tokens.drop 1 })

def expect (token : Token) : Grammar Unit := do
  guard ((← peek) = token)
  skip

def isNext (tokens : List Token) : Grammar Bool := do return tokens.contains (← peek)

def define (name : Text) : Grammar Nat := fun r =>
  some (r.anchors.length,
    { r with anchors := (name, r.anchors.length) :: r.anchors.filter (·.1 ≠ name) })

def number (name : Text) : Grammar Nat := fun r => do return (← r.anchors.lookup name, r)

def anchor? : Grammar (Option Text) := do
  match ← peek with
  | .anchor name =>
    skip
    return some name
  | _ => return none

def fullTag (shorthands : TagShorthands) (handle suffix : Text) : Option Text :=
  if handle = [] then some suffix
  else (shorthands.lookup handle).map fun start => start ++ suffix

def tag? (shorthands : TagShorthands) : Grammar (Option Text) := do
  match ← peek with
  | .tag handle suffix =>
    skip
    return some (← fullTag shorthands handle suffix)
  | _ => return none

def properties (shorthands : TagShorthands) : Grammar Properties := do
  let early ← anchor?
  let tag ← tag? shorthands
  let name ← if early.isSome then pure early else anchor?
  return ⟨← name.mapM define, tag⟩

def scalarProperties (p : Properties) : Properties :=
  if p.tag = some ['!'] then { p with tag := none } else p

def endsBlockNode : List Token := [.key, .value, .blockEnd]

def endsFlowItem : List Token := [.flowEntry, .flowSequenceEnd]

def endsFlowEntry : List Token := [.flowEntry, .flowMappingEnd]

mutual

/-- A node. Block collections may come only `inBlock`, and one of items without indentation only
    where it is the key or value of a mapping. -/
def node (shorthands : TagShorthands) : Nat → Bool → Bool → Grammar Node
  | 0, _, _ => failure
  | fuel + 1, inBlock, inMapping => do
    if let .repeated name ← peek then
      skip
      return .repeated (← number name)
    let p ← properties shorthands
    match ← peek, inBlock with
    | .scalar isPlain text, _ =>
      skip
      return .scalar (scalarProperties p) isPlain text
    | .flowSequenceStart, _ =>
      skip
      return .sequence p (← flowItems shorthands fuel true)
    | .flowMappingStart, _ =>
      skip
      return .mapping p (← flowEntries shorthands fuel true)
    | .blockSequenceStart, true =>
      skip
      return .sequence p (← blockItems shorthands fuel)
    | .blockMappingStart, true =>
      skip
      return .mapping p (← blockEntries shorthands fuel)
    | .blockEntry, _ =>
      if inMapping then return .sequence p (← openItems shorthands fuel)
      else if p = {} then failure
      else return .missing p
    | _, _ => if p = {} then failure else return .missing p

def optional (shorthands : TagShorthands) :
    Nat → List Token → Bool → Bool → Grammar Node
  | 0, _, _, _ => failure
  | fuel + 1, ends, inBlock, inMapping => do
    if ← isNext ends then return .missing {} else node shorthands fuel inBlock inMapping

def blockItems (shorthands : TagShorthands) : Nat → Grammar (List Node)
  | 0 => failure
  | fuel + 1 => do
    if ← isNext [.blockEnd] then
      skip
      return []
    expect .blockEntry
    let item ← optional shorthands fuel [.blockEntry, .blockEnd] true false
    return item :: (← blockItems shorthands fuel)

def openItems (shorthands : TagShorthands) : Nat → Grammar (List Node)
  | 0 => failure
  | fuel + 1 => do
    if ← isNext [.blockEntry] then
      skip
      let item ← optional shorthands fuel (.blockEntry :: endsBlockNode) true false
      return item :: (← openItems shorthands fuel)
    return []

def valueOf (shorthands : TagShorthands) :
    Nat → List Token → Bool → Grammar Node
  | 0, _, _ => failure
  | fuel + 1, ends, inBlock => do
    if ← isNext [.value] then
      skip
      optional shorthands fuel ends inBlock inBlock
    else return .missing {}

def blockEntries (shorthands : TagShorthands) : Nat → Grammar (List (Node × Node))
  | 0 => failure
  | fuel + 1 => do
    if ← isNext [.blockEnd] then
      skip
      return []
    expect .key
    let key ← optional shorthands fuel endsBlockNode true true
    let value ← valueOf shorthands fuel endsBlockNode true
    return (key, value) :: (← blockEntries shorthands fuel)

def flowItems (shorthands : TagShorthands) : Nat → Bool → Grammar (List Node)
  | 0, _ => failure
  | fuel + 1, isFirst => do
    if !isFirst && !(← isNext [.flowSequenceEnd]) then expect .flowEntry
    if ← isNext [.flowSequenceEnd] then
      skip
      return []
    if ← isNext [.key] then
      skip
      let entry ← pair shorthands fuel
      return .mapping {} [entry] :: (← flowItems shorthands fuel false)
    let item ← node shorthands fuel false false
    return item :: (← flowItems shorthands fuel false)

def pair (shorthands : TagShorthands) : Nat → Grammar (Node × Node)
  | 0 => failure
  | fuel + 1 => do
    let key ←
      if ← isNext (.value :: endsFlowItem) then
        skip
        pure (.missing {})
      else node shorthands fuel false false
    return (key, ← valueOf shorthands fuel endsFlowItem false)

def flowEntries (shorthands : TagShorthands) : Nat → Bool → Grammar (List (Node × Node))
  | 0, _ => failure
  | fuel + 1, isFirst => do
    if !isFirst && !(← isNext [.flowMappingEnd]) then expect .flowEntry
    if ← isNext [.flowMappingEnd] then
      skip
      return []
    let entry ←
      if ← isNext [.key] then
        skip
        let key ← optional shorthands fuel (.value :: endsFlowEntry) false false
        pure (key, ← valueOf shorthands fuel endsFlowEntry false)
      else pure (← node shorthands fuel false false, .missing {})
    return entry :: (← flowEntries shorthands fuel false)

end

def directives : Nat → Bool → TagShorthands → Grammar TagShorthands
  | 0, _, _ => failure
  | fuel + 1, hasVersion, shorthands => do
    match ← peek with
    | .version major minor =>
      guard (!hasVersion && major == 1 && (minor == 1 || minor == 2))
      skip
      directives fuel true shorthands
    | .tagShorthand handle start =>
      guard (shorthands.lookup handle).isNone
      skip
      directives fuel hasVersion (shorthands ++ [(handle, start)])
    | _ => return shorthands

def standardShorthands : TagShorthands := [("!", "!"), ("!!", "tag:yaml.org,2002:")]

def startsDocument : Token → Bool
  | .version .. | .tagShorthand .. | .documentStart => true
  | _ => false

/-- The root of a document. Only the first may do without a line that opens it. -/
def document (fuel : Nat) (isFirst : Bool) : Grammar Node := do
  let root ←
    if isFirst && !startsDocument (← peek) then node standardShorthands fuel true false
    else do
      let shorthands ← directives fuel false []
      expect .documentStart
      let next ← peek
      if startsDocument next || next == .documentEnd || next == .streamEnd then pure (.missing {})
      else node (shorthands ++ standardShorthands) fuel true false
  if ← isNext [.documentEnd] then skip
  return root

end Grammar

def documentsFrom (isFirst : Bool) (tokens : List Token) : List (Option Node) :=
  let start := if isFirst then tokens else tokens.dropWhile (· == .documentEnd)
  if start = [.streamEnd] then []
  else
    match (Grammar.document (4 * start.length + 4) isFirst).run ⟨start, []⟩ with
    | none => [none]
    | some (root, r) =>
      some root :: if r.tokens.length < tokens.length then documentsFrom false r.tokens else []
termination_by tokens.length

def documents (t : Text) : List (Option Node) :=
  match glyphs? t with
  | some gs => documentsFrom true (tokensOf gs)
  | none => [none]

end QueryChain.Yaml
