import QueryChain.Yaml.QuotedScalar
import QueryChain.Yaml.Tag

namespace QueryChain.Yaml

/-- A token that turns out to be a key if a colon follows on its line. One that starts a line of a
    block mapping cannot be anything else. -/
structure PendingKey where
  token : Nat
  line : Nat
  column : Nat
  isRequired : Bool
  deriving DecidableEq, Repr

def widestKey : Nat := 1024

def PendingKey.isStale (k : PendingKey) (g : Glyph) : Bool :=
  k.line < g.line || k.column + widestKey < g.column

/-- How far a text is read: the tokens found, the columns of the open block collections, and, for
    each open flow collection and for what is around them, a key that waits for its colon. Inner
    collections come first. -/
structure Layout where
  rest : Glyphs
  tokens : Array Token := #[]
  columns : List Nat := []
  keys : List (Option PendingKey) := [none]
  allowsKey : Bool := true
  deriving DecidableEq, Repr

namespace Layout

def inFlow (l : Layout) : Bool := 1 < l.keys.length

def leastColumn (l : Layout) : Nat := (l.columns.head?.map (· + 1)).getD 0

def push (l : Layout) (token : Token) : Layout := { l with tokens := l.tokens.push token }

def closeTo (column : Nat) (l : Layout) : Layout :=
  if l.inFlow then l
  else
    let ended := l.columns.takeWhile (column < ·)
    { l with
      tokens := l.tokens ++ ended.map fun _ => Token.blockEnd
      columns := l.columns.drop ended.length }

def closeAll (l : Layout) : Layout :=
  if l.inFlow then l
  else { l with tokens := l.tokens ++ l.columns.map fun _ => Token.blockEnd, columns := [] }

def openAt (column : Nat) (place : Nat) (start : Token) (l : Layout) : Layout :=
  if l.inFlow || !l.columns.head?.all (· < column) then l
  else
    { l with
      tokens := l.tokens.insertIdxIfInBounds place start
      columns := column :: l.columns }

def dropKey? (l : Layout) : Option Layout :=
  match l.keys with
  | some k :: outer => if k.isRequired then none else some { l with keys := none :: outer }
  | _ => some l

def awaitKey? (g : Glyph) (l : Layout) : Option Layout :=
  if l.allowsKey then do
    let isRequired := !l.inFlow && l.columns.head? == some g.column
    let free ← l.dropKey?
    return { free with
      keys := some ⟨l.tokens.size, g.line, g.column, isRequired⟩ :: free.keys.drop 1 }
  else some l

def settled? (g : Glyph) : Option PendingKey → Option (Option PendingKey)
  | some k => if k.isStale g then (if k.isRequired then none else some none) else some (some k)
  | none => some none

def dropStaleKeys? (l : Layout) : Option Layout :=
  match l.rest.head? with
  | some g => do return { l with keys := ← l.keys.mapM (settled? g) }
  | none => some l

def skipSpace (inFlow allowsKey : Bool) (inComment : Bool) : Glyphs → Bool × Glyphs
  | [] => (allowsKey, [])
  | g :: rest =>
    if g.isBreak then skipSpace inFlow (allowsKey || !inFlow) false rest
    else if g.isClosing then (allowsKey, g :: rest)
    else if inComment || g.char == '#' then skipSpace inFlow allowsKey true rest
    else if g.char == ' ' || (g.char == '\t' && (inFlow || !allowsKey)) then
      skipSpace inFlow allowsKey false rest
    else (allowsKey, g :: rest)

def toToken (l : Layout) : Layout :=
  let (allowsKey, rest) := skipSpace l.inFlow l.allowsKey false l.rest
  { l with allowsKey, rest }

def sign (token : Token) (size : Nat) (allowsKey : Bool) (l : Layout) : Layout :=
  { l.push token with rest := l.rest.drop size, allowsKey }

def documentSign? (token : Token) (size : Nat) (l : Layout) : Option Layout := do
  return (← l.closeAll.dropKey?).sign token size false

def readDirective? (l : Layout) : Option Layout := do
  let l ← l.closeAll.dropKey?
  let (token, rest) ← directive? (l.rest.drop 1)
  return { l.push token with rest, allowsKey := false }

def openFlow? (token : Token) (g : Glyph) (l : Layout) : Option Layout := do
  let l ← l.awaitKey? g
  return { l.sign token 1 true with keys := none :: l.keys }

def closeFlow? (token : Token) (l : Layout) : Option Layout := do
  let l ← l.dropKey?
  return { l.sign token 1 false with keys := if l.inFlow then l.keys.drop 1 else l.keys }

def flowEntry? (l : Layout) : Option Layout := do
  return (← l.dropKey?).sign .flowEntry 1 true

def blockEntry? (g : Glyph) (l : Layout) : Option Layout := do
  guard (l.inFlow || l.allowsKey)
  let l := l.openAt g.column l.tokens.size .blockSequenceStart
  return (← l.dropKey?).sign .blockEntry 1 true

def explicitKey? (g : Glyph) (l : Layout) : Option Layout := do
  guard (l.inFlow || l.allowsKey)
  let l := l.openAt g.column l.tokens.size .blockMappingStart
  return (← l.dropKey?).sign .key 1 (!l.inFlow)

def readColon? (g : Glyph) (l : Layout) : Option Layout :=
  match l.keys with
  | some k :: outer =>
    let marked := { l with tokens := l.tokens.insertIdxIfInBounds k.token .key, keys := none :: outer }
    some ((marked.openAt k.column k.token .blockMappingStart).sign .value 1 false)
  | _ => do
    guard (l.inFlow || l.allowsKey)
    return (l.openAt g.column l.tokens.size .blockMappingStart).sign .value 1 (!l.inFlow)

def property? (read : Glyphs → Option (Token × Glyphs)) (g : Glyph) (l : Layout) :
    Option Layout := do
  let l ← l.awaitKey? g
  let (token, rest) ← read l.rest
  return { l.push token with rest, allowsKey := false }

def readBlockScalar? (isFolded : Bool) (l : Layout) : Option Layout := do
  let l ← l.dropKey?
  let (text, rest) ← blockScalar? isFolded l.leastColumn (l.rest.drop 1)
  return { l.push (.scalar false text) with rest, allowsKey := true }

def readPlainScalar? (g : Glyph) (l : Layout) : Option Layout := do
  let l ← l.awaitKey? g
  let scalar ← plainScalar? l.inFlow l.leastColumn l.rest
  return { l.push (.scalar true scalar.text) with rest := scalar.rest, allowsKey := scalar.endsLine }

def named (token : Text → Token) (gs : Glyphs) : Option (Token × Glyphs) :=
  (anchorName? (gs.drop 1)).map fun (name, rest) => (token name, rest)

def quoted (quote : Char) (gs : Glyphs) : Option (Token × Glyphs) :=
  (quotedScalar? quote (gs.drop 1)).map fun (text, rest) => (.scalar false text, rest)

def isIndicator (l : Layout) (g : Glyph) (behind : Glyphs) : Bool :=
  match g.char with
  | '-' => endsWordAt behind
  | '?' | ':' => l.inFlow || endsWordAt behind
  | _ => false

def startsPlain (l : Layout) (g : Glyph) (behind : Glyphs) : Bool :=
  match g.char with
  | '-' => !behind.head?.any Glyph.isBlank
  | '?' | ':' => !l.inFlow && !endsWordAt behind
  | _ => !(g.endsWord || g.isOneOf ",[]\x7b\x7d#&*!|>'\"%@`")

def readToken? (g : Glyph) (behind : Glyphs) (l : Layout) : Option Layout :=
  match g.char with
  | '[' => l.openFlow? .flowSequenceStart g
  | '\x7b' => l.openFlow? .flowMappingStart g
  | ']' => l.closeFlow? .flowSequenceEnd
  | '\x7d' => l.closeFlow? .flowMappingEnd
  | ',' => l.flowEntry?
  | '*' => l.property? (named .repeated) g
  | '&' => l.property? (named .anchor) g
  | '!' => l.property? (tag? l.inFlow) g
  | '\'' => l.property? (quoted '\'') g
  | '"' => l.property? (quoted '"') g
  | c =>
    if l.isIndicator g behind then
      if c = '-' then l.blockEntry? g else if c = '?' then l.explicitKey? g else l.readColon? g
    else if (c == '|' || c == '>') && !l.inFlow then l.readBlockScalar? (c == '>')
    else if l.startsPlain g behind then l.readPlainScalar? g
    else none

def next? (l : Layout) : Option Layout := do
  let l ← l.toToken.dropStaleKeys?
  match l.rest with
  | [] => none
  | g :: behind =>
    let l := l.closeTo g.column
    let next ←
      if g.isClosing then l.documentSign? .streamEnd 1
      else if g.column = 0 && g.char == '%' then l.readDirective?
      else if isDocumentStart l.rest then l.documentSign? .documentStart 3
      else if isDocumentEnd l.rest then l.documentSign? .documentEnd 3
      else l.readToken? g behind
    next.dropStaleKeys?

/-- How many tokens are certain: those in front of all that may still become keys. -/
def certain (l : Layout) : Nat :=
  (l.keys.filterMap fun k => k.map (·.token)).foldl min l.tokens.size

def run (l : Layout) : List Token :=
  match l.next? with
  | none => l.tokens.toList.take l.certain
  | some next =>
    if next.rest = [] then next.tokens.toList
    else if next.rest.length < l.rest.length then next.run
    else []
termination_by l.rest.length

end Layout

def tokensOf (gs : Glyphs) : List Token := Layout.run { rest := gs }

end QueryChain.Yaml
