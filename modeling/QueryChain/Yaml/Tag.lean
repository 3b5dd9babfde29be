import QueryChain.Text.Decimal
import QueryChain.Yaml.BlockScalar
import QueryChain.Yaml.Token

namespace QueryChain.Yaml

def nameAt (gs : Glyphs) : Text := textOf (gs.takeWhile Glyph.isNameChar)

def anchorName? (gs : Glyphs) : Option (Text × Glyphs) :=
  let rest := gs.dropWhile Glyph.isNameChar
  if nameAt gs ≠ [] ∧ (endsWordAt rest || nextIsOneOf "?:,]\x7d%@`" rest) then
    some (nameAt gs, rest)
  else none

def handle? (gs : Glyphs) : Option (Text × Glyphs) := do
  guard (nextIs '!' gs)
  let rest := (gs.drop 1).dropWhile Glyph.isNameChar
  let name := '!' :: nameAt (gs.drop 1)
  if nextIs '!' rest then return (name ++ ['!'], rest.drop 1) else return (name, rest)

def isUriChar (isVerbatim : Bool) (g : Glyph) : Bool :=
  g.isNameChar || g.isOneOf ";/?:@&=+$.%!~*'()" || (isVerbatim && g.isOneOf ",[]")

def octets? : Text → Option (List UInt8)
  | '%' :: a :: b :: rest => do
    let octet ← numeral? 16 [a, b]
    return octet.toUInt8 :: (← octets? rest)
  | c :: rest => do
    guard (c ≠ '%')
    return c.toNat.toUInt8 :: (← octets? rest)
  | [] => some []

def decoded? (t : Text) : Option Text := do
  let octets ← octets? t
  return (← String.fromUTF8? ⟨octets.toArray⟩).toList

def uri? (isVerbatim : Bool) (gs : Glyphs) : Option (Text × Glyphs) := do
  let uri ← decoded? (textOf (gs.takeWhile (isUriChar isVerbatim)))
  return (uri, gs.dropWhile (isUriChar isVerbatim))

def tagParts? (gs : Glyphs) : Option (Token × Glyphs) := do
  if nextIs '<' (gs.drop 1) then
    let (suffix, rest) ← uri? true (gs.drop 2)
    guard (suffix ≠ [] && nextIs '>' rest)
    return (.tag [] suffix, rest.drop 1)
  let (handle, behind) ← handle? gs
  if handle.length > 1 && handle.getLast? == some '!' then
    let (suffix, rest) ← uri? false behind
    guard (suffix ≠ [])
    return (.tag handle suffix, rest)
  let (more, rest) ← uri? false behind
  match handle.drop 1 ++ more with
  | [] => return (.tag [] ['!'], rest)
  | suffix => return (.tag ['!'] suffix, rest)

def tag? (inFlow : Bool) (gs : Glyphs) : Option (Token × Glyphs) := do
  let (token, rest) ← tagParts? gs
  guard (endsWordAt rest || (inFlow && nextIs ',' rest))
  return (token, rest)

def skipBlanks (gs : Glyphs) : Glyphs := gs.dropWhile Glyph.isBlank

def versionNumber? (gs : Glyphs) : Option (Nat × Glyphs) := do
  let digits := textOf (gs.takeWhile (·.char.isDigit))
  guard (digits.length ≤ 9)
  return (← numeral? 10 digits, gs.drop digits.length)

def version? (gs : Glyphs) : Option (Token × Glyphs) := do
  let (major, behind) ← versionNumber? gs
  guard (nextIs '.' behind)
  let (minor, rest) ← versionNumber? (behind.drop 1)
  return (.version major minor, rest)

def tagShorthand? (gs : Glyphs) : Option (Token × Glyphs) := do
  let (handle, behind) ← handle? gs
  guard (handle.length = 1 || handle.getLast? == some '!')
  guard (behind.head?.any Glyph.isBlank)
  let (start, rest) ← uri? true (skipBlanks behind)
  guard (start ≠ [] && endsWordAt rest)
  return (.tagShorthand handle start, rest)

def directive? (gs : Glyphs) : Option (Token × Glyphs) := do
  let behind := gs.dropWhile Glyph.isNameChar
  guard (endsWordAt behind)
  let (token, rest) ←
    if nameAt gs = "YAML" then version? (skipBlanks behind)
    else if nameAt gs = "TAG" then tagShorthand? (skipBlanks behind)
    else none
  return (token, ← lineRest? rest)

end QueryChain.Yaml
