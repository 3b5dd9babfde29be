import QueryChain.Text.Basic

namespace QueryChain.Yaml

structure Glyph where
  char : Char
  line : Nat
  column : Nat
  deriving DecidableEq, Repr

abbrev Glyphs := List Glyph

def closing : Char := '\x00'

def isBreakChar (c : Char) : Bool := c == '\n' || c == '\u2028' || c == '\u2029'

namespace Glyph

def isBlank (g : Glyph) : Bool := g.char == ' ' || g.char == '\t'

def isBreak (g : Glyph) : Bool := isBreakChar g.char

def isClosing (g : Glyph) : Bool := g.char == closing

def isSpace (g : Glyph) : Bool := g.isBlank || g.isBreak

def endsLine (g : Glyph) : Bool := g.isBreak || g.isClosing

def endsWord (g : Glyph) : Bool := g.isBlank || g.endsLine

def isOneOf (cs : Text) (g : Glyph) : Bool := cs.contains g.char

def isNameChar (g : Glyph) : Bool := g.char.isAlphanum || g.char == '_' || g.char == '-'

end Glyph

def textOf (gs : Glyphs) : Text := gs.map Glyph.char

def endsWordAt (gs : Glyphs) : Bool := gs.head?.all Glyph.endsWord

def nextIs (c : Char) (gs : Glyphs) : Bool := gs.head?.any (·.char == c)

def nextIsOneOf (cs : Text) (gs : Glyphs) : Bool := gs.head?.any (·.isOneOf cs)

def isLineOf (c : Char) (gs : Glyphs) : Bool :=
  gs.head?.any (·.column == 0) && textOf (gs.take 3) == [c, c, c] && endsWordAt (gs.drop 3)

def isDocumentStart (gs : Glyphs) : Bool := isLineOf '-' gs

def isDocumentEnd (gs : Glyphs) : Bool := isLineOf '.' gs

def isBoundary (gs : Glyphs) : Bool := isDocumentStart gs || isDocumentEnd gs

def isAllowed (c : Char) : Bool :=
  let n := c.toNat
  n == 0x09 || n == 0x0a || n == 0x0d || (0x20 ≤ n && n ≤ 0x7e) || n == 0x85 ||
    (0xa0 ≤ n && n ≤ 0xfffd && n != 0xfeff) || 0x10000 ≤ n

def unifyBreaks : Text → Text
  | '\r' :: '\n' :: rest => '\n' :: unifyBreaks rest
  | c :: rest => (if c = '\r' ∨ c = '\u0085' then '\n' else c) :: unifyBreaks rest
  | [] => []

def glyphsFrom (line column : Nat) : Text → Glyphs
  | [] => [⟨closing, line, column⟩]
  | c :: rest =>
    ⟨c, line, column⟩ ::
      if isBreakChar c then glyphsFrom (line + 1) 0 rest else glyphsFrom line (column + 1) rest

def glyphs? (t : Text) : Option Glyphs :=
  let body := (after? ['\ufeff'] t).getD t
  if body.all isAllowed then some (glyphsFrom 0 0 (unifyBreaks body)) else none

theorem textOf_glyphsFrom (line column : Nat) (t : Text) :
    textOf (glyphsFrom line column t) = t ++ [closing] := by
  induction t generalizing line column with
  | nil => rfl
  | cons c rest ih =>
    rw [glyphsFrom]
    split <;> simpa [textOf] using ih _ _

end QueryChain.Yaml
