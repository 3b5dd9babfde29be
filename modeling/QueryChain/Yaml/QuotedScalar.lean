import QueryChain.Text.Decimal
import QueryChain.Yaml.PlainScalar

namespace QueryChain.Yaml

def shortEscape? : Char → Option Char
  | '0' => some '\x00'
  | 'a' => some '\x07'
  | 'b' => some '\x08'
  | 't' => some '\t'
  | '\t' => some '\t'
  | 'n' => some '\n'
  | 'v' => some '\x0b'
  | 'f' => some '\x0c'
  | 'r' => some '\r'
  | 'e' => some '\x1b'
  | ' ' => some ' '
  | '"' => some '"'
  | '/' => some '/'
  | '\\' => some '\\'
  | 'N' => some '\u0085'
  | '_' => some '\u00a0'
  | 'L' => some '\u2028'
  | 'P' => some '\u2029'
  | _ => none

def escapeDigits? : Char → Option Nat
  | 'x' => some 2
  | 'u' => some 4
  | 'U' => some 8
  | _ => none

def escaped? : Glyphs → Option (Char × Glyphs)
  | [] => none
  | g :: rest =>
    match escapeDigits? g.char with
    | some digits => do
      let code ← numeral? 16 (textOf (rest.take digits))
      guard (code.isValidChar && digits ≤ rest.length)
      return (Char.ofNat code, rest.drop digits)
    | none => (shortEscape? g.char).map fun c => (c, rest)

theorem length_escaped? {gs behind : Glyphs} {c : Char} (h : escaped? gs = some (c, behind)) :
    behind.length < gs.length := by
  cases gs with
  | nil => cases h
  | cons g rest =>
    rw [escaped?] at h
    split at h
    · obtain ⟨_, -, behind⟩ := Option.bind_eq_some_iff.mp h
      obtain ⟨_, -, last⟩ := Option.bind_eq_some_iff.mp behind
      cases last
      simp only [List.length_drop, List.length_cons]
      omega
    · obtain ⟨_, -, eq⟩ := Option.map_eq_some_iff.mp h
      cases eq
      simp

def putBefore (text : Text) (read : Option (Text × Glyphs)) : Option (Text × Glyphs) :=
  read.map fun (more, rest) => (text ++ more, rest)

/-- A scalar in quotes, from behind its opening quote, and what follows it. Between double quotes a
    backslash also joins two lines without a blank. -/
def quotedScalar? (quote : Char) : Glyphs → Option (Text × Glyphs)
  | [] => none
  | g :: rest =>
    if isBoundary (g :: rest) || g.isClosing then none
    else if g.isSpace then
      putBefore (fold (g :: rest.takeWhile Glyph.isSpace))
        (quotedScalar? quote (rest.dropWhile Glyph.isSpace))
    else if g.char = quote then
      if quote = '\'' && nextIs '\'' rest then putBefore ['\''] (quotedScalar? quote (rest.drop 1))
      else some ([], rest)
    else if quote = '"' && g.char == '\\' then
      if rest.head?.any Glyph.isBreak then
        putBefore (textOf (((rest.drop 1).takeWhile Glyph.isSpace).filter Glyph.isBreak))
          (quotedScalar? quote ((rest.drop 1).dropWhile Glyph.isSpace))
      else
        match _ : escaped? rest with
        | some (c, behind) => putBefore [c] (quotedScalar? quote behind)
        | none => none
    else putBefore [g.char] (quotedScalar? quote rest)
termination_by gs => gs.length
decreasing_by
  · have := (rest.dropWhile_suffix Glyph.isSpace).length_le
    simp only [List.length_cons]
    omega
  · simp only [List.length_drop, List.length_cons]
    omega
  · have := ((rest.drop 1).dropWhile_suffix Glyph.isSpace).length_le
    simp only [List.length_drop, List.length_cons] at *
    omega
  · have := length_escaped? ‹escaped? rest = some (c, behind)›
    simp only [List.length_cons]
    omega
  · simp

end QueryChain.Yaml
