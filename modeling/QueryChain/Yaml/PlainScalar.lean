import QueryChain.Yaml.Glyph

namespace QueryChain.Yaml

/-- What stands for the space between two words of a scalar. Blanks are kept. Of line breaks, one
    becomes a blank, and of several the first is left out. -/
def fold (space : Glyphs) : Text :=
  match textOf (space.filter Glyph.isBreak) with
  | [] => textOf space
  | ['\n'] => [' ']
  | '\n' :: more => more
  | breaks => breaks

structure PlainScalar where
  text : Text
  endsLine : Bool
  rest : Glyphs

def plainWord? (inFlow : Bool) : Glyphs → Option (Text × Glyphs)
  | [] => some ([], [])
  | g :: rest =>
    if g.endsWord then some ([], g :: rest)
    else if inFlow && g.char == ':' && nextIsOneOf ",?[]\x7b\x7d" rest then none
    else if (g.char == ':' && endsWordAt rest) || (inFlow && g.isOneOf ",[]\x7b\x7d") then
      some ([], g :: rest)
    else (plainWord? inFlow rest).map fun (word, behind) => (g.char :: word, behind)

theorem length_plainWord? {inFlow : Bool} {gs behind : Glyphs} {word : Text}
    (h : plainWord? inFlow gs = some (word, behind)) :
    word.length + behind.length = gs.length := by
  induction gs generalizing word with
  | nil => cases h; rfl
  | cons g rest ih =>
    rw [plainWord?] at h
    split at h
    · cases h; simp
    · split at h
      · cases h
      · split at h
        · cases h; simp
        · obtain ⟨⟨more, last⟩, read, eq⟩ := Option.map_eq_some_iff.mp h
          cases eq
          simp only [List.length_cons]
          have := ih read
          omega

def isIndentedByTab (least : Nat) (space : Glyphs) : Bool :=
  (space.dropWhile (!·.isBreak)).any fun g => g.char == '\t' && g.column < least

def plainWords? (inFlow : Bool) (least : Nat) (space gs : Glyphs) : Option PlainScalar :=
  if isBoundary gs || nextIs '#' gs then some ⟨[], space.any Glyph.isBreak, gs⟩
  else
    match _ : plainWord? inFlow gs with
    | none => none
    | some ([], _) => some ⟨[], space.any Glyph.isBreak, gs⟩
    | some (c :: word, behind) =>
      let text := fold space ++ c :: word
      let next := behind.takeWhile Glyph.isSpace
      let rest := behind.dropWhile Glyph.isSpace
      if next = [] then some ⟨text, false, rest⟩
      else if isIndentedByTab least next then none
      else if !inFlow && rest.head?.any (·.column < least) then
        some ⟨text, next.any Glyph.isBreak, rest⟩
      else
        (plainWords? inFlow least next rest).map fun more => { more with text := text ++ more.text }
termination_by gs.length
decreasing_by
  have whole := length_plainWord? ‹plainWord? inFlow gs = some (c :: word, behind)›
  have shorter := (behind.dropWhile_suffix Glyph.isSpace).length_le
  simp only [List.length_cons] at whole
  omega

def plainScalar? (inFlow : Bool) (least : Nat) (gs : Glyphs) : Option PlainScalar :=
  plainWords? inFlow least [] gs

end QueryChain.Yaml
