import QueryChain.Text.Decimal
import QueryChain.Yaml.Glyph

namespace QueryChain.Yaml

inductive Chomping where
  | strip
  | clip
  | keep
  deriving DecidableEq, Repr

structure BlockHeader where
  chomping : Chomping := .clip
  indentation : Option Nat := none

def chomping? (gs : Glyphs) : Option Chomping :=
  match gs.head?.map Glyph.char with
  | some '+' => some .keep
  | some '-' => some .strip
  | _ => none

def indentation? (gs : Glyphs) : Option (Option Nat × Glyphs) :=
  match gs with
  | [] => some (none, [])
  | g :: rest =>
    if g.char = '0' then none
    else if g.char.isDigit then some (digitValue? 10 g.char, rest)
    else some (none, g :: rest)

def blockSigns? (gs : Glyphs) : Option (BlockHeader × Glyphs) := do
  match chomping? gs with
  | some chomping =>
    let (indentation, rest) ← indentation? (gs.drop 1)
    return (⟨chomping, indentation⟩, rest)
  | none =>
    let (indentation, rest) ← indentation? gs
    match indentation, chomping? rest with
    | some _, some chomping => return (⟨chomping, indentation⟩, rest.drop 1)
    | _, _ => return (⟨.clip, indentation⟩, rest)

def skipComment (gs : Glyphs) : Glyphs :=
  if nextIs '#' gs then gs.dropWhile (!·.endsLine) else gs

def lineRest? (gs : Glyphs) : Option Glyphs :=
  match skipComment (gs.dropWhile Glyph.isBlank) with
  | [] => some []
  | g :: rest => if g.isBreak then some rest else if g.isClosing then some (g :: rest) else none

def blankLines? (known : Option Nat) : Glyphs → Option (Text × Nat × Glyphs)
  | [] => some ([], 0, [])
  | g :: rest =>
    let isInside := known.all (g.column < ·)
    if g.char == ' ' && isInside then blankLines? known rest
    else if g.char == '\t' && isInside then none
    else if g.isBreak then
      (blankLines? known rest).map fun (breaks, widest, behind) =>
        (g.char :: breaks, max g.column widest, behind)
    else some ([], g.column, g :: rest)

theorem length_blankLines? {known : Option Nat} {gs rest : Glyphs} {breaks : Text} {widest : Nat}
    (h : blankLines? known gs = some (breaks, widest, rest)) : rest.length ≤ gs.length := by
  induction gs generalizing breaks widest with
  | nil => cases h; simp
  | cons g gs ih =>
    simp only [blankLines?] at h
    simp only [List.length_cons]
    split at h
    · have := ih h
      omega
    · split at h
      · cases h
      · split at h
        · obtain ⟨⟨_, _, _⟩, read, eq⟩ := Option.map_eq_some_iff.mp h
          cases eq
          have := ih read
          omega
        · cases h
          simp

structure BlockLine where
  text : Text
  ending : Text
  blankLines : Text

def blockLines? (column : Nat) : Glyphs → Option (List BlockLine × Glyphs)
  | [] => some ([], [])
  | g :: rest =>
    if g.column ≠ column || g.isClosing then some ([], g :: rest)
    else
      let text := g.char :: textOf (rest.takeWhile (!·.endsLine))
      let behind := rest.dropWhile (!·.endsLine)
      let ending := (behind.take 1).filter Glyph.isBreak
      match _ : blankLines? (some column) (behind.drop ending.length) with
      | none => none
      | some (breaks, _, next) =>
        (blockLines? column next).map fun (lines, last) =>
          (⟨text, textOf ending, breaks⟩ :: lines, last)
termination_by gs => gs.length
decreasing_by
  have passed := length_blankLines? ‹blankLines? _ _ = _›
  have shorter : behind.length ≤ rest.length := (rest.dropWhile_suffix _).length_le
  simp only [List.length_drop] at passed
  simp only [List.length_cons]
  omega

def startsBlank (line : BlockLine) : Bool := line.text.head?.any fun c => c == ' ' || c == '\t'

def between (isFolded : Bool) (line next : BlockLine) : Text :=
  if isFolded && line.ending == ['\n'] && !startsBlank line && !startsBlank next then
    if line.blankLines = [] then [' '] else line.blankLines
  else line.ending ++ line.blankLines

def joinLines (isFolded : Bool) (chomping : Chomping) : List BlockLine → Text
  | [] => []
  | [line] =>
    line.text ++
      match chomping with
      | .strip => []
      | .clip => line.ending
      | .keep => line.ending ++ line.blankLines
  | line :: next :: more =>
    line.text ++ between isFolded line next ++ joinLines isFolded chomping (next :: more)

/-- A scalar whose lines are indented under its header, from behind the sign that opens it. The
    collection around it ends left of the `least` column. -/
def blockScalar? (isFolded : Bool) (least : Nat) (gs : Glyphs) : Option (Text × Glyphs) := do
  let (header, behind) ← blockSigns? gs
  let body ← lineRest? behind
  let known := header.indentation.map (least - 1 + ·)
  let (breaks, widest, first) ← blankLines? known body
  let column := known.getD (max widest (max least 1))
  let (lines, rest) ← blockLines? column first
  let isKept := lines ≠ [] || header.chomping = .keep
  return ((if isKept then breaks else []) ++ joinLines isFolded header.chomping lines, rest)

end QueryChain.Yaml
