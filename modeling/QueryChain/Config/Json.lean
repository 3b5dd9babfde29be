import QueryChain.Config.Basic
import QueryChain.Json.Reader

namespace QueryChain

def ReservedWords.toJson (r : ReservedWords) : Json := .strings r.words

def ReservedWords.ofJson? (j : Json) : Option ReservedWords := j.strings?.bind ofWords?

namespace EmissionMode

def toJson (m : EmissionMode) : Json := .string m.name

def ofJson? : Json → Option EmissionMode
  | .string t => ofName? t
  | .object [(t, .null)] => ofName? t
  | _ => none

end EmissionMode

namespace Config

def toJson (c : Config) : Json :=
  .object [("reserved_words", c.reservedWords.toJson), ("emission_mode", c.emissionMode.toJson)]

def isField (key : Text) : Bool :=
  key ∈ (["reserved_words", "emission_mode"] : List Text)

def part? {α : Type} [Inhabited α] (read : Json → Option α) : List Json → Option α
  | [] => some default
  | [j] => read j
  | _ => none

instance : Inhabited EmissionMode := ⟨.connection⟩

/-- Fields may be given by name, or by their order in an array. -/
def ofJson? : Json → Option Config
  | .object fields => do
    let words ← part? ReservedWords.ofJson? (Json.valuesOf "reserved_words" fields)
    let mode ← part? EmissionMode.ofJson? (Json.valuesOf "emission_mode" fields)
    return ⟨words, mode⟩
  | .array items => do
    guard (items.length ≤ 2)
    let words ← part? ReservedWords.ofJson? (items.take 1)
    let mode ← part? EmissionMode.ofJson? (items.drop 1)
    return ⟨words, mode⟩
  | _ => none

def ofJsonText (t : Text) : Except ConfigError Config :=
  match (Json.ofText? isField t).bind ofJson? with
  | some c => .ok c
  | none => .error .malformedJson

end Config
end QueryChain
