import QueryChain.Config.Basic
import QueryChain.Yaml.Documents
import QueryChain.Yaml.Value

namespace QueryChain

open Yaml (Node)

def Yaml.Node.text? (root : Node) (n : Node) : Option Text :=
  match root.resolve n with
  | .scalar _ _ text => some text
  | _ => none

def ReservedWords.ofNode? (root n : Node) : Option ReservedWords :=
  match root.resolve n with
  | .sequence _ items => (items.mapM root.text?).bind ofWords?
  | _ => none

def EmissionMode.ofNode? (root n : Node) : Option EmissionMode :=
  match root.resolve n with
  | .scalar p isPlain text =>
    match Yaml.Value.localTag? p with
    | some name =>
      if isPlain && (text = [] || Yaml.Scalar.isNullWord text) then ofName? name else none
    | none => ofName? text
  | _ => none

namespace Config

def valuesOf (name : Text) (entries : List (Text × Node)) : List Node :=
  (entries.filter (·.1 == name)).map Prod.snd

def field? {α : Type} (missing : α) (read : Node → Option α) : List Node → Option α
  | [] => some missing
  | [n] => read n
  | _ => none

def ofEntries? (root : Node) (entries : List (Node × Node)) : Option Config := do
  let named ← entries.mapM fun (key, value) => do return (← root.text? key, value)
  let words ← field? default (ReservedWords.ofNode? root) (valuesOf "reserved_words" named)
  let mode ← field? .connection (EmissionMode.ofNode? root) (valuesOf "emission_mode" named)
  return ⟨words, mode⟩

def ofNode? (root : Node) : Option Config :=
  match root with
  | .mapping _ entries => ofEntries? root entries
  | n => if n.isMissing then some default else none

/-- A configuration is the only document of its text; an empty text is the default one. -/
def ofYamlText (t : Text) : Except ConfigError Config :=
  let read := match Yaml.documents t with
    | [] => some default
    | [some root] => ofNode? root
    | _ => none
  match read with
  | some c => .ok c
  | none => .error .malformedYaml

end Config
end QueryChain
