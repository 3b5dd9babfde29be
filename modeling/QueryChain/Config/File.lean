import QueryChain.Config.Json
import QueryChain.Config.Yaml

namespace QueryChain

def fileName (path : Text) : Text :=
  let parts := (path.splitOnP (· == '/')).filter fun part => part ≠ [] && part ≠ ['.']
  parts.getLast?.getD []

def extension? (path : Text) : Option Text :=
  match (fileName path).drop 1 with
  | [] => none
  | rest =>
    if fileName path = ['.', '.'] then none
    else if rest.contains '.' then some (rest.reverse.takeWhile (· ≠ '.')).reverse
    else none

namespace Config

def ofFile (path content : Text) : Except ConfigError Config :=
  match extension? path with
  | some format =>
    if format = "json" then ofJsonText content
    else if format ∈ (["yaml", "yml"] : List Text) then ofYamlText content
    else .error (.unknownFormat format)
  | none => .error (.unknownFormat "<none>")

/-- A configuration at a path. A missing file comes before an unknown format. -/
def load (path : Text) (content : Option Text) : Except ConfigError Config :=
  match content with
  | some t => ofFile path t
  | none => .error .unreadable

end Config
end QueryChain
