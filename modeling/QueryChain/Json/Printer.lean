import QueryChain.Json.Basic

namespace QueryChain.Json

def hexDigit (n : Nat) : Char := Nat.digitChar (n % 16)

def escapeChar (c : Char) : Text :=
  if c = '"' then "\\\""
  else if c = '\\' then "\\\\"
  else if c = '\n' then "\\n"
  else if c = '\r' then "\\r"
  else if c = '\t' then "\\t"
  else if c = '\x08' then "\\b"
  else if c = '\x0c' then "\\f"
  else if c.toNat < 0x20 then "\\u00" ++ [hexDigit (c.toNat / 16), hexDigit c.toNat]
  else [c]

def quotedString (t : Text) : Text := "\"" ++ t.flatMap escapeChar ++ "\""

def insertField (field : Text × Json) : List (Text × Json) → List (Text × Json)
  | [] => [field]
  | f :: fs => if field.1 < f.1 then field :: f :: fs else f :: insertField field fs

def sortFields (fields : List (Text × Json)) : List (Text × Json) := fields.foldr insertField []

def indent (level : Nat) : Text := List.replicate (2 * level) ' '

def bracketed (level : Nat) (opening closing : Char) (lines : List Text) : Text :=
  if lines = [] then [opening, closing]
  else
    [opening, '\n'] ++ joinWith ",\n" (lines.map (indent (level + 1) ++ ·)) ++
      "\n" ++ indent level ++ [closing]

mutual

def sorted : Json → Json
  | .array items => .array (sortedItems items)
  | .object fields => .object (sortFields (sortedFields fields))
  | j => j

def sortedItems : List Json → List Json
  | [] => []
  | j :: js => j.sorted :: sortedItems js

def sortedFields : List (Text × Json) → List (Text × Json)
  | [] => []
  | (k, j) :: fs => (k, j.sorted) :: sortedFields fs

end

mutual

def prettyAt (level : Nat) : Json → Text
  | .null => "null"
  | .bool b => if b then "true" else "false"
  | .number literal => literal
  | .string t => quotedString t
  | .array items => bracketed level '[' ']' (prettyItems (level + 1) items)
  | .object fields => bracketed level '\x7b' '\x7d' (prettyFields (level + 1) fields)

def prettyItems (level : Nat) : List Json → List Text
  | [] => []
  | j :: js => j.prettyAt level :: prettyItems level js

def prettyFields (level : Nat) : List (Text × Json) → List Text
  | [] => []
  | (k, j) :: fs => (quotedString k ++ ": " ++ j.prettyAt level) :: prettyFields level fs

end

/-- A value over several lines, two spaces deeper at each level, keys sorted. -/
def pretty (j : Json) : Text := j.sorted.prettyAt 0

end QueryChain.Json
