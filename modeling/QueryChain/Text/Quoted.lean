import QueryChain.Text.Combining
import QueryChain.Text.Unprintable

namespace QueryChain

def hexDigits (n : Nat) : Text := Nat.toDigits 16 n

/-- A character of a displayed string: what cannot be seen, or would join its neighbour, is written
    by its code point. -/
def escapeChar (c : Char) : Text :=
  if c = '\x00' then "\\0"
  else if c = '\t' then "\\t"
  else if c = '\r' then "\\r"
  else if c = '\n' then "\\n"
  else if c = '\\' then "\\\\"
  else if c = '"' then "\\\""
  else if isCombining c || !isPrintable c then "\\u\x7b" ++ hexDigits c.toNat ++ "\x7d"
  else [c]

def escape (t : Text) : Text := t.flatMap escapeChar

def quoted (t : Text) : Text := "\"" ++ escape t ++ "\""

def quotedList (ts : List Text) : Text := "[" ++ joinWith ", " (ts.map quoted) ++ "]"

end QueryChain
