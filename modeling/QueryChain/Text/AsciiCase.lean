import QueryChain.Text.Basic

namespace QueryChain

/-- Letter case is a matter of ASCII letters only: `ſ` and `S` stay apart. -/
def upper (t : Text) : Text := t.map Char.toUpper

def sameLetter (a b : Char) : Bool := a.toUpper == b.toUpper

def sameLetters (s t : Text) : Bool := upper s == upper t

theorem sameLetters_iff {s t : Text} : sameLetters s t ↔ upper s = upper t := by
  simp [sameLetters]

end QueryChain
