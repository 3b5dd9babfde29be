import QueryChain.Sql.Mark
import QueryChain.Text.Decimal

namespace QueryChain

def paramMarker : Text := ":param"

def paramName (n : Nat) : Text := paramMarker ++ decimal n

def param? (t : Text) : Option Nat :=
  ((after? paramMarker (trim t)).bind number?).filter (0 < ·)

/-- Writes each placeholder as the next parameter after the `issued` ones. -/
def numberMarks (issued : Nat) : Marks → Text
  | [] => []
  | m :: ms =>
    if m.isPlaceholder then paramName (issued + 1) ++ numberMarks (issued + 1) ms
    else m.char :: numberMarks issued ms

def numbered (issued : Nat) (t : Text) : Text := numberMarks issued (scan t)

def paramAtStart? (t : Text) : Option Nat :=
  (after? paramMarker t).bind fun rest => number? (rest.takeWhile Char.isDigit)

def paramsFrom (quote : Option Char) (escaped : Bool) : Text → List Nat
  | [] => []
  | c :: rest =>
    match quote with
    | some q =>
      if escaped then paramsFrom quote false rest
      else if c = '\\' ∧ q ≠ '`' then paramsFrom quote true rest
      else paramsFrom (if c = q then none else quote) false rest
    | none =>
      (paramAtStart? (c :: rest)).toList ++ paramsFrom (if isQuote c then some c else none) false rest

def paramsIn (t : Text) : List Nat := paramsFrom none false t

end QueryChain
