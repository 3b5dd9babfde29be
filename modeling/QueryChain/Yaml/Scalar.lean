import QueryChain.Text.Decimal

namespace QueryChain.Yaml

/-- What a scalar means. A real number is known by the bits of its double. -/
inductive Scalar where
  | null
  | bool (value : Bool)
  | whole (value : Int)
  | real (bits : UInt64)
  | string (text : Text)
  deriving DecidableEq, Repr, Inhabited

namespace Scalar

def isNullWord (t : Text) : Bool := t ∈ (["null", "Null", "NULL", "~"] : List Text)

def bool? (t : Text) : Option Bool :=
  if t ∈ (["true", "True", "TRUE"] : List Text) then some true
  else if t ∈ (["false", "False", "FALSE"] : List Text) then some false
  else none

def based? : Text → Option Nat
  | '0' :: 'x' :: digits => numeral? 16 digits
  | '0' :: 'o' :: digits => numeral? 8 digits
  | '0' :: 'b' :: digits => numeral? 2 digits
  | digits => numeral? 10 digits

def isPadded (digits : Text) : Bool :=
  digits.length > 1 && digits.head? == some '0' && digits.all Char.isDigit

def afterSign : Text → Text
  | '+' :: rest | '-' :: rest => rest
  | t => t

def integer? (t : Text) : Option Int :=
  if isPadded (afterSign t) then none
  else
    match t with
    | '-' :: digits => (based? digits).map fun n => -n
    | '+' :: digits => (based? digits).map Int.ofNat
    | digits => (based? digits).map Int.ofNat

def fitsIn (bits : Nat) (n : Int) : Bool := -2 ^ (bits - 1) ≤ n && n < 2 ^ bits

structure Decimal where
  digits : Text
  places : Int

def exponent? : Text → Option Int
  | 'e' :: rest | 'E' :: rest =>
    match rest with
    | '-' :: digits => (numeral? 10 digits).map fun n => -n
    | '+' :: digits => (numeral? 10 digits).map Int.ofNat
    | digits => (numeral? 10 digits).map Int.ofNat
  | [] => some 0
  | _ => none

def decimal? (t : Text) : Option Decimal := do
  let whole := t.takeWhile Char.isDigit
  let behind := t.dropWhile Char.isDigit
  let (fraction, rest) := match behind with
    | '.' :: more => (more.takeWhile Char.isDigit, more.dropWhile Char.isDigit)
    | _ => ([], behind)
  guard (whole ++ fraction ≠ [])
  return ⟨whole ++ fraction, fraction.length - (← exponent? rest)⟩

def Decimal.double? (d : Decimal) : Option Float :=
  let digits := d.digits.dropWhile (· == '0')
  let size := digits.length - d.places
  if digits = [] ∨ size < -400 then some 0
  else if size > 400 then none
  else
    let double := Float.ofScientific (Nat.ofDigitChars 10 digits 0) (0 < d.places) d.places.natAbs
    if double.isFinite then some double else none

def ofDouble (isNegative : Bool) (double : Float) : Scalar :=
  .real (if double == 0 then 0 else if isNegative then (-double).toBits else double.toBits)

def infinity : Float := 1 / 0

def real? (t : Text) : Option Scalar :=
  let isNegative := t.head? == some '-'
  if afterSign t ∈ ([".inf", ".Inf", ".INF"] : List Text) then some (ofDouble isNegative infinity)
  else if t ∈ ([".nan", ".NaN", ".NAN"] : List Text) then some (.real (0 / 0 : Float).toBits)
  else ((decimal? (afterSign t)).bind Decimal.double?).map (ofDouble isNegative)

def whole? (t : Text) : Option (Option Scalar) :=
  match integer? t with
  | some n =>
    if fitsIn 64 n then some (some (.whole n)) else if fitsIn 128 n then some none else none
  | none => none

/-- What a plain scalar means by its form. A number beyond the range has no meaning. -/
def ofPlain? (t : Text) : Option Scalar :=
  if t = [] ∨ isNullWord t then some .null
  else if let some b := bool? t then some (.bool b)
  else if let some number := whole? t then number
  else if isPadded (afterSign t) then some (.string t)
  else some ((real? t).getD (.string t))

def tagOf (kind : Text) : Text := "tag:yaml.org,2002:" ++ kind

def ofTagged? (tag : Option Text) (isPlain : Bool) (t : Text) : Option Scalar :=
  if tag = some (tagOf "bool") then (bool? t).map .bool
  else if tag = some (tagOf "int") then (whole? t).join
  else if tag = some (tagOf "float") then real? t
  else if tag = some (tagOf "null") then if isNullWord t then some .null else none
  else if tag = none && isPlain then ofPlain? t
  else some (.string t)

end Scalar
end QueryChain.Yaml
