import QueryChain.Text.Basic

namespace QueryChain

def decimal (n : Nat) : Text := Nat.toDigits 10 n

/-- Numbers are read into 64 bits; a larger one is not read at all. -/
def largestNumber : Nat := 2 ^ (64 : Nat) - 1

def number? (t : Text) : Option Nat :=
  if t ≠ [] ∧ t.all Char.isDigit then
    let n := Nat.ofDigitChars 10 t 0
    if n ≤ largestNumber then some n else none
  else none

def digitValue? (base : Nat) (c : Char) : Option Nat :=
  let value :=
    if c.isDigit then some (c.toNat - '0'.toNat)
    else if 'a' ≤ c ∧ c ≤ 'f' then some (c.toNat - 'a'.toNat + 10)
    else if 'A' ≤ c ∧ c ≤ 'F' then some (c.toNat - 'A'.toNat + 10)
    else none
  value.filter (· < base)

def numeral? (base : Nat) (t : Text) : Option Nat :=
  if t = [] then none
  else (t.mapM (digitValue? base)).map fun digits => digits.foldl (fun n d => base * n + d) 0

end QueryChain
