import QueryChain.Json.Basic

namespace QueryChain.Json

def isGap (c : Char) : Bool := c == ' ' || c == '\n' || c == '\t' || c == '\r'

def skipGaps (t : Text) : Text := t.dropWhile isGap

inductive Piece where
  | char (c : Char)
  | unit (n : Nat)

def shortEscape? : Char → Option Char
  | '"' => some '"'
  | '\\' => some '\\'
  | '/' => some '/'
  | 'b' => some '\x08'
  | 'f' => some '\x0c'
  | 'n' => some '\n'
  | 'r' => some '\r'
  | 't' => some '\t'
  | _ => none

def pieces? : Text → Option (List Piece × Text)
  | [] => none
  | '"' :: rest => some ([], rest)
  | '\\' :: 'u' :: a :: b :: c :: d :: rest => do
    let n ← numeral? 16 [a, b, c, d]
    let (ps, behind) ← pieces? rest
    return (.unit n :: ps, behind)
  | '\\' :: e :: rest => do
    let c ← shortEscape? e
    let (ps, behind) ← pieces? rest
    return (.char c :: ps, behind)
  | c :: rest => do
    guard (0x20 ≤ c.toNat)
    let (ps, behind) ← pieces? rest
    return (.char c :: ps, behind)

def isHighUnit (n : Nat) : Bool := 0xd800 ≤ n && n < 0xdc00

def isLowUnit (n : Nat) : Bool := 0xdc00 ≤ n && n < 0xe000

def pairValue (high low : Nat) : Nat := 0x10000 + (high - 0xd800) * 0x400 + (low - 0xdc00)

/-- Units beyond the first plane come in pairs; a lone half is no text. -/
def textOf? : List Piece → Option Text
  | [] => some []
  | .char c :: ps => (textOf? ps).map (c :: ·)
  | .unit high :: .unit low :: ps =>
    if isHighUnit high && isLowUnit low then
      (textOf? ps).map (Char.ofNat (pairValue high low) :: ·)
    else if isHighUnit high || isLowUnit high then none
    else (textOf? (.unit low :: ps)).map (Char.ofNat high :: ·)
  | .unit n :: ps =>
    if isHighUnit n || isLowUnit n then none else (textOf? ps).map (Char.ofNat n :: ·)

structure NumberParts where
  whole : Text
  fraction : Text
  exponentSign : Text
  exponent : Text

def fraction? : Text → Option (Text × Text)
  | '.' :: rest =>
    let digits := rest.takeWhile Char.isDigit
    if digits = [] then none else some (digits, rest.dropWhile Char.isDigit)
  | rest => some ([], rest)

def exponent? : Text → Option (Text × Text × Text)
  | c :: rest =>
    if c = 'e' ∨ c = 'E' then
      let sign := (rest.take 1).filter fun s => s == '+' || s == '-'
      let behind := rest.drop sign.length
      let digits := behind.takeWhile Char.isDigit
      if digits = [] then none else some (sign, digits, behind.dropWhile Char.isDigit)
    else some ([], [], c :: rest)
  | [] => some ([], [], [])

def unsigned? (t : Text) : Option (NumberParts × Text) := do
  let whole := match t with
    | '0' :: _ => ['0']
    | _ => t.takeWhile Char.isDigit
  guard (whole ≠ [])
  let afterWhole := t.drop whole.length
  guard (!(whole == ['0'] && afterWhole.head?.any Char.isDigit))
  let (fraction, afterFraction) ← fraction? afterWhole
  let (exponentSign, exponent, rest) ← exponent? afterFraction
  return (⟨whole, fraction, exponentSign, exponent⟩, rest)

/-- Whether a number is below the first that a double of 64 bits rounds to infinity. -/
def NumberParts.fitsDouble (p : NumberParts) : Bool :=
  let digits := (p.whole ++ p.fraction).dropWhile (· == '0')
  let size : Int := Nat.ofDigitChars 10 p.exponent 0
  let power := (if p.exponentSign = ['-'] then -size else size) - p.fraction.length
  if digits = [] ∨ digits.length + power ≤ 300 then true
  else if digits.length + power > 310 then false
  else
    let value := Nat.ofDigitChars 10 digits 0
    let least := 2 ^ (1024 : Nat) - 2 ^ (970 : Nat)
    if power < 0 then value < least * 10 ^ (-power).toNat else value * 10 ^ power.toNat < least

def number? (strict : Bool) (t : Text) : Option (Text × Text) := do
  let body := match t with
    | '-' :: rest => rest
    | _ => t
  let (parts, rest) ← unsigned? body
  guard (!strict || parts.fitsDouble)
  return (t.take (t.length - rest.length), rest)

def deepest : Nat := 127

mutual

/-- A value and what follows it. Where `room` is given, strings and numbers must have a meaning and
    nesting has an end; without it only their form counts, and their text is not kept. -/
def value? (room : Option Nat) : Nat → Text → Option (Json × Text)
  | 0, _ => none
  | fuel + 1, t =>
    match skipGaps t with
    | 'n' :: 'u' :: 'l' :: 'l' :: rest => some (.null, rest)
    | 't' :: 'r' :: 'u' :: 'e' :: rest => some (.bool true, rest)
    | 'f' :: 'a' :: 'l' :: 's' :: 'e' :: rest => some (.bool false, rest)
    | '"' :: rest => do
      let (ps, behind) ← pieces? rest
      if room.isSome then return (.string (← textOf? ps), behind) else return (.string [], behind)
    | '[' :: rest => do
      guard (room != some 0)
      let (items, behind) ← items? (room.map (· - 1)) fuel true rest
      return (.array items, behind)
    | '\x7b' :: rest => do
      guard (room != some 0)
      let (fields, behind) ← fields? (room.map (· - 1)) (fun _ => true) fuel true rest
      return (.object fields, behind)
    | other => do
      let (literal, behind) ← number? room.isSome other
      return (.number literal, behind)

def items? (room : Option Nat) : Nat → Bool → Text → Option (List Json × Text)
  | 0, _, _ => none
  | fuel + 1, first, t =>
    match skipGaps t, first with
    | ']' :: rest, true => some ([], rest)
    | rest, true => do
      let (j, behind) ← value? room fuel rest
      let (js, behindAll) ← items? room fuel false behind
      return (j :: js, behindAll)
    | ']' :: rest, false => some ([], rest)
    | ',' :: rest, false => do
      let (j, behind) ← value? room fuel rest
      let (js, behindAll) ← items? room fuel false behind
      return (j :: js, behindAll)
    | _, false => none

def fields? (room : Option Nat) (kept : Text → Bool) :
    Nat → Bool → Text → Option (List (Text × Json) × Text)
  | 0, _, _ => none
  | fuel + 1, first, t =>
    match skipGaps t, first with
    | '\x7d' :: rest, _ => some ([], rest)
    | '"' :: rest, true => field? room kept fuel rest
    | ',' :: rest, false =>
      match skipGaps rest with
      | '"' :: rest => field? room kept fuel rest
      | _ => none
    | _, _ => none

def field? (room : Option Nat) (kept : Text → Bool) :
    Nat → Text → Option (List (Text × Json) × Text)
  | 0, _ => none
  | fuel + 1, t => do
    let (ps, behindKey) ← pieces? t
    let key ← if room.isSome then textOf? ps else some []
    match skipGaps behindKey with
    | ':' :: rest =>
      let (j, behind) ← value? (if kept key then room else none) fuel rest
      let (fs, behindAll) ← fields? room kept fuel false behind
      return (if kept key then (key, j) :: fs else fs, behindAll)
    | _ => none

end

def ofText? (kept : Text → Bool) (t : Text) : Option Json :=
  let fuel := 4 * t.length + 4
  let read := match skipGaps t with
    | '\x7b' :: rest =>
      (fields? (some (deepest - 1)) kept fuel true rest).map fun (fs, behind) =>
        (Json.object fs, behind)
    | other => value? (some deepest) fuel other
  match read with
  | some (j, rest) => if skipGaps rest = [] then some j else none
  | none => none

end QueryChain.Json
