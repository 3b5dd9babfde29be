import QueryChain.Sql.Mark
import QueryChain.Text.Decimal

namespace QueryChain

/-- What keeps a text from being read. Places are counted in bytes. -/
inductive Fault where
  | unterminatedQuote (quote : Char) (place : Nat)
  | unclosedGroups (depth : Nat)
  | unexpectedClose (place : Nat)
  | unterminatedComment (place : Nat)
  | executableComment (place : Nat)
  deriving DecidableEq, Repr

def Fault.message : Fault → Text
  | .unterminatedQuote q n => "unterminated " ++ [q] ++ " quote opened at byte " ++ decimal n
  | .unclosedGroups n => decimal n ++ " unclosed parenthesis group(s)"
  | .unexpectedClose n => "unexpected ')' at byte " ++ decimal n
  | .unterminatedComment n => "unterminated comment opened at byte " ++ decimal n
  | .executableComment n => "executable comment or optimizer hint at byte " ++ decimal n

/-- A comment that the database would read as SQL. -/
def opensExecutable (c : Char) (rest : Text) : Bool :=
  opensBlockComment c rest && (rest.tail.head? == some '!' || rest.tail.head? == some '+')

/-- A scan state with the places that faults are reported at: the next character, the last quote
    or comment opened, and the first two kinds of character that no later one can mend. -/
structure Survey where
  state : ScanState := {}
  place : Nat := 0
  opened : Nat := 0
  strayClose : Option Nat := none
  executable : Option Nat := none
  deriving DecidableEq, Repr

namespace Survey

def next (v : Survey) (c : Char) (rest : Text) : Survey where
  state := v.state.next c rest
  place := v.place + c.utf8Size
  opened := if v.state.mode = .code then v.place else v.opened
  strayClose := v.strayClose.or <|
    if (v.state.mark c rest).isCode ∧ c = ')' ∧ v.state.depth = 0 then some v.place else none
  executable := v.executable.or <|
    if v.state.mode = .code ∧ opensExecutable c rest then some v.place else none

def fault? (v : Survey) : Option Fault :=
  if let some n := v.strayClose then some (.unexpectedClose n)
  else if let some n := v.executable then some (.executableComment n)
  else match v.state.mode with
    | .quote q _ => some (.unterminatedQuote q v.opened)
    | .opener | .blockComment _ => some (.unterminatedComment v.opened)
    | .code | .lineComment =>
      if v.state.depth > 0 then some (.unclosedGroups v.state.depth) else none

def run (v : Survey) : Text → Survey
  | [] => v
  | c :: rest => (v.next c rest).run rest

def trail (v : Survey) : Text → List Survey
  | [] => []
  | c :: rest => v.next c rest :: (v.next c rest).trail rest

@[simp] theorem state_run (v : Survey) (t : Text) : (v.run t).state = v.state.run t := by
  induction t generalizing v with
  | nil => rfl
  | cons c rest ih => simp [run, ScanState.run, ih, next]

end Survey

def fault? (t : Text) : Option Fault := (({} : Survey).run t).fault?

def Balanced (t : Text) : Prop := fault? t = none

instance (t : Text) : Decidable (Balanced t) := inferInstanceAs (Decidable (_ = _))

end QueryChain
