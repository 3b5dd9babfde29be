import QueryChain.Config.File
import QueryChain.Script

namespace QueryChain

structure Options where
  inputs : List Text := []
  config : Option Text := none
  ofFragments : Bool := false
  format : Option OutputFormat := none
  deriving DecidableEq, Repr

namespace Options

def isOption (arg : Text) : Bool := arg.head? == some '-' && arg ≠ ['-']

def attached? (arg : Text) : Option (Text × Text) :=
  if arg.contains '=' then some (arg.takeWhile (· ≠ '='), (arg.dropWhile (· ≠ '=')).drop 1)
  else none

def set? (name value : Text) (o : Options) : Option Options :=
  if name = "--config" then
    if o.config.isNone ∧ value ≠ [] then some { o with config := some value } else none
  else if name = "--format" then
    if o.format.isNone then do return { o with format := some (← OutputFormat.ofName? value) }
    else none
  else none

def setFragments? (o : Options) : Option Options :=
  if o.ofFragments then none else some { o with ofFragments := true }

def addInputs? (paths : List Text) (o : Options) : Option Options :=
  if [] ∈ paths then none else some { o with inputs := o.inputs ++ paths }

/-- Reads arguments. Behind two dashes all are inputs. -/
def read? (o : Options) : List Text → Option Options
  | [] => some o
  | arg :: rest =>
    if arg = "--" then o.addInputs? rest
    else if arg = "--fragment" then do read? (← o.setFragments?) rest
    else if isOption arg then
      match attached? arg, rest with
      | some (name, value), rest => do read? (← o.set? name value) rest
      | none, [] => none
      | none, value :: more =>
        if isOption value then none else do read? (← o.set? arg value) more
    else do read? (← o.addInputs? [arg]) rest

def ofArgs? (args : List Text) : Option Options := read? {} args

end Options

inductive RunFault where
  | config (path : Text)
  | input (path : Text)
  | standardInput
  | fragment
  deriving DecidableEq, Repr

def RunFault.message : RunFault → Text
  | .config path => "Failed to load config " ++ path
  | .input path => "Failed to read " ++ path
  | .standardInput => "Failed to read stdin"
  | .fragment => "Failed to parse SQL fragment"

/-- What the program reads: the contents of files by their path, and its standard input. -/
structure Surroundings where
  file? : Text → Option Text
  standardInput? : Option Text

structure Printed where
  output : Text
  summary : Text
  deriving DecidableEq, Repr

namespace Options

def orFault {α : Type} (fault : RunFault) : Option α → Except RunFault α
  | some a => .ok a
  | none => .error fault

def loadConfig (o : Options) (s : Surroundings) : Except RunFault Config :=
  match o.config with
  | none => .ok default
  | some path => orFault (.config path) (Config.load path (s.file? path)).toOption

def readInputs (o : Options) (s : Surroundings) : Except RunFault (List Text) :=
  if o.inputs = [] then do return [← orFault .standardInput s.standardInput?]
  else o.inputs.mapM fun path => orFault (.input path) (s.file? path)

def entriesOf (o : Options) (config : Config) (input : Text) : Except RunFault (List Entry) :=
  if o.ofFragments then do
    let f ← orFault .fragment (Fragment.ofJsonText? input)
    return [fragmentEntry config.reservedWords f]
  else .ok (scriptEntries config.reservedWords input)

/-- The configuration is read first and then all inputs, before the first statement is converted. -/
def run (o : Options) (s : Surroundings) : Except RunFault Printed := do
  let config ← o.loadConfig s
  let inputs ← o.readInputs s
  let entries ← inputs.mapM (o.entriesOf config)
  let reports := reportsOf entries.flatten
  return {
    output := (o.format.getD .text).render config.emissionMode reports
    summary := (Tally.ofReports reports).summary ++ "\n" }

end Options
end QueryChain
