import QueryChain.CommandLine

namespace QueryChain

def readFile? (path : Text) : IO (Option (Text × Text)) := do
  try
    let content ← IO.FS.readFile (String.ofList path)
    return some (path, content.toList)
  catch _ => return none

def readStandardInput? : IO (Option Text) := do
  let bytes ← IO.FS.Stream.readBinToEnd (← IO.getStdin)
  return (String.fromUTF8? bytes).map String.toList

/-- All that a run may ask for. The standard input is read only where no input is given. -/
def surroundings (o : Options) : IO Surroundings := do
  let files ← (o.config.toList ++ o.inputs).filterMapM readFile?
  let standardInput? ← if o.inputs = [] then readStandardInput? else pure none
  return { file? := fun path => files.lookup path, standardInput? }

def start (args : List String) : IO UInt32 := do
  let some o := Options.ofArgs? (args.map String.toList)
    | IO.eprintln "usage: [--config PATH] [--fragment] [--format text|json] [INPUT...]"
      return 2
  match o.run (← surroundings o) with
  | .ok printed =>
    IO.print (String.ofList printed.output)
    IO.eprint (String.ofList printed.summary)
    return 0
  | .error fault =>
    IO.eprintln ("Error: " ++ String.ofList fault.message)
    return 1

end QueryChain

def main (args : List String) : IO UInt32 := QueryChain.start args
