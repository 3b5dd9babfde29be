import QueryChain.Config.Basic
import QueryChain.Json.Forms

namespace QueryChain

def chainLine (c : Call) : Text := "\n    ->" ++ c.render

def renderChain (mode : EmissionMode) (calls : List Call) : Text :=
  mode.builderRoot ++ calls.flatMap chainLine ++ ";"

structure Report where
  index : Nat
  sql : Text
  result : Except Issue Conversion

namespace Report

def statusOf (c : Conversion) : Text := if c.isPartial then "partial" else "converted"

def warningLine (i : Issue) : Text := "-- warning: " ++ i.message ++ "\n"

def resultText (mode : EmissionMode) : Except Issue Conversion → Text
  | .ok c =>
    "-- " ++ statusOf c ++ " " ++ c.kind.verb ++ ", " ++ decimal c.paramCount ++
      " parameter(s)\n" ++ c.issues.flatMap warningLine ++ renderChain mode c.calls ++ "\n"
  | .error issue => "-- declined: " ++ issue.message ++ "\n"

def render (mode : EmissionMode) (r : Report) : Text :=
  "-- [" ++ decimal r.index ++ "] " ++ r.sql ++ "\n" ++ resultText mode r.result

def resultFields : Except Issue Conversion → List (Text × Json)
  | .ok c =>
    [("status", .string (statusOf c)), ("conversion", c.toJson),
      ("ops", .strings (c.calls.map Call.render))]
  | .error issue =>
    [("status", .string "declined"), ("error", issue.toJson), ("message", .string issue.message)]

def toJson (r : Report) : Json :=
  .object (("index", .nat r.index) :: ("sql", .string r.sql) :: resultFields r.result)

end Report
end QueryChain
