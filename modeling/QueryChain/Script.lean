import QueryChain.Json.FragmentForm
import QueryChain.Json.Printer
import QueryChain.Report

namespace QueryChain

/-- The statements of a script. What holds nothing but comments is none. -/
def statementsIn (script : Text) : List Text :=
  (splitTop ';' script).filter fun sql => normalize sql ≠ []

abbrev Entry := Text × Except Issue Conversion

def scriptEntries (reserved : ReservedWords) (script : Text) : List Entry :=
  (statementsIn script).map fun sql => (sql, convert reserved sql)

def fragmentEntry (reserved : ReservedWords) (f : Fragment) : Entry :=
  (f.render, f.convert reserved)

def reportsOf (entries : List Entry) : List Report :=
  (entries.zipIdx 1).map fun ((sql, result), index) => ⟨index, sql, result⟩

namespace Tally

def ofReports (reports : List Report) : Tally := reports.foldl (fun t r => t.record r.result) {}

def summary (t : Tally) : Text :=
  decimal t.total ++ " statement(s): " ++ decimal t.converted ++ " converted, " ++
    decimal t.partially ++ " partial, " ++ decimal t.declined ++ " declined"

end Tally

inductive OutputFormat where
  | text
  | json
  deriving DecidableEq, Repr

namespace OutputFormat

def name : OutputFormat → Text
  | .text => "text"
  | .json => "json"

def all : List OutputFormat := [.text, .json]

def ofName? (t : Text) : Option OutputFormat := all.find? (·.name == t)

/-- All reports as they are printed, each of them followed by a blank line in text. -/
def render (mode : EmissionMode) (reports : List Report) : OutputFormat → Text
  | .text => reports.flatMap fun r => r.render mode ++ "\n"
  | .json => Json.pretty (.array (reports.map Report.toJson)) ++ "\n"

end OutputFormat
end QueryChain
