import QueryChain.Sql.Balance

namespace QueryChain

inductive Severity where
  | info
  | warning
  | error
  deriving DecidableEq, Repr

/-- What keeps a statement, or a part of it, from being converted. -/
inductive Issue where
  | unsupportedFragment (reason : Text)
  | unknownStatement (keyword : Text)
  | unsupportedConstruct (construct : Text) (position : Text)
  | malformedClause (clause : Text) (fragment : Text) (problem : Text)
  | ambiguousSyntax (problem : Text) (suggestion : Text)
  | parameterMismatch (expected : Nat) (found : Nat)
  deriving DecidableEq, Repr

namespace Issue

def name : Issue → Text
  | .unsupportedFragment .. => "UnsupportedFragment"
  | .unknownStatement .. => "UnrecognizedStatementKind"
  | .unsupportedConstruct .. => "UnsupportedConstruct"
  | .malformedClause .. => "MalformedClause"
  | .ambiguousSyntax .. => "AmbiguousSyntax"
  | .parameterMismatch .. => "ParameterMismatch"

def message : Issue → Text
  | .unsupportedFragment reason => "Unsupported SQL fragment: " ++ reason
  | .unknownStatement keyword => "Unrecognized statement kind: '" ++ keyword ++ "'"
  | .unsupportedConstruct construct position =>
    "Unsupported construct in " ++ position ++ ": " ++ construct
  | .malformedClause clause fragment problem =>
    "Malformed " ++ clause ++ " clause near '" ++ fragment ++ "': " ++ problem
  | .ambiguousSyntax problem suggestion =>
    "Ambiguous syntax: " ++ problem ++ ". Consider " ++ suggestion
  | .parameterMismatch expected found =>
    "Parameter count mismatch: statement has " ++ decimal expected ++
      " placeholder(s), conversion numbered " ++ decimal found

/-- Whether the rest of the statement can still be converted. -/
def isRecoverable : Issue → Bool
  | .malformedClause .. | .ambiguousSyntax .. => true
  | _ => false

def severity : Issue → Severity
  | .malformedClause .. => .warning
  | .ambiguousSyntax .. => .info
  | _ => .error

def ofFault (f : Fault) : Issue := .unsupportedFragment ("unscannable syntax: " ++ f.message)

end Issue
end QueryChain
