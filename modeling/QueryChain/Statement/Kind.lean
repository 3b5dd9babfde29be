import QueryChain.Issue
import QueryChain.Sql.Keyword
import QueryChain.Sql.Pieces
import QueryChain.Statement.Clauses

namespace QueryChain

def leadingWord (sql : Text) : Text :=
  upper (((tokens sql).headD []).takeWhile fun c => c.isAlpha || c == '_')

def classify (sql : Text) : Except Issue StatementKind :=
  if leadingWord sql = "WITH".toList then
    .error (.unsupportedConstruct "common table expression" "statement")
  else match StatementKind.ofVerb? (leadingWord sql) with
    | none => .error (.unknownStatement (leadingWord sql))
    | some kind =>
      if hasKeyword ["UNION"] sql then .error (.unsupportedConstruct "UNION" "statement")
      else .ok kind

end QueryChain
