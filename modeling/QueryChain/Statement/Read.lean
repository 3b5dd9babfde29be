import QueryChain.Statement.Delete
import QueryChain.Statement.Insert
import QueryChain.Statement.Kind
import QueryChain.Statement.Select
import QueryChain.Statement.Update

namespace QueryChain

def readStatement (reserved : ReservedWords) (kind : StatementKind) (sql : Text) :
    Reading Clauses :=
  match kind with
  | .select => readSelect reserved sql
  | .insert => readInsert sql
  | .update => readUpdate reserved sql
  | .delete => readDelete reserved sql

end QueryChain
