import QueryChain.Fragment

namespace QueryChain.Samples

def statements : List (String × String) := [
  ("select_with_where", "SELECT * FROM users WHERE age > ? AND name = ?"),
  ("select_with_join",
    "SELECT p.* FROM posts p INNER JOIN users u ON p.user_id = u.id WHERE p.published = ?"),
  ("select_all_clauses",
    "SELECT DISTINCT u.id, COUNT(o.id) AS orders\n" ++
    "         FROM users u\n" ++
    "         LEFT JOIN orders o ON o.user_id = u.id AND o.status = ?\n" ++
    "         WHERE u.created_at > ? AND (u.role = ? OR u.role = ?)\n" ++
    "         GROUP BY u.id\n" ++
    "         HAVING COUNT(o.id) > ?\n" ++
    "         ORDER BY orders DESC, u.id\n" ++
    "         LIMIT ? OFFSET ?"),
  ("select_mixed_precedence", "SELECT * FROM t WHERE a = ? OR b = ? AND c = ?"),
  ("insert_with_columns", "INSERT INTO users (name, age) VALUES (?, ?)"),
  ("insert_positional", "INSERT INTO logs VALUES (?, NOW(), ?)"),
  ("insert_set", "INSERT INTO users SET name = ?, email = ?"),
  ("insert_select", "INSERT INTO archive (id, name) SELECT id, name FROM users WHERE deleted = ?"),
  ("update_with_limit",
    "UPDATE users u SET u.name = ?, u.updated_at = NOW() WHERE u.id = ? ORDER BY u.id LIMIT 1"),
  ("update_with_join",
    "UPDATE orders o INNER JOIN users u ON u.id = o.user_id AND u.tier = ? " ++
    "SET o.discount = ? WHERE o.status = ?"),
  ("delete_simple", "DELETE FROM sessions WHERE expires_at < ?"),
  ("delete_with_join",
    "DELETE p FROM posts p LEFT JOIN users u ON u.id = p.user_id WHERE u.id IS NULL")]

def statement? (name : String) : Option Text :=
  (statements.lookup name).map String.toList

def declined : List Text := [
  "SELECT a FROM t UNION SELECT a FROM u",
  "WITH x AS (SELECT 1) SELECT * FROM x",
  "SELECT * FROM (SELECT id FROM t) d",
  "REPLACE INTO t (a) VALUES (?)",
  "SELECT * FROM t WHERE a = 'unterminated",
  "INSERT INTO t (a) VALUES (?), (?)"]

def staticFragment : Fragment :=
  .concat [.literal "SELECT id FROM users ", .literal "WHERE email = ?"]

def dynamicFragment : Fragment :=
  .concat [.literal "SELECT * FROM ", .dynamic "$table", .literal " WHERE id = ?"]

end QueryChain.Samples
