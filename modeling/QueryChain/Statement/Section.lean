import QueryChain.Sql.Keyword
import QueryChain.Sql.Pieces

namespace QueryChain

/-- The trimmed text behind a keyword, up to the first keyword that ends it. An empty text is not
    the same as a missing keyword. -/
def section? (k : Keyword) (ends : List Keyword) (sql : Text) : Option Text :=
  ((Cursor.start sql).find? [k]).map fun (_, body) => trim (body.upTo ends)

def bodyEnds : List Keyword :=
  [["GROUP", "BY"], ["HAVING"], ["WINDOW"], ["ORDER", "BY"], ["LIMIT"], ["OFFSET"], ["UNION"],
    ["FOR", "UPDATE"], ["LOCK", "IN", "SHARE", "MODE"]]

def fromSection? : Text → Option Text := section? ["FROM"] (["WHERE"] :: bodyEnds)

def whereSection? : Text → Option Text := section? ["WHERE"] bodyEnds

def groupBySection? : Text → Option Text := section? ["GROUP", "BY"] (bodyEnds.drop 1)

def havingSection? : Text → Option Text := section? ["HAVING"] (bodyEnds.drop 2)

def orderBySection? : Text → Option Text := section? ["ORDER", "BY"] (bodyEnds.drop 4)

def limitSection? : Text → Option Text := section? ["LIMIT"] (bodyEnds.drop 5)

def offsetSection? : Text → Option Text := section? ["OFFSET"] (bodyEnds.drop 6)

def setSection? : Text → Option Text := section? ["SET"] [["WHERE"], ["ORDER", "BY"], ["LIMIT"]]

def listEnds : List Keyword :=
  [["FROM"], ["WHERE"], ["GROUP", "BY"], ["HAVING"], ["ORDER", "BY"], ["LIMIT"], ["OFFSET"],
    ["UNION"]]

def selectSection? (sql : Text) : Option (Bool × Text) :=
  (section? ["SELECT"] listEnds sql).map fun body =>
    match afterKeyword? ["DISTINCT"] body, afterKeyword? ["ALL"] body with
    | some list, _ => (true, trim list)
    | none, some list => (false, trim list)
    | none, none => (false, body)

def updateTarget? (sql : Text) : Option Text :=
  ((Cursor.start sql).find? [["UPDATE"]]).map fun (_, target) =>
    trim ((target.skipAny [["LOW_PRIORITY"], ["IGNORE"]]).upTo [["SET"]])

structure DeleteParts where
  targets : List Text
  source : Option Text
  deriving DecidableEq, Repr

def deleteParts? (sql : Text) : Option DeleteParts :=
  ((Cursor.start sql).find? [["DELETE"]]).map fun (_, rest) =>
    let targets := rest.skipAny [["LOW_PRIORITY"], ["QUICK"], ["IGNORE"]]
    match targets.find? [["FROM"]] with
    | some (passed, _) => ⟨splitTop ',' passed, fromSection? sql⟩
    | none => ⟨[], none⟩

inductive InsertBody where
  | values (text : Text)
  | set (text : Text)
  | query (text : Text)
  | missing
  deriving DecidableEq, Repr

def InsertBody.text : InsertBody → Text
  | .values t | .set t | .query t => t
  | .missing => []

structure InsertParts where
  table : Text
  columns : Option Text
  body : InsertBody
  deriving DecidableEq, Repr

def opensQuery (t : Text) : Bool :=
  match t with
  | '(' :: inner => startsWithKeyword ["SELECT"] (trimStart inner)
  | _ => false

/-- A leading group with its parentheses, and what follows it; nothing if it does not close. -/
def leadingGroup? (t : Text) : Option (Text × Text) :=
  match scan t with
  | [] => none
  | opening :: rest =>
    match rest.dropWhile (!·.isTopOf ')') with
    | [] => none
    | closing :: after =>
      some (opening.char :: markText (rest.takeWhile (!·.isTopOf ')')) ++ [closing.char],
        markText after)

def insertBody (t : Text) : InsertBody :=
  match (afterKeyword? ["VALUES"] t).or (afterKeyword? ["VALUE"] t), afterKeyword? ["SET"] t with
  | some values, _ => .values (trim values)
  | none, some pairs => .set (trim pairs)
  | none, none => if startsWithKeyword ["SELECT"] t || opensQuery t then .query t else .missing

def endsTable (m : Mark) : Bool := m.isCode && (isBlank m.char || m.char == '(' || m.char == ')')

def insertParts? (sql : Text) : Option InsertParts := do
  let (_, behindVerb) ← (Cursor.start sql).find? [["INSERT"]]
  let modifiers : List Keyword := [["LOW_PRIORITY"], ["DELAYED"], ["HIGH_PRIORITY"], ["IGNORE"]]
  let target := trimStart ((behindVerb.skipAny modifiers).skipAny [["INTO"]]).text
  let table := markText ((scan target).takeWhile (!endsTable ·))
  guard (table ≠ [])
  let rest := trimStart (markText ((scan target).dropWhile (!endsTable ·)))
  if rest.head? == some '(' && !opensQuery rest then
    let (columns, behind) ← leadingGroup? rest
    return ⟨table, some columns, insertBody (trimStart behind)⟩
  else
    return ⟨table, none, insertBody rest⟩

end QueryChain
