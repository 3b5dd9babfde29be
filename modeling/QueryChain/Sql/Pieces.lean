import QueryChain.Sql.Balance

namespace QueryChain

/-- The trimmed pieces between the delimiters that stand outside quotes, comments and groups;
    empty pieces at the end are none. -/
def splitTop (delimiter : Char) (t : Text) : List Text :=
  dropEndWhile List.isEmpty (((scan t).splitOnP (·.isTopOf delimiter)).map (trim <| markText ·))

def cutTop? (delimiter : Char) (t : Text) : Option (Text × Text) :=
  match (scan t).dropWhile (!·.isTopOf delimiter) with
  | [] => none
  | _ :: after => some (markText ((scan t).takeWhile (!·.isTopOf delimiter)), markText after)

def hasTop (delimiter : Char) (t : Text) : Bool := (cutTop? delimiter t).isSome

def placeOfTop? (delimiter : Char) (t : Text) : Option Nat :=
  (cutTop? delimiter t).map fun (before, _) => byteSize before

def tokens (t : Text) : List Text :=
  (((scan t).splitOnP Mark.isTopBlank).filter (· ≠ [])).map markText

/-- Whether the trimmed text is one group: no parenthesis before its last character closes a group
    at the top. -/
def isGroup (t : Text) : Bool :=
  (trim t).head? == some '(' && (trim t).getLast? == some ')' &&
    !(scan (trim t)).dropLast.any (·.isTopOf ')') && (fault? (trim t)).isNone

def groupBody (t : Text) : Text :=
  if isGroup (trim t) then trim (trim t).tail.dropLast else trim t

end QueryChain
