import QueryChain.Text.AsciiCase
import QueryChain.Text.Blank

namespace QueryChain

inductive StatementKind where
  | select
  | insert
  | update
  | delete
  deriving DecidableEq, Repr

namespace StatementKind

def verb : StatementKind → Text
  | .select => "SELECT"
  | .insert => "INSERT"
  | .update => "UPDATE"
  | .delete => "DELETE"

def isMutation (k : StatementKind) : Bool := k != .select

def all : List StatementKind := [.select, .insert, .update, .delete]

def ofVerb? (t : Text) : Option StatementKind := all.find? fun k => k.verb == upper (trim t)

def unknownVerbMessage (t : Text) : Text := "Unsupported statement keyword: " ++ t

end StatementKind

/-- A table with the name the statement may give it. Only an alias that was written counts. -/
structure TableRef where
  table : Text
  aliasName : Option Text := none
  aliasWritten : Bool := false
  deriving DecidableEq, Repr

namespace TableRef

def withAlias (t : TableRef) (aliasName : Text) : TableRef :=
  { t with aliasName := some aliasName, aliasWritten := true }

def writtenAlias? (t : TableRef) : Option Text := if t.aliasWritten then t.aliasName else none

def reference (t : TableRef) : Text := t.writtenAlias?.getD t.table

def isReferredBy (t : TableRef) (name : Text) : Bool :=
  sameLetters t.reference name || sameLetters t.table name

end TableRef

inductive JoinKind where
  | inner
  | left
  | right
  | outer
  | cross
  | plain
  deriving DecidableEq, Repr

structure Join where
  kind : JoinKind
  table : TableRef
  condition : Option Text
  deriving DecidableEq, Repr

inductive Connective where
  | and
  | or
  deriving DecidableEq, Repr

def Connective.word : Connective → Text
  | .and => "AND"
  | .or => "OR"

/-- A condition and the connective in front of it, which the first of a chain has not. -/
structure Condition where
  text : Text
  connective : Option Connective
  deriving DecidableEq, Repr

inductive Direction where
  | ascending
  | descending
  deriving DecidableEq, Repr

def Direction.word : Direction → Text
  | .ascending => "ASC"
  | .descending => "DESC"

structure OrderItem where
  field : Text
  direction : Direction
  deriving DecidableEq, Repr

inductive Bound where
  | literal (value : Nat)
  | param (index : Nat)
  deriving DecidableEq, Repr

structure Assignment where
  column : Text
  value : Text
  deriving DecidableEq, Repr

inductive InsertSource where
  | assignments (pairs : List Assignment)
  | positional (values : List Text)
  | query (columns : List Text) (text : Text)
  deriving DecidableEq, Repr

/-- All that was read from one statement. Every text in it has its placeholders named. -/
structure Clauses where
  kind : StatementKind
  distinct : Bool := false
  fields : List Text := []
  table : Option TableRef := none
  extraTables : List TableRef := []
  joins : List Join := []
  conditions : List Condition := []
  groupBy : List Text := []
  having : Option Text := none
  orderBy : List OrderItem := []
  limit : Option Bound := none
  offset : Option Bound := none
  assignments : List Assignment := []
  source : Option InsertSource := none
  deriving DecidableEq, Repr

def Clauses.mainReference? (c : Clauses) : Option Text := c.table.map TableRef.reference

end QueryChain
