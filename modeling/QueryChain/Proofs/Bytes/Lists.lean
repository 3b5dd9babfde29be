import QueryChain.Proofs.Bytes.Tables
import QueryChain.Proofs.Params.Values
import QueryChain.Statement.Assignment
import QueryChain.Statement.Kind

namespace QueryChain

namespace Bytewise

def inFrontOf? (t last : Text) : Option Text := do upTo? t (← less? (byteSize t) (byteSize last))

def orderItem? (t : Text) : Option OrderItem := do
  match (← tokens? t).reverse with
  | last :: _ :: _ =>
    if sameLetters last "DESC" then return ⟨trim (← inFrontOf? t last), .descending⟩
    else if sameLetters last "ASC" then return ⟨trim (← inFrontOf? t last), .ascending⟩
    else return ⟨t, .ascending⟩
  | _ => return ⟨t, .ascending⟩

def limit? (t : Text) : Option (Option (Option Bound × Bound)) := do
  match ← splitTop? ',' t with
  | [count] => return (bound? count).map (none, ·)
  | [offset, count] => return do return (some (← bound? offset), ← bound? count)
  | _ => return none

def assignment? (target : TableRef) (pair : Text) : Option (Except Issue Assignment) := do
  match ← cutTop? '=' pair with
  | none => return .error (.malformedClause "SET" pair "missing '='")
  | some (column, value) =>
    match (← qualifier? column).filter (!target.isReferredBy ·) with
    | some foreign =>
      return .error (.malformedClause "SET" pair ("column belongs to `" ++ foreign ++ "`, not the target table"))
    | none =>
      let name ← columnName? column
      if name = [] ∨ trim value = [] then
        return .error (.malformedClause "SET" pair "expected `column = value`")
      else return .ok ⟨name, trim value⟩

def columnList? (t : Text) : Option (List Text) := do (← splitTop? ',' (← groupBody? t)).mapM columnName?

def valueList? (t : Text) : Option (List Text) := do splitTop? ',' (← groupBody? t)

def leadingWord? (sql : Text) : Option Text := do
  return upper (((← tokens? sql).headD []).takeWhile fun c => c.isAlpha || c == '_')

def classify? (sql : Text) : Option (Except Issue StatementKind) := do
  let word ← leadingWord? sql
  if word = "WITH".toList then return .error (.unsupportedConstruct "common table expression" "statement")
  else
    match StatementKind.ofVerb? word with
    | none => return .error (.unknownStatement word)
    | some kind =>
      if ← hasKeyword? ["UNION"] sql then return .error (.unsupportedConstruct "UNION" "statement")
      else return .ok kind

section Lists

variable {t : Text}

theorem inFrontOf?_append (front last : Text) : inFrontOf? (front ++ last) last = some front := by
  rw [inFrontOf?, byteSize_append, less?_add]
  exact upTo?_append front last

/-- The direction of an item can be cut off, since the item ends in it. -/
theorem orderItem?_eq (trimmed : trim t = t) : orderItem? t = some (orderItem t) := by
  simp only [orderItem?, tokens?_eq, Option.bind_eq_bind, Option.bind_some, orderItem]
  rcases found : (tokens t).reverse with _ | ⟨last, _ | ⟨second, more⟩⟩
  · rfl
  · rfl
  · obtain ⟨front, b, text, -⟩ := last_token trimmed found (by simp)
    have cut : inFrontOf? t last = some (t.take (t.length - last.length)) := by
      rw [text, inFrontOf?_append, List.length_append, Nat.add_sub_cancel, List.take_left]
    simp only [cut, Option.bind_some]
    split_ifs <;> rfl

theorem limit?_eq (t : Text) : limit? t = some (QueryChain.limit? t) := by
  simp only [limit?, splitTop?_eq, Option.bind_eq_bind, Option.bind_some, QueryChain.limit?]
  rcases splitTop ',' t with _ | ⟨first, _ | ⟨second, _ | ⟨third, more⟩⟩⟩ <;> rfl

theorem assignment?_eq (target : TableRef) (pair : Text) :
    assignment? target pair = some (QueryChain.assignment? target pair) := by
  simp only [assignment?, cutTop?_eq '=' rfl, Option.bind_eq_bind, Option.bind_some, QueryChain.assignment?]
  cases QueryChain.cutTop? '=' pair with
  | none => rfl
  | some parts =>
    obtain ⟨column, value⟩ := parts
    simp only [qualifier?_eq, columnName?_eq, Option.bind_some]
    cases (QueryChain.qualifier? column).filter (!target.isReferredBy ·) with
    | some foreign => rfl
    | none =>
      dsimp only
      split_ifs <;> rfl

theorem columnList?_eq (t : Text) : columnList? t = some (columnList t) := by
  simp only [columnList?, groupBody?_eq, splitTop?_eq, Option.bind_eq_bind, Option.bind_some]
  exact mapM_some fun u _ => columnName?_eq u

theorem valueList?_eq (t : Text) : valueList? t = some (valueList t) := by
  simp only [valueList?, groupBody?_eq, splitTop?_eq, Option.bind_eq_bind, Option.bind_some]
  rfl

theorem leadingWord?_eq (sql : Text) : leadingWord? sql = some (leadingWord sql) := by
  rw [leadingWord?, tokens?_eq]
  rfl

theorem classify?_eq (sql : Text) : classify? sql = some (classify sql) := by
  simp only [classify?, leadingWord?_eq, hasKeyword?_eq (k := ["UNION"]) (by decide), Option.bind_eq_bind,
    Option.bind_some, classify]
  by_cases cte : leadingWord sql = "WITH".toList
  · rw [if_pos cte, if_pos cte]
    rfl
  · rw [if_neg cte, if_neg cte]
    cases StatementKind.ofVerb? (leadingWord sql) with
    | none => rfl
    | some kind =>
      dsimp only
      cases hasKeyword ["UNION"] sql <;> rfl

end Lists
end Bytewise
end QueryChain
