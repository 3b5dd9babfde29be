import QueryChain.Proofs.Bytes.Clauses
import QueryChain.Statement.Table

namespace QueryChain

namespace Bytewise

def unquoted? (segment : Text) : Option Text := do
  let inner := trim segment
  if 2 ≤ byteSize inner ∧
      ((inner.head? = some '`' ∧ inner.getLast? = some '`') ∨
        (inner.head? = some '"' ∧ inner.getLast? = some '"')) then
    part? inner 1 (← less? (byteSize inner) 1)
  else return inner

def segments? (identifier : Text) : Option (List Text) := do (← splitTop? '.' (trim identifier)).mapM unquoted?

def plainName? (identifier : Text) : Option Text := do return joinWith "." (← segments? identifier)

def columnName? (identifier : Text) : Option Text := do return (← segments? identifier).getLastD []

def qualifier? (identifier : Text) : Option (Option Text) := do
  match (← segments? identifier).dropLast with
  | [] => return none
  | front => return some (joinWith "." front)

def tableFragment? (reserved : ReservedWords) (t : Text) : Option (Option TableFragment) := do
  match ← tokens? t with
  | [] => return none
  | name :: rest =>
    if name.contains '(' || name.head? == some '\'' then return none
    else
      let table : TableRef := { table := ← plainName? name }
      match aliasCandidate? rest with
      | none => return some ⟨table, rest⟩
      | some (token, more) =>
        let name ← plainName? token
        if acceptsAlias reserved name then return some ⟨table.withAlias name, more⟩
        else return some ⟨table, rest⟩

theorem unquoted?_eq (segment : Text) : unquoted? segment = some (unquoted segment) := by
  rw [unquoted?, unquoted]
  generalize trim segment = inner
  by_cases quoted : (inner.head? = some '`' ∧ inner.getLast? = some '`') ∨
      (inner.head? = some '"' ∧ inner.getLast? = some '"')
  · obtain ⟨c, first, last, small⟩ : ∃ c, inner.head? = some c ∧ inner.getLast? = some c ∧ c.utf8Size = 1 := by
      rcases quoted with ⟨first, last⟩ | ⟨first, last⟩
      · exact ⟨_, first, last, rfl⟩
      · exact ⟨_, first, last, rfl⟩
    by_cases long : 2 ≤ inner.length
    · have inside := exists_inside first last long
      obtain ⟨size, part⟩ := part?_inside small small inner.tail.dropLast
      rw [← inside] at size part
      have wide := size
      rw [less?] at wide
      split_ifs at wide with one
      have whole : byteSize inner = byteSize (c :: inner.tail.dropLast ++ [c]) := by rw [← inside]
      rw [byteSize_append, byteSize_cons, byteSize_cons, byteSize_nil, small] at whole
      simp only [if_pos (show 2 ≤ byteSize inner ∧ _ from ⟨by omega, quoted⟩),
        if_pos (show 2 ≤ inner.length ∧ _ from ⟨long, quoted⟩), size, Option.bind_eq_bind, Option.bind_some, part]
    · have narrow : ¬2 ≤ byteSize inner := by
        obtain ⟨u, rfl⟩ := List.head?_eq_some_iff.mp first
        obtain rfl : u = [] := by
          rw [List.length_cons] at long
          exact List.length_eq_zero_iff.mp (by omega)
        rw [byteSize_cons, small, byteSize_nil]
        omega
      simp only [narrow, long, false_and, if_false]
      rfl
  · simp only [quoted, and_false, if_false]
    rfl

theorem segments?_eq (identifier : Text) : segments? identifier = some (segments identifier) := by
  simp only [segments?, splitTop?_eq, Option.bind_eq_bind, Option.bind_some]
  exact mapM_some fun u _ => unquoted?_eq u

theorem plainName?_eq (identifier : Text) : plainName? identifier = some (plainName identifier) := by
  rw [plainName?, segments?_eq]
  rfl

theorem columnName?_eq (identifier : Text) : columnName? identifier = some (columnName identifier) := by
  rw [columnName?, segments?_eq]
  rfl

theorem qualifier?_eq (identifier : Text) : qualifier? identifier = some (QueryChain.qualifier? identifier) := by
  simp only [qualifier?, segments?_eq, Option.bind_eq_bind, Option.bind_some, QueryChain.qualifier?]
  cases (segments identifier).dropLast <;> rfl

theorem tableFragment?_eq (reserved : ReservedWords) (t : Text) :
    tableFragment? reserved t = some (TableFragment.ofText? reserved t) := by
  simp only [tableFragment?, tokens?_eq, plainName?_eq, Option.bind_eq_bind, Option.bind_some, TableFragment.ofText?]
  cases tokens t with
  | nil => rfl
  | cons name rest =>
    dsimp only
    cases (name.contains '(' || name.head? == some '\'') with
    | true => rfl
    | false =>
      simp only [Bool.false_eq_true, if_false]
      cases aliasCandidate? rest with
      | none => rfl
      | some candidate =>
        obtain ⟨token, more⟩ := candidate
        dsimp only
        cases acceptsAlias reserved (plainName token) <;> rfl

end Bytewise
end QueryChain
