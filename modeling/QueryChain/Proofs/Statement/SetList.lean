import QueryChain.Proofs.Statement.Attribution
import QueryChain.Proofs.Naming.Lists

namespace QueryChain

section Columns

variable {issued : Nat} {t : Text}

theorem numbered_of_no_colon (noColon : ':' ∉ numbered issued t) : numbered issued t = t := by
  have all (ms : Marks) (issued : Nat) (noColon : ':' ∉ numberMarks issued ms) : numberMarks issued ms = markText ms := by
    induction ms generalizing issued with
    | nil => rfl
    | cons m ms ih =>
      rw [numberMarks] at noColon ⊢
      split at noColon
      · exact absurd (by simp [paramName_eq]) noColon
      · rw [if_neg ‹_›, ih issued fun member => noColon (List.mem_cons_of_mem _ member)]
        rfl
  rw [numbered, all _ _ noColon, markText_scan]

theorem numbered_eq_iff {u : Text} (noColon : ':' ∉ u) (free : '?' ∉ u) : numbered issued t = u ↔ t = u := by
  constructor
  · intro same
    rw [← same] at noColon
    rw [← same, numbered_of_no_colon noColon]
  · rintro rfl
    exact numbered_of_free free issued

theorem unquoted_eq_nil_iff : unquoted t = [] ↔ trim t = [] ∨ trim t = ['`', '`'] ∨ trim t = ['"', '"'] := by
  rw [unquoted]
  rcases trim t with _ | ⟨a, _ | ⟨b, _ | ⟨c, u⟩⟩⟩
  · simp
  · simp
  · by_cases quotes : a = '`' ∧ b = '`' ∨ a = '"' ∧ b = '"' <;> simp [quotes]
  · split <;> simp

theorem unquoted_numbered_eq_nil : unquoted (numbered issued t) = [] ↔ unquoted t = [] := by
  rw [unquoted_eq_nil_iff, unquoted_eq_nil_iff, ← numbered_trim, numbered_eq_nil_iff,
    numbered_eq_iff (by decide) (by decide), numbered_eq_iff (by decide) (by decide)]

theorem segments_numbered (issued : Nat) (t : Text) :
    segments (numbered issued t) = (numberedAll issued (splitTop '.' (trim t))).map unquoted := by
  rw [segments, ← numbered_trim, splitTop_named (by decide)]

theorem columnName_numbered_eq_nil : columnName (numbered issued t) = [] ↔ columnName t = [] := by
  rw [columnName, columnName, segments_numbered, segments]
  rcases List.eq_nil_or_concat (splitTop '.' (trim t)) with none | ⟨front, last, parts⟩
  · rw [none]
    rfl
  · rw [parts, List.concat_eq_append, numberedAll_append, List.map_append, List.map_append]
    simpa [numberedAll] using unquoted_numbered_eq_nil

end Columns
section List

variable {target : TableRef} {issued : Nat} {list pair column value : Text} {ts : List Text} {p : Progress}

def issuedBefore (issued : Nat) : List Text → List (Nat × Text)
  | [] => []
  | t :: ts => (issued, t) :: issuedBefore (issued + placeholders t) ts

theorem numberedAll_eq_map (issued : Nat) (ts : List Text) :
    numberedAll issued ts = (issuedBefore issued ts).map fun x => numbered x.1 x.2 := by
  induction ts generalizing issued with
  | nil => rfl
  | cons t ts ih => rw [numberedAll, issuedBefore, List.map_cons, ih]

/-- Whether a column has no qualifier, or one that names the table. -/
def TableRef.owns (t : TableRef) (column : Text) : Bool := (qualifier? column).all t.isReferredBy

def assignmentAt? (target : TableRef) (x : Nat × Text) : Option Assignment := do
  let (column, value) ← cutTop? '=' x.2
  guard (columnName column ≠ [] ∧ trim value ≠ [] ∧ target.owns (numbered x.1 column))
  return ⟨columnName (numbered x.1 column), numbered (x.1 + placeholders column) (trim value)⟩

theorem foreign_eq_none_iff : (qualifier? column).filter (!target.isReferredBy ·) = none ↔ target.owns column := by
  rw [TableRef.owns]
  cases qualifier? column <;> simp [Option.filter]

theorem toOption_assignment? (target : TableRef) (pair : Text) : (assignment? target pair).toOption =
    (cutTop? '=' pair).bind fun p =>
      if columnName p.1 ≠ [] ∧ trim p.2 ≠ [] ∧ target.owns p.1 then some ⟨columnName p.1, trim p.2⟩ else none := by
  rw [assignment?]
  cases cutTop? '=' pair with
  | none => rfl
  | some parts =>
    obtain ⟨column, value⟩ := parts
    dsimp only [Option.bind_some]
    cases foreign : (qualifier? column).filter (!target.isReferredBy ·) with
    | none =>
      have owned := foreign_eq_none_iff.mp foreign
      by_cases incomplete : columnName column = [] ∨ trim value = []
      · rw [if_pos incomplete, if_neg fun kept => incomplete.elim kept.1 kept.2.1]
        rfl
      · rw [if_neg incomplete, if_pos ⟨(not_or.mp incomplete).1, (not_or.mp incomplete).2, owned⟩]
        rfl
    | some name =>
      have other : ¬target.owns column := fun owned => by simp [foreign_eq_none_iff.mpr owned] at foreign
      exact (if_neg fun kept => other kept.2.2).symm

/-- Naming the placeholders of a piece names those of its column and of its value. -/
theorem assignment?_numbered (target : TableRef) (x : Nat × Text) :
    (assignment? target (numbered x.1 x.2)).toOption = assignmentAt? target x := by
  rw [toOption_assignment?, cutTop?_numbered (by decide), assignmentAt?]
  cases cutTop? '=' x.2 with
  | none => rfl
  | some parts =>
    obtain ⟨column, value⟩ := parts
    have name : columnName (numbered x.1 column) = [] ↔ columnName column = [] := columnName_numbered_eq_nil
    dsimp only [Option.map_some, Option.bind_some, Option.bind_eq_bind]
    rw [← numbered_trim]
    by_cases kept : columnName column ≠ [] ∧ trim value ≠ [] ∧ target.owns (numbered x.1 column)
    · have kept' : columnName (numbered x.1 column) ≠ [] ∧
          numbered (x.1 + placeholders column) (trim value) ≠ [] ∧ target.owns (numbered x.1 column) := by
        simpa only [ne_eq, name, numbered_eq_nil_iff] using kept
      rw [if_pos kept']
      simp [guard, kept]
    · have dropped : ¬(columnName (numbered x.1 column) ≠ [] ∧
          numbered (x.1 + placeholders column) (trim value) ≠ [] ∧ target.owns (numbered x.1 column)) := by
        simpa only [ne_eq, name, numbered_eq_nil_iff] using kept
      rw [if_neg dropped]
      simp [guard, kept]

theorem length_pairs (target : TableRef) (pairs : List Text) :
    (pairs.filterMap fun pair => (assignment? target pair).toOption).length +
      (pairs.filterMap (pairIssue? target)).length = pairs.length := by
  induction pairs with
  | nil => rfl
  | cons pair pairs ih =>
    rw [List.filterMap_cons, List.filterMap_cons, pairIssue?]
    cases assignment? target pair with
    | ok a =>
      simp only [Except.toOption, List.length_cons] at ih ⊢
      omega
    | error issue =>
      simp only [Except.toOption, List.length_cons] at ih ⊢
      omega

/-- Each piece of a list is assigned or noted, and whatever is dropped, the placeholders of the others have the
    numbers of their places. A piece is assigned if it has a column and a value, and if its qualifier, once
    its placeholders are named, is one of the target's names; without placeholders, as it is written. -/
theorem set_list_accounted (target : TableRef) (list : Text) (p : Progress) :
    ∃ assignments dropped p', readAssignments target list p = (assignments, p') ∧
      p'.issues = p.issues ++ dropped ∧
      assignments.length + dropped.length = (splitTop ',' list).length ∧
      p'.issued = p.issued + placeholders list ∧
      assignments = (issuedBefore p.issued (splitTop ',' list)).filterMap (assignmentAt? target) ∧
      ((splitTop ',' list).map placeholders).sum = placeholders list ∧
      ∀ x column value, cutTop? '=' x.2 = some (column, value) → placeholders column = 0 →
        ((assignmentAt? target x).isSome ↔ columnName column ≠ [] ∧ trim value ≠ [] ∧ target.owns column) := by
  have pieces := numberedAll_eq_map p.issued (splitTop ',' list)
  rw [← splitTop_named (by decide)] at pieces
  have read : readAssignments target list p =
      readPairs target (splitTop ',' (numbered p.issued list)) (nameParams list p).2 := rfl
  rw [readPairs_eq] at read
  refine ⟨_, (splitTop ',' (numbered p.issued list)).filterMap (pairIssue? target), _, read, rfl, ?_, rfl, ?_,
    placeholders_splitTop (by decide) list, fun x column value parts free => ?_⟩
  · rw [length_pairs, splitTop_named (by decide), length_numberedAll]
  · rw [pieces, List.filterMap_map]
    exact List.filterMap_congr fun x _ => assignment?_numbered target x
  · rw [assignmentAt?, parts]
    have written := numbered_of_none free x.1
    by_cases kept : columnName column ≠ [] ∧ trim value ≠ [] ∧ target.owns column
    · simp [guard, written, kept]
    · simp [guard, written, kept]

/-- A placeholder in front of a column's dot takes a name, and may get that of the target with it. -/
example : (readAssignments { table := ":param1" } "?.a = 1" {}).1 = [⟨"a", "1"⟩] := by decide +kernel

end List
end QueryChain
