import QueryChain.Proofs.Keyword.Section
import QueryChain.Proofs.Statement.Clauses

namespace QueryChain

section Conditions

theorem numbered_eq_nil_iff (issued : Nat) (t : Text) : numbered issued t = [] ↔ t = [] := by
  constructor
  · intro empty
    rw [numbered] at empty
    cases marks : scan t with
    | nil =>
      have text := congrArg markText marks
      rwa [markText_scan] at text
    | cons m ms =>
      rw [marks, numberMarks] at empty
      by_cases placeholder : m.isPlaceholder
      · rw [if_pos placeholder, List.append_eq_nil_iff] at empty
        have marker := congrArg List.length empty.1
        rw [paramName, List.length_append] at marker
        have long : 0 < paramMarker.length := by decide
        rw [List.length_nil] at marker
        omega
      · rw [if_neg placeholder] at empty
        cases empty
  · rintro rfl
    rfl

theorem foldAnds_ne_nil (afterOr : Bool) (last : Condition) (rest : List Condition) :
    foldAnds afterOr last rest ≠ [] := by
  induction rest generalizing afterOr last with
  | nil => simp [foldAnds]
  | cons c rest ih =>
    rw [foldAnds]
    by_cases joined : afterOr ∧ c.connective = some .and
    · rw [if_pos joined]
      exact ih _ _
    · rw [if_neg joined]
      simp

theorem splitConditions_eq_nil_iff (t : Text) : splitConditions t = [] ↔ t = [] := by
  constructor
  · intro none
    by_contra full
    rw [splitConditions, if_neg full] at none
    by_cases group : isGroup t
    · rw [if_pos group] at none
      cases none
    · rw [if_neg group] at none
      by_cases single : (conditionPieces t).length < 2
      · rw [if_pos single] at none
        cases none
      · rw [if_neg single] at none
        cases pieces : conditionPieces t with
        | nil =>
          rw [pieces] at single
          exact single (by decide)
        | cons first rest =>
          rw [pieces] at none
          exact foldAnds_ne_nil _ first rest none
  · rintro rfl
    rfl

end Conditions

section Calls

variable {c : Clauses}

/-- A call that gives the conditions of a chain their start. -/
def HasWhere (calls : List Call) : Prop := ∃ call ∈ calls, call.method = .firstWhere

theorem hasWhere_append (calls more : List Call) :
    HasWhere (calls ++ more) ↔ HasWhere calls ∨ HasWhere more := by
  constructor
  · rintro ⟨call, member, where_⟩
    rcases List.mem_append.mp member with left | right
    · exact .inl ⟨call, left, where_⟩
    · exact .inr ⟨call, right, where_⟩
  · rintro (⟨call, member, where_⟩ | ⟨call, member, where_⟩)
    · exact ⟨call, by simp [member], where_⟩
    · exact ⟨call, by simp [member], where_⟩

theorem not_hasWhere {calls : List Call} (other : ∀ call ∈ calls, call.method ≠ .firstWhere) :
    ¬HasWhere calls := by
  rintro ⟨call, member, where_⟩
  exact other call member where_

theorem hasWhere_conditionCalls (conditions : List Condition) :
    HasWhere (conditionCalls conditions) ↔ conditions ≠ [] := by
  cases conditions with
  | nil => simp [HasWhere, conditionCalls]
  | cons first rest => simp [HasWhere, conditionCalls]

theorem not_hasWhere_joinCalls (c : Clauses) : ¬HasWhere c.joinCalls := by
  apply not_hasWhere
  intro call member
  rw [Clauses.joinCalls] at member
  cases main : c.mainReference? with
  | none =>
    rw [main] at member
    cases member
  | some reference =>
    rw [main] at member
    obtain ⟨join, -, rfl⟩ := List.mem_map.mp member
    cases kind : join.kind <;> simp [joinCall, JoinKind.method, kind]

theorem not_hasWhere_orderCalls (c : Clauses) : ¬HasWhere c.orderCalls := by
  apply not_hasWhere
  intro call member
  obtain ⟨item, -, rfl⟩ := List.mem_map.mp member
  simp

theorem not_hasWhere_limitCalls (c : Clauses) : ¬HasWhere c.limitCalls := by
  apply not_hasWhere
  intro call member
  obtain ⟨bound, -, rfl⟩ := List.mem_map.mp member
  simp

theorem not_hasWhere_tableCalls (method : Method) (other : method ≠ .firstWhere) (c : Clauses) :
    ¬HasWhere (c.tableCalls method) := by
  apply not_hasWhere
  intro call member
  obtain ⟨table, -, rfl⟩ := List.mem_map.mp member
  exact other

theorem not_hasWhere_assignments (assignments : List Assignment) :
    ¬HasWhere (assignments.map (assignmentCall .set)) := by
  apply not_hasWhere
  intro call member
  obtain ⟨assignment, -, rfl⟩ := List.mem_map.mp member
  simp [assignmentCall]

/-- The calls of an update or a deletion have a first condition if its clauses have any. -/
theorem hasWhere_calls (kind : c.kind = .update ∨ c.kind = .delete) :
    HasWhere c.calls ↔ c.conditions ≠ [] := by
  rcases kind with update | delete
  · have table := not_hasWhere_tableCalls .update (by decide) c
    simp only [Clauses.calls, update, Clauses.updateCalls, hasWhere_append, hasWhere_conditionCalls,
      table, not_hasWhere_assignments, not_hasWhere_joinCalls, not_hasWhere_orderCalls,
      not_hasWhere_limitCalls, false_or, or_false]
  · have table := not_hasWhere_tableCalls .delete (by decide) c
    simp only [Clauses.calls, delete, Clauses.deleteCalls, hasWhere_append, hasWhere_conditionCalls,
      table, not_hasWhere_joinCalls, not_hasWhere_orderCalls, not_hasWhere_limitCalls, false_or,
      or_false]

end Calls
section Mutation

variable {reserved : ReservedWords} {raw sql : Text} {kind : StatementKind} {clauses : Clauses}
  {c : Conversion} {p : Progress}

/-- An update or a deletion keeps a condition exactly if something is left, once normalized, of the text
    between its `WHERE` and the next word that ends a section; a column called `offset` is such a word.
    Without a condition it is never converted without notice. -/
theorem where_kept_or_noted {pWhere qWhere : Nat} (ok : convert reserved raw = .ok c)
    (mutation : c.kind = .update ∨ c.kind = .delete)
    (there : Stands (normalize raw) ["WHERE"] pWhere qWhere) :
    ∃ p b e, SectionAt (normalize raw) ["WHERE"] bodyEnds p b e ∧
      (HasWhere c.calls ↔ normalize (trim (slice b e (normalize raw))) ≠ []) ∧
      (HasWhere c.calls ∨ ∃ issues, c.outcome = .partialSuccess issues ∧
        .malformedClause "WHERE" (normalize raw) "empty condition" ∈ issues) := by
  obtain ⟨progress, converted⟩ := convert_ok ok
  obtain ⟨p₁, conditions, kept⟩ := where_of_read
    (by rcases mutation with kind | kind <;> rw [kind] <;> decide) converted.read
  have kind := kind_of_read converted.read
  cases found : whereSection? (normalize raw) with
  | none => exact absurd there (section?_eq_none (by decide) found pWhere qWhere)
  | some body =>
    obtain ⟨p, b, e, sec, rfl⟩ := section?_eq_some (by decide) (by decide) found
    refine ⟨p, b, e, sec, ?_⟩
    rw [readWhere_eq_some _ _ found] at conditions kept
    have calls : HasWhere c.calls ↔ normalize (trim (slice b e (normalize raw))) ≠ [] := by
      rw [converted.calls, hasWhere_calls (by rwa [kind]), conditions, ne_eq, splitConditions_eq_nil_iff]
      exact not_congr (numbered_eq_nil_iff _ _)
    refine ⟨calls, ?_⟩
    by_cases empty : normalize (trim (slice b e (normalize raw))) = []
    · right
      have none : splitConditions
          (nameParams (normalize (trim (slice b e (normalize raw)))) p₁).1 = [] := by
        rw [splitConditions_eq_nil_iff]
        exact (numbered_eq_nil_iff _ _).mpr empty
      rw [if_pos none] at kept
      have noted : Issue.malformedClause "WHERE" (normalize raw) "empty condition" ∈ progress.issues :=
        kept.mem (by simp [note])
      refine ⟨progress.issues, ?_, noted⟩
      rw [converted.outcome, Progress.outcome, if_neg (List.ne_nil_of_mem noted)]
    · exact .inl (calls.mpr empty)

def guardedDeletion : Text := "DELETE FROM t WHERE a = 1 LIMIT 5"

theorem where_kept_or_noted_deletion :
    ∃ (c : Conversion) (p b e : Nat),
      SectionAt (normalize guardedDeletion) ["WHERE"] bodyEnds p b e ∧
      (HasWhere c.calls ↔ normalize (trim (slice b e (normalize guardedDeletion))) ≠ []) ∧
      (HasWhere c.calls ∨ ∃ issues, c.outcome = .partialSuccess issues ∧
        .malformedClause "WHERE" (normalize guardedDeletion) "empty condition" ∈ issues) := by
  have chars : guardedDeletion = _ := String.toList_ofList
  have kind : (convert default guardedDeletion).map Conversion.kind = .ok .delete := by
    rw [chars]
    decide +kernel
  have here : (cursorAt (normalize guardedDeletion) 14).atTop ∧
      (cursorAt (normalize guardedDeletion) 14).keyword? ["WHERE"] =
        some (cursorAt (normalize guardedDeletion) 19) := by
    rw [chars]
    decide +kernel
  obtain ⟨q, there, -⟩ := (keyword?_cursorAt (by decide) (by rw [chars]; decide +kernel)).mp here
  cases ok : convert default guardedDeletion with
  | error issue =>
    rw [ok] at kind
    cases kind
  | ok c =>
    rw [ok] at kind
    exact ⟨c, where_kept_or_noted ok (.inr (Except.ok.inj kind)) there⟩

/-- The column is taken for the keyword that would end the section. -/
example : (convert default "DELETE FROM t WHERE offset = 5").map Conversion.calls = .ok [⟨.delete, [.str "t"]⟩] := by
  decide +kernel

end Mutation
end QueryChain
