import QueryChain.Proofs.Params.Conditions
import QueryChain.Proofs.Params.Joins
import QueryChain.Proofs.Params.Names
import QueryChain.Proofs.Statement.Clauses

namespace QueryChain

/-- What is named against what is passed on: some of it may be lost, and some passed again. Nothing
    is lost if and only if `kept`, nothing passed again if and only if `once`. -/
def Account (named passed : List Nat) (kept once : Prop) : Prop :=
  ∃ common lost again, passed.Perm (common ++ again) ∧ named.Perm (common ++ lost) ∧
    again ⊆ common ∧ (lost = [] ↔ kept) ∧ (again = [] ↔ once)

namespace Account

variable {named passed named' passed' extra : List Nat} {kept once kept' once' : Prop}

theorem exact (named : List Nat) : Account named named True True :=
  ⟨named, [], [], by simp, by simp, by simp, by simp, by simp⟩

theorem of_iff (account : Account named passed kept once) (sameKept : kept ↔ kept')
    (sameOnce : once ↔ once') : Account named passed kept' once' := by
  obtain ⟨common, lost, again, out, in_, inside, noneLost, noneAgain⟩ := account
  exact ⟨common, lost, again, out, in_, inside, noneLost.trans sameKept, noneAgain.trans sameOnce⟩

theorem of_perm (account : Account named passed kept once) (in_ : named'.Perm named)
    (out : passed'.Perm passed) : Account named' passed' kept once := by
  obtain ⟨common, lost, again, passes, names, rest⟩ := account
  exact ⟨common, lost, again, out.trans passes, in_.trans names, rest⟩

theorem perm_append_swap (a b c d : List Nat) : ((a ++ b) ++ (c ++ d)).Perm ((a ++ c) ++ (b ++ d)) := by
  simp only [List.append_assoc]
  apply List.Perm.append_left
  simp only [← List.append_assoc]
  exact List.perm_append_comm.append_right d

theorem append (first : Account named passed kept once) (second : Account named' passed' kept' once') :
    Account (named ++ named') (passed ++ passed') (kept ∧ kept') (once ∧ once') := by
  obtain ⟨common, lost, again, out, in_, inside, noneLost, noneAgain⟩ := first
  obtain ⟨common', lost', again', out', in_', inside', noneLost', noneAgain'⟩ := second
  refine ⟨common ++ common', lost ++ lost', again ++ again', ?_, ?_, ?_, ?_, ?_⟩
  · exact (out.append out').trans (perm_append_swap ..)
  · exact (in_.append in_').trans (perm_append_swap ..)
  · intro n member
    rcases List.mem_append.mp member with here | there
    · exact List.mem_append_left _ (inside here)
    · exact List.mem_append_right _ (inside' there)
  · rw [List.append_eq_nil_iff, noneLost, noneLost']
  · rw [List.append_eq_nil_iff, noneAgain, noneAgain']

/-- A part of what is named is passed on. -/
theorem of_sublist (part : passed.Sublist named) : Account named passed (passed = named) True := by
  obtain ⟨lost, parts⟩ := part.exists_perm_append
  refine ⟨passed, lost, [], by simp, parts, by simp, ?_, by simp⟩
  have length := parts.length_eq
  rw [List.length_append] at length
  constructor
  · intro none
    rw [none, List.length_nil] at length
    exact part.eq_of_length (by omega)
  · rintro rfl
    exact List.length_eq_zero_iff.mp (by omega)

theorem repeat_ (account : Account named passed kept once) (inside : extra ⊆ passed) :
    Account named (passed ++ extra) kept (once ∧ extra = []) := by
  obtain ⟨common, lost, again, out, in_, already, noneLost, noneAgain⟩ := account
  refine ⟨common, lost, again ++ extra, ?_, in_, ?_, noneLost, ?_⟩
  · rw [← List.append_assoc]
    exact out.append_right extra
  · intro n member
    rcases List.mem_append.mp member with here | there
    · exact already here
    · rcases List.mem_append.mp (out.subset (inside there)) with first | second
      · exact first
      · exact already second
  · rw [List.append_eq_nil_iff, noneAgain]

theorem flatMap {α β : Type} {R : α → β → Prop} {f : α → List Nat} {g : β → List Nat}
    {kept : α → Prop} {once : β → Prop} {xs : List α} {ys : List β} (pairs : List.Forall₂ R xs ys)
    (each : ∀ x y, R x y → Account (f x) (g y) (kept x) (once y)) :
    Account (xs.flatMap f) (ys.flatMap g) (∀ x ∈ xs, kept x) (∀ y ∈ ys, once y) := by
  induction pairs with
  | nil => exact (exact []).of_iff (by simp) (by simp)
  | cons first rest ih => exact ((each _ _ first).append ih).of_iff (by simp) (by simp)

/-- As much as there could be is passed on just when all was named and nothing was lost nor passed
    twice. -/
theorem perm_iff (account : Account named passed kept once) {all : List Nat} (distinct : all.Nodup)
    (most : named.length ≤ all.length) : passed.Perm all ↔ named.Perm all ∧ kept ∧ once := by
  obtain ⟨common, lost, again, out, in_, inside, noneLost, noneAgain⟩ := account
  rw [← noneLost, ← noneAgain]
  constructor
  · intro perm
    have nodup := (out.symm.trans perm).nodup_iff.mpr distinct
    have noAgain : again = [] := by
      rw [List.eq_nil_iff_forall_not_mem]
      intro n member
      exact List.disjoint_of_nodup_append nodup (inside member) member
    rw [noAgain, List.append_nil] at out
    have lengths := in_.length_eq
    have same := (out.symm.trans perm).length_eq
    rw [List.length_append] at lengths
    have noLost : lost = [] := List.length_eq_zero_iff.mp (by omega)
    rw [noLost, List.append_nil] at in_
    exact ⟨in_.trans (out.symm.trans perm), noLost, noAgain⟩
  · rintro ⟨perm, rfl, rfl⟩
    rw [List.append_nil] at out in_
    exact out.trans (in_.symm.trans perm)

end Account
end QueryChain
