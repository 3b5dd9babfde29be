import Mathlib.Data.List.Perm.Basic
import QueryChain.Proofs.Params.Accounts

namespace QueryChain

section Calls

theorem params_tableCall (method : Method) (t : TableRef) : (tableCall method t).params =
    paramsIn t.table ++ t.writtenAlias?.toList.flatMap paramsIn := by
  rw [tableCall, Call.params, List.flatMap_cons, List.flatMap_map]
  rfl

theorem params_joinCall (main : Text) (j : Join) : (joinCall main j).params =
    paramsIn main ++ (paramsIn j.table.table ++ paramsIn j.table.reference ++
      j.condition.toList.flatMap paramsIn) := by
  rw [joinCall, Call.params, List.flatMap_append, List.flatMap_map]
  simp [Arg.params]

theorem params_conditionCalls (conditions : List Condition) :
    (conditionCalls conditions).flatMap Call.params = conditions.flatMap (paramsIn ·.text) := by
  cases conditions with
  | nil => rfl
  | cons first rest =>
    rw [conditionCalls, List.flatMap_cons, List.flatMap_map, List.flatMap_cons]
    simp [Call.params, Arg.params, laterConditionCall]

theorem params_assignmentCall (method : Method) (a : Assignment) :
    (assignmentCall method a).params = paramsIn a.column ++ (Arg.ofValue a.value).params := by
  simp [assignmentCall, Call.params, Arg.params]

end Calls
section Tables

variable {reserved : ReservedWords} {t : Text}

theorem aliasCandidate?_last {rest : List Text} {token : Text}
    (found : aliasCandidate? rest = some (token, [])) :
    rest = [token] ∨ ∃ word, isAs word ∧ rest = [word, token] := by
  cases rest with
  | nil => cases found
  | cons first rest =>
    unfold aliasCandidate? at found
    dsimp only at found
    by_cases isWord : isAs first
    · rw [if_pos isWord] at found
      cases rest with
      | nil => cases found
      | cons second more =>
        cases found
        exact .inr ⟨first, isWord, rfl⟩
    · rw [if_neg isWord] at found
      cases found
      exact .inl rfl

/-- A table reference passes on its name and its alias, without the quotes around them. -/
theorem account_fragment {f : TableFragment} (clear : Clear t)
    (read : TableFragment.ofText? reserved t = some f) (full : f.trailing = []) (method : Method) :
    Account (paramsIn t) (tableCall method f.table).params
      (∀ n ∈ tokens t, paramsIn (plainName n) = paramsIn n) True := by
  have pieces := splits_tokens clear
  have lost {n : Text} (member : n ∈ tokens t) :=
    Account.of_sublist (paramsIn_plainName_sublist (pieces.clear n member))
  rw [pieces.names, params_tableCall]
  rw [TableFragment.ofText?] at read
  cases written : tokens t with
  | nil =>
    rw [written] at read
    cases read
  | cons name rest =>
    rw [written] at read lost
    dsimp only at read
    have nameLost := lost (n := name) (by simp)
    by_cases noTable : name.contains '(' || name.head? == some '\''
    · rw [if_pos noTable] at read
      cases read
    rw [if_neg noTable] at read
    cases candidate : aliasCandidate? rest with
    | none =>
      rw [candidate] at read
      cases read
      dsimp only at full
      rw [full]
      apply (nameLost.of_iff _ Iff.rfl).of_perm
      · simp
      · simp [TableRef.writtenAlias?]
      · simp
    | some found =>
      obtain ⟨token, more⟩ := found
      rw [candidate] at read
      dsimp only at read
      by_cases accepted : acceptsAlias reserved (plainName token)
      · rw [if_pos accepted] at read
        cases read
        dsimp only at full
        subst full
        have out : ((paramsIn (plainName name) ++ paramsIn (plainName token))).Perm
            (paramsIn (({ table := plainName name } : TableRef).withAlias (plainName token)).table ++
              (({ table := plainName name } : TableRef).withAlias
                (plainName token)).writtenAlias?.toList.flatMap paramsIn) := by
          simp [TableRef.withAlias, TableRef.writtenAlias?]
        rcases aliasCandidate?_last candidate with rfl | ⟨word, isWord, rfl⟩
        · have both := nameLost.append (lost (n := token) (by simp))
          apply (both.of_iff _ (by simp)).of_perm (by simp) out.symm
          simp
        · have both := nameLost.append (lost (n := token) (by simp))
          have noNames := paramsIn_of_no_colon (no_colon_of_word (w := "AS".toList) (by decide) isWord)
          have none := paramsIn_plainName_sublist (pieces.clear word (by simp [written]))
          rw [noNames] at none
          apply (both.of_iff _ (by simp)).of_perm (by simp [noNames]) out.symm
          simp [noNames, List.sublist_nil.mp none]
      · rw [if_neg accepted] at read
        cases read
        dsimp only at full
        rw [full] at candidate
        cases candidate

theorem trailing_of_clean {f : TableFragment} {clause : Text}
    (checked : f.checkTrailing clause = .ok none) : f.trailing = [] := by
  rw [TableFragment.checkTrailing] at checked
  split at checked
  · assumption
  · split_ifs at checked
    cases checked

theorem account_join {s : JoinSegment} {j : Join} (clear : Clear s.table)
    (resolved : s.resolve reserved = .ok (j, none)) :
    Account (paramsIn s.table ++ s.condition.toList.flatMap paramsIn)
      (paramsIn j.table.table ++ paramsIn j.table.reference ++ j.condition.toList.flatMap paramsIn)
      (∀ n ∈ tokens s.table, paramsIn (plainName n) = paramsIn n)
      (j.table.writtenAlias? = none → paramsIn j.table.table = []) := by
  obtain ⟨-, f, read, trailing, table, condition⟩ := resolve_ok resolved
  have fragment := account_fragment clear read (trailing_of_clean trailing) .join
  rw [params_tableCall, ← table] at fragment
  have conditions : j.condition.toList.flatMap paramsIn = s.condition.toList.flatMap paramsIn := by
    rw [condition]
    cases s.condition with
    | none => rfl
    | some t =>
      by_cases empty : t = []
      · simp [empty, paramsIn, paramsFrom]
      · simp [Option.filter, empty]
  rw [conditions]
  have rest := Account.exact (s.condition.toList.flatMap paramsIn)
  cases written : j.table.writtenAlias? with
  | some name =>
    rw [TableRef.reference, written]
    rw [written] at fragment
    apply ((fragment.append rest).of_iff (by simp) (by simp)).of_perm (.refl _)
    simp
  | none =>
    rw [TableRef.reference, written]
    rw [written] at fragment
    have twice := fragment.repeat_ (show paramsIn j.table.table ⊆ _ by simp)
    apply ((twice.append rest).of_iff (by simp) (by simp)).of_perm (.refl _)
    simp

end Tables
section Sources

variable {reserved : ReservedWords} {clause t : Text} {p p' : Progress}

theorem mapM_ok {α β ε : Type} {f : α → Except ε β} {xs : List α} {ys : List β}
    (ok : xs.mapM f = .ok ys) : List.Forall₂ (fun x y => f x = .ok y) xs ys := by
  induction xs generalizing ys with
  | nil =>
    cases ok
    exact .nil
  | cons x xs ih =>
    rw [List.mapM_cons] at ok
    cases first : f x with
    | error e =>
      rw [first] at ok
      cases ok
    | ok y =>
      cases rest : xs.mapM f with
      | error e =>
        rw [first, rest] at ok
        cases ok
      | ok more =>
        rw [first, rest] at ok
        cases ok
        exact .cons first (ih rest)

theorem exists_of_mapM_ok {α β ε : Type} {f : α → Except ε β} {xs : List α} {ys : List β} {y : β}
    (ok : xs.mapM f = .ok ys) (member : y ∈ ys) : ∃ x ∈ xs, f x = .ok y := by
  obtain ⟨⟨i, bound⟩, rfl⟩ := List.mem_iff_get.mp member
  have inside : i < xs.length := (mapM_ok ok).length_eq ▸ bound
  exact ⟨xs[i], List.getElem_mem inside, (mapM_ok ok).get inside bound⟩

/-- Two functions that agree wherever the first one succeeds give the same list. -/
theorem mapM_ok_congr {α β ε : Type} {f g : α → Except ε β} {xs : List α} {ys : List β}
    (ok : xs.mapM f = .ok ys) (same : ∀ x, ∀ y ∈ ys, f x = .ok y → g x = .ok y) : xs.mapM g = .ok ys := by
  have pairs := mapM_ok ok
  clear ok
  induction pairs with
  | nil => rfl
  | cons first _ ih =>
    rw [List.mapM_cons, same _ _ (by simp) first, ih fun x y member => same x y (by simp [member])]
    rfl

/-- Where nothing was noted, no table is followed by other text. -/
theorem readTables_clean {fragments : List Text} {tables : List TableRef}
    (ok : Gives (readTables reserved clause fragments) p tables p') (clean : p'.issues = []) :
    List.Forall₂ (fun t table => ∃ f, TableFragment.ofText? reserved t = some f ∧ f.trailing = [] ∧
      f.table = table) fragments tables := by
  induction fragments generalizing p tables with
  | nil =>
    obtain ⟨rfl, -⟩ := gives_pure ok
    exact .nil
  | cons fragment fragments ih =>
    rw [readTables] at ok
    obtain ⟨table, p₁, first, ok⟩ := gives_bind ok
    obtain ⟨more, p₂, rest, ok⟩ := gives_bind ok
    obtain ⟨rfl, rfl⟩ := gives_pure ok
    refine .cons ?_ (ih rest)
    have cleanFirst := (advance_readTables rest).clean clean
    obtain ⟨f, issue, read, same, checked, rfl⟩ := readTable_ok first
    cases issue with
    | none => exact ⟨f, read, trailing_of_clean checked, same⟩
    | some issue => simp [noteAll] at cleanFirst

theorem resolveJoins_clean {joins : List Join} (ok : resolveJoins reserved t = .ok (joins, [])) :
    List.Forall₂ (fun j join => j.segment.resolve reserved = .ok (join, none)) (cutJoins t).2 joins := by
  rw [resolveJoins] at ok
  cases resolved : (joinSegments t).mapM (·.resolve reserved) with
  | error issue =>
    rw [resolved] at ok
    cases ok
  | ok pairs =>
    rw [resolved] at ok
    have eq : (pairs.map Prod.fst, pairs.filterMap Prod.snd) = (joins, []) := Except.ok.inj ok
    obtain ⟨rfl, none⟩ := Prod.mk.inj eq
    have silent := List.filterMap_eq_nil_iff.mp none
    have each := List.forall₂_map_left_iff.mp (mapM_ok resolved)
    rw [List.forall₂_map_right_iff]
    clear resolved ok eq none
    generalize (cutJoins t).2 = texts at each
    induction each with
    | nil => exact .nil
    | @cons j pair _ _ first rest ih =>
      obtain ⟨join, issue⟩ := pair
      obtain rfl : issue = none := silent (join, issue) (by simp)
      exact .cons first (ih fun pair member => silent pair (by simp [member]))

def sourceNames (named : Text) : List Text :=
  (splitTop ',' (mainTables named) ++ (joinSegments named).map (·.table)).flatMap tokens

/-- What the tables of a statement name is passed on. Each join passes on the main table once more. -/
theorem account_sources {many : Bool} {s : Sources} (clear : Clear (nameParams t p).1)
    (ok : Gives (readSources reserved clause many t) p s p') (clean : p'.issues = [])
    (method : Method) :
    Account (paramsIn (nameParams t p).1)
      ((s.table :: s.extraTables).flatMap (fun t => (tableCall method t).params) ++
        s.joins.flatMap (fun j => (joinCall s.table.reference j).params))
      (∀ n ∈ sourceNames (nameParams t p).1, paramsIn (plainName n) = paramsIn n)
      ((s.joins ≠ [] → paramsIn s.table.reference = []) ∧
        ∀ j ∈ s.joins, j.table.writtenAlias? = none → paramsIn j.table.table = []) := by
  obtain ⟨p₁, issues, -, read, resolved, -, rfl⟩ := readSources_ok ok
  obtain ⟨cleanTables, rfl⟩ : p₁.issues = [] ∧ issues = [] := by simpa [noteAll] using clean
  generalize (nameParams t p).1 = named at clear read resolved ⊢
  have cut := splits_cutJoins clear
  have main := splits_trim (cut.clear (cutJoins named).1 (by simp))
  have pieces := splits_splitTop (d := ',') (by decide) main.clear_one
  have fragment (t : Text) (table : TableRef) (both : Clear t ∧ ∃ f,
      TableFragment.ofText? reserved t = some f ∧ f.trailing = [] ∧ f.table = table) :
      Account (paramsIn t) (tableCall method table).params
        (∀ n ∈ tokens t, paramsIn (plainName n) = paramsIn n) True := by
    obtain ⟨clear, f, read, full, rfl⟩ := both
    exact account_fragment clear read full method
  have tables := Account.flatMap
    ((List.forall₂_and_left _ _).mpr ⟨pieces.clear, readTables_clean read cleanTables⟩) fragment
  have joins := Account.flatMap
    ((List.forall₂_and_left _ _).mpr ⟨fun j member => cut.clear j.body (by
      simp only [List.mem_cons, List.mem_map]
      exact .inr ⟨j, member, rfl⟩), resolveJoins_clean resolved⟩)
    (f := fun j => paramsIn j.body)
    (fun j join both => by
      obtain ⟨clear, resolved⟩ := both
      have segment := splits_segment (resolve_ok resolved).1 clear
      have account := account_join (segment.clear j.segment.table (by simp)) resolved
      rw [segment.names]
      exact account)
  have inside : s.joins.flatMap (fun _ => paramsIn s.table.reference) ⊆
      (s.table :: s.extraTables).flatMap (fun t => (tableCall method t).params) ++
        s.joins.flatMap fun j => paramsIn j.table.table ++ paramsIn j.table.reference ++
          j.condition.toList.flatMap paramsIn := by
    intro n member
    obtain ⟨-, -, named⟩ := List.mem_flatMap.mp member
    apply List.mem_append_left
    rw [List.flatMap_cons, params_tableCall]
    apply List.mem_append_left
    rw [TableRef.reference] at named
    cases written : s.table.writtenAlias? with
    | none =>
      rw [written] at named
      exact List.mem_append_left _ named
    | some name =>
      rw [written] at named
      exact List.mem_append_right _ (by simpa using named)
  have account := (tables.append joins).repeat_ inside
  have names : paramsIn named = (splitTop ',' (mainTables named)).flatMap paramsIn ++
      (cutJoins named).2.flatMap fun j => paramsIn j.body := by
    rw [cut.names, List.flatMap_cons, List.flatMap_map, main.names_one]
    exact congrArg (· ++ _) pieces.names
  have out : ((s.table :: s.extraTables).flatMap (fun t => (tableCall method t).params) ++
      s.joins.flatMap fun j => (joinCall s.table.reference j).params).Perm
      (((s.table :: s.extraTables).flatMap (fun t => (tableCall method t).params) ++
        s.joins.flatMap fun j => paramsIn j.table.table ++ paramsIn j.table.reference ++
          j.condition.toList.flatMap paramsIn) ++
        s.joins.flatMap fun _ => paramsIn s.table.reference) := by
    rw [List.append_assoc]
    apply List.Perm.append_left
    simp only [params_joinCall]
    exact (List.flatMap_append_perm _ _ _).symm.trans List.perm_append_comm
  apply (account.of_iff _ _).of_perm (.of_eq names) out
  · simp only [sourceNames, joinSegments, List.map_map, List.flatMap_append, List.mem_append,
      List.mem_flatMap, List.mem_map, mainTables]
    constructor
    · rintro ⟨first, second⟩ n (⟨fragment, member, token⟩ | ⟨_, ⟨j, member, rfl⟩, token⟩)
      · exact first fragment member n token
      · exact second j member n token
    · intro all
      exact ⟨fun fragment member n token => all n (.inl ⟨fragment, member, token⟩),
        fun j member n token => all n (.inr ⟨_, ⟨j, member, rfl⟩, token⟩)⟩
  · have none : s.joins.flatMap (fun _ => paramsIn s.table.reference) = [] ↔
        (s.joins ≠ [] → paramsIn s.table.reference = []) := by
      rw [List.flatMap_eq_nil_iff]
      constructor
      · intro each some_
        obtain ⟨j, member⟩ := List.exists_mem_of_ne_nil _ some_
        exact each j member
      · exact fun all j member => all (List.ne_nil_of_mem member)
    rw [none]
    simp [and_comm]

end Sources
end QueryChain
