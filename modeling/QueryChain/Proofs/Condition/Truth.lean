import QueryChain.Builder.Chain
import QueryChain.Proofs.NormalForm.Settled

namespace QueryChain

/-- What a condition can be for a row. -/
inductive Truth where
  | holds
  | fails
  | unknown
  deriving DecidableEq, Repr

namespace Truth

def and : Truth → Truth → Truth
  | .fails, _ | _, .fails => .fails
  | .holds, .holds => .holds
  | _, _ => .unknown

def or : Truth → Truth → Truth
  | .holds, _ | _, .holds => .holds
  | .fails, .fails => .fails
  | _, _ => .unknown

variable (u v w : Truth)

theorem and_assoc : (u.and v).and w = u.and (v.and w) := by cases u <;> cases v <;> cases w <;> rfl

theorem or_assoc : (u.or v).or w = u.or (v.or w) := by cases u <;> cases v <;> cases w <;> rfl

@[simp] theorem and_holds : v.and .holds = v := by cases v <;> rfl

@[simp] theorem holds_and : holds.and v = v := by cases v <;> rfl

@[simp] theorem fails_or : fails.or v = v := by cases v <;> rfl

@[simp] theorem or_fails : v.or .fails = v := by cases v <;> rfl

def conjunction (vs : List Truth) : Truth := vs.foldr and .holds

theorem conjunction_append (us vs : List Truth) :
    conjunction (us ++ vs) = (conjunction us).and (conjunction vs) := by
  induction us with
  | nil => simp [conjunction]
  | cons u us ih =>
    change u.and (conjunction (us ++ vs)) = (u.and (conjunction us)).and (conjunction vs)
    rw [ih, and_assoc]

/-- The value of a chain. `AND` binds tighter than `OR`. -/
def ofChain : Truth → List (Connective × Truth) → Truth
  | v, [] => v
  | v, (.and, w) :: rest => ofChain (v.and w) rest
  | v, (.or, w) :: rest => v.or (ofChain w rest)

end Truth

def Method.combine (m : Method) (before value : Truth) : Truth :=
  match m with
  | .firstWhere => value
  | .andWhere => before.and value
  | .orWhere => before.or value
  | _ => before

/-- The value of the condition that calls build one after the other, each from a value of its own. -/
def Truth.ofCalls (calls : List (Method × Truth)) : Truth :=
  calls.foldl (fun before c => c.1.combine before c.2) .unknown

structure Group (α : Type) where
  connective : Option Connective
  operands : List α

def groupAnds {α : Type} (afterOr : Bool) (last : Group α) : List (Connective × α) → List (Group α)
  | [] => [last]
  | (k, a) :: rest =>
    if afterOr ∧ k = .and then groupAnds afterOr { last with operands := last.operands ++ [a] } rest
    else last :: groupAnds (afterOr || k == .or) ⟨some k, [a]⟩ rest

def Chain.groups {α : Type} (c : Chain α) : List (Group α) := groupAnds false ⟨none, [c.first]⟩ c.rest

section Group

variable {α : Type} {afterOr : Bool} {last : Group α} {rest : List (Connective × α)}

def Group.condition (text : α → Text) (g : Group α) : Condition :=
  ⟨joinWith " AND " (g.operands.map text), g.connective⟩

theorem joinWith_concat (separator : Text) (parts : List Text) (full : parts ≠ []) (t : Text) :
    joinWith separator (parts ++ [t]) = joinWith separator parts ++ separator ++ t := by
  induction parts with
  | nil => exact absurd rfl full
  | cons p parts ih =>
    cases parts with
    | nil => simp [joinWith, List.intercalate]
    | cons q parts =>
      have later := ih (by simp)
      simp only [joinWith, List.intercalate, List.cons_append, List.intersperse_cons_cons,
        List.flatten_cons, List.append_assoc] at later ⊢
      rw [later]

theorem Group.condition_single (text : α → Text) (k : Option Connective) (a : α) :
    Group.condition text ⟨k, [a]⟩ = ⟨text a, k⟩ := by
  simp [condition, joinWith, List.intercalate]

theorem foldAnds_eq (text : α → Text) (full : last.operands ≠ []) :
    foldAnds afterOr (last.condition text) (rest.map fun p => ⟨text p.2, some p.1⟩) =
      (groupAnds afterOr last rest).map (Group.condition text) := by
  induction rest generalizing afterOr last with
  | nil => rfl
  | cons p rest ih =>
    obtain ⟨k, a⟩ := p
    rw [List.map_cons, foldAnds, groupAnds]
    by_cases joins : afterOr ∧ k = .and
    · rw [if_pos joins, if_pos ⟨joins.1, by rw [joins.2]⟩, ← ih (by simp)]
      congr 1
      simp only [Group.condition, List.map_append, List.map_cons, List.map_nil]
      rw [joinWith_concat _ _ (by simpa using full)]
    · have apart : ¬(afterOr ∧ some k = some Connective.and) := fun h => joins ⟨h.1, Option.some.inj h.2⟩
      rw [if_neg joins, if_neg apart, List.map_cons, ← ih (by simp), Group.condition_single]
      rfl

theorem operands_groupAnds :
    (groupAnds afterOr last rest).flatMap Group.operands = last.operands ++ rest.map Prod.snd := by
  induction rest generalizing afterOr last with
  | nil => simp [groupAnds]
  | cons p rest ih =>
    rw [groupAnds]
    split
    · rw [ih, List.append_assoc]
      rfl
    · rw [List.flatMap_cons, ih]
      rfl

theorem full_groupAnds (full : last.operands ≠ []) :
    ∀ g ∈ groupAnds afterOr last rest, g.operands ≠ [] := by
  induction rest generalizing afterOr last with
  | nil => simpa [groupAnds] using full
  | cons p rest ih =>
    rw [groupAnds]
    split
    · exact ih (by simp)
    · intro g member
      rcases List.mem_cons.mp member with rfl | later
      · exact full
      · exact ih (by simp) g later

/-- Every group behind the first has a connective in front of it, and that is `OR` from the first `OR` on. -/
theorem groupAnds_connectives (afterOr : Bool) (last : Group α) (rest : List (Connective × α))
    (open_ : last.connective = some .or → afterOr) :
    ∃ g gs, groupAnds afterOr last rest = g :: gs ∧ g.connective = last.connective ∧
      (∀ h ∈ gs, h.connective.isSome ∧ (afterOr → h.connective = some .or)) ∧
      (g :: gs).Pairwise fun g h => g.connective = some .or → h.connective = some .or := by
  induction rest generalizing afterOr last with
  | nil => exact ⟨last, [], rfl, rfl, by simp, by simp⟩
  | cons p rest ih =>
    obtain ⟨k, a⟩ := p
    rw [groupAnds]
    by_cases joins : afterOr ∧ k = .and
    · rw [if_pos joins]
      exact ih afterOr { last with operands := last.operands ++ [a] } open_
    · rw [if_neg joins]
      obtain ⟨g, gs, groups, connective, later, pairs⟩ :=
        ih (afterOr || k == .or) ⟨some k, [a]⟩ fun isOr => by simp [Option.some.inj isOr]
      have isOr (behind : afterOr) : k = .or := by
        cases k with
        | and => exact absurd ⟨behind, rfl⟩ joins
        | or => rfl
      have all : ∀ h ∈ g :: gs, h.connective.isSome ∧ (afterOr → h.connective = some .or) := by
        intro h member
        rcases List.mem_cons.mp member with rfl | inRest
        · rw [connective]
          exact ⟨rfl, fun behind => congrArg some (isOr behind)⟩
        · exact ⟨(later h inRest).1, fun behind => (later h inRest).2 (by simp [behind])⟩
      refine ⟨last, g :: gs, by rw [groups], rfl, all, ?_⟩
      exact List.pairwise_cons.mpr ⟨fun h member isOr => (all h member).2 (open_ isOr), pairs⟩

def Group.apply (value : α → Truth) (before : Truth) (g : Group α) : Truth :=
  if g.connective = some .or then before.or (Truth.conjunction (g.operands.map value))
  else before.and (Truth.conjunction (g.operands.map value))

variable {value : α → Truth} {before : Truth}

theorem foldl_behind_or (before : Truth) (isOr : last.connective = some .or) :
    (groupAnds true last rest).foldl (Group.apply value) before =
      before.or (Truth.ofChain (Truth.conjunction (last.operands.map value))
        (rest.map fun p => (p.1, value p.2))) := by
  induction rest generalizing last before with
  | nil => simp [groupAnds, Group.apply, isOr, Truth.ofChain]
  | cons p rest ih =>
    obtain ⟨k, a⟩ := p
    rw [groupAnds, List.map_cons]
    cases k with
    | and =>
      have next := @ih { last with operands := last.operands ++ [a] } before isOr
      rw [if_pos ⟨rfl, rfl⟩, next, Truth.ofChain, List.map_append, Truth.conjunction_append]
      simp [Truth.conjunction]
    | or =>
      rw [if_neg (by simp), List.foldl_cons, Group.apply, if_pos isOr, Bool.true_or, ih _ rfl,
        Truth.ofChain, Truth.or_assoc]
      simp [Truth.conjunction]

theorem foldl_groupAnds (notOr : last.connective ≠ some .or) :
    (groupAnds false last rest).foldl (Group.apply value) before =
      Truth.ofChain (before.and (Truth.conjunction (last.operands.map value)))
        (rest.map fun p => (p.1, value p.2)) := by
  induction rest generalizing last before with
  | nil => simp [groupAnds, Group.apply, notOr, Truth.ofChain]
  | cons p rest ih =>
    obtain ⟨k, a⟩ := p
    rw [groupAnds, List.map_cons, if_neg (by simp), List.foldl_cons, Group.apply, if_neg notOr,
      Bool.false_or]
    cases k with
    | and =>
      have next := @ih ⟨some .and, [a]⟩ (before.and (Truth.conjunction (last.operands.map value))) (by simp)
      rw [Truth.ofChain, show (Connective.and == Connective.or) = false from rfl]
      simpa [Truth.conjunction] using next
    | or =>
      refine (foldl_behind_or _ rfl).trans ?_
      simp [Truth.ofChain, Truth.conjunction]

/-- The calls combine the values of their conditions as the connectives say. -/
theorem ofCalls_conditions (condition : α → Condition) {a : α} {as : List α}
    (notOr : (condition a).connective ≠ some .or) :
    Truth.ofCalls (((conditionCalls ((a :: as).map condition)).map Call.method).zip ((a :: as).map value)) =
      (a :: as).foldl (fun before a => if (condition a).connective = some .or then before.or (value a)
        else before.and (value a)) .holds := by
  have methods : (conditionCalls ((a :: as).map condition)).map Call.method =
      .firstWhere :: as.map fun b => (laterConditionCall (condition b)).method := by
    simp [conditionCalls, Function.comp_def]
  rw [methods, List.map_cons, List.zip_cons_cons, List.zip_map', Truth.ofCalls, List.foldl_cons,
    List.foldl_cons, List.foldl_map, if_neg notOr, Truth.holds_and]
  congr 1
  funext before b
  by_cases isOr : (condition b).connective = some .or
  · have method : (laterConditionCall (condition b)).method = .orWhere := if_pos isOr
    rw [method, if_pos isOr]
    rfl
  · have method : (laterConditionCall (condition b)).method = .andWhere := if_neg isOr
    rw [method, if_neg isOr]
    rfl

end Group
section Meaning

def Chain.placed {α : Type} (c : Chain α) : Chain (α × Nat) where
  first := (c.first, 0)
  rest := (c.rest.zipIdx 1).map fun p => (p.1.1, p.1.2, p.2)

def Chain.value {α : Type} (v : Nat → Truth) (c : Chain α) : Truth :=
  Truth.ofChain (v 0) (((c.rest.map Prod.fst).zipIdx 1).map fun p => (p.1, v p.2))

theorem Chain.operands_placed {α : Type} (c : Chain α) : c.placed.operands = c.operands.zipIdx := by
  rw [operands, operands, placed, List.zipIdx_cons, List.zipIdx_map, List.map_map]
  rfl

theorem Chain.conditions_placed (c : Chain Text) :
    c.conditions = ⟨c.placed.first.1, none⟩ :: c.placed.rest.map fun p => ⟨p.2.1, some p.1⟩ := by
  have rest : c.rest = (c.rest.zipIdx 1).map Prod.fst := (List.zipIdx_map_fst 1 c.rest).symm
  rw [conditions, placed, List.map_map]
  conv_lhs => rw [rest, List.map_map]
  rfl

theorem Chain.foldPrecedence_conditions (c : Chain Text) :
    foldPrecedence c.conditions = c.placed.groups.map (Group.condition Prod.fst) := by
  rw [c.conditions_placed, foldPrecedence, Chain.groups, ← foldAnds_eq Prod.fst (by simp),
    Group.condition_single]
  rfl

/-- Whatever connectives stand between its operands, a condition keeps its meaning: the conditions it is
    split into hold every operand once, in order; the first has no connective and the others have one, no
    `AND` behind an `OR`; and what the calls build from them has the value of the whole for all values of the
    operands, a condition of several operands read as all of them together. An operand is a text that is
    complete in itself, with no connective at its top level but in a `CASE` group or a `BETWEEN`. -/
theorem conditions_keep_meaning (c : Chain Text) (issued : Nat) (normal : normalize c.text = c.text)
    (untouched : Untouched c.text)
    (operands : ∀ a ∈ c.operands, a ≠ [] ∧ Balanced a ∧ Whole (logicWords a)) :
    ∃ groups : List (Group (Text × Nat)),
      conditionsOf issued c.text = groups.map (Group.condition Prod.fst) ∧
      groups.flatMap Group.operands = (numberedAll issued c.operands).zipIdx ∧
      (∀ g ∈ groups, g.operands ≠ []) ∧
      (groups.head?.map Group.connective = some none ∧ ∀ g ∈ groups.tail, g.connective.isSome) ∧
      (groups.Pairwise fun g h => g.connective = some .or → h.connective ≠ some .and) ∧
      ∀ v : Nat → Truth,
        Truth.ofCalls (((conditionCalls (conditionsOf issued c.text)).map Call.method).zip
          (groups.map fun g => Truth.conjunction (g.operands.map fun a => v a.2))) = c.value v := by
  have isNormal := isNormal_of_normalize normal
  have last (d : Char) (ending : c.text.getLast? = some d) : isBlank d = false :=
    (getLast?_of_dropSemicolons isNormal.noSemicolon d ending).2
  have parts := parts_of_chain c.first c.rest isNormal.commentFree isNormal.spaced last
    fun a member => ⟨(operands a member).1, (operands a member).2.1⟩
  have free := untouched_of_chain c.first c.rest (fun a member => (parts a member).1) untouched
  have conditions := conditionsOf_chain normal (fun a member => ⟨(operands a member).1,
    ⟨(parts a member).1, (parts a member).2, (operands a member).2.2.pass⟩, .inl (free a member)⟩) issued
  rw [Chain.foldPrecedence_conditions] at conditions
  set named := c.named issued with named_def
  obtain ⟨g, gs, groups, connective, later, pairs⟩ :=
    groupAnds_connectives false ⟨none, [named.placed.first]⟩ named.placed.rest (by simp)
  have notOr : g.connective ≠ some .or := by
    rw [connective]
    simp
  refine ⟨named.placed.groups, conditions, ?_, ?_, ?_, ?_, fun v => ?_⟩
  · rw [← c.operands_named, ← named_def, ← named.operands_placed]
    exact operands_groupAnds
  · exact full_groupAnds (by simp)
  · rw [Chain.groups, groups]
    exact ⟨congrArg some connective, fun h member => (later h member).1⟩
  · rw [Chain.groups, groups]
    refine pairs.imp ?_
    intro g h same isOr isAnd
    rw [same isOr] at isAnd
    cases isAnd
  · have notOrFirst : (⟨none, [named.placed.first]⟩ : Group (Text × Nat)).connective ≠ some .or := by simp
    have value := @foldl_groupAnds _ _ named.placed.rest (fun a => v a.2) .holds notOrFirst
    rw [groups] at value
    have words : named.rest.map Prod.fst = c.rest.map Prod.fst := by
      rw [named_def, Chain.named, List.map_fst_zip]
      simp
    rw [conditions, Chain.groups, groups, ofCalls_conditions (Group.condition Prod.fst) notOr]
    refine value.trans ?_
    rw [Chain.value, ← words, List.zipIdx_map, List.map_map, Chain.placed, List.map_map, Truth.holds_and]
    simp [Truth.conjunction, Function.comp_def]

def mixedChain : Chain Text where
  first := "a BETWEEN ? AND CASE WHEN b AND c THEN 1 ELSE ? END"
  rest := [(.or, "d = 'x AND y'"), (.and, "e IN (? OR 0)")]

theorem conditions_keep_meaning_mixed :
    ∃ groups : List (Group (Text × Nat)),
      conditionsOf 2 mixedChain.text = groups.map (Group.condition Prod.fst) ∧
      groups.flatMap Group.operands = (numberedAll 2 mixedChain.operands).zipIdx ∧
      (∀ g ∈ groups, g.operands ≠ []) ∧
      (groups.head?.map Group.connective = some none ∧ ∀ g ∈ groups.tail, g.connective.isSome) ∧
      (groups.Pairwise fun g h => g.connective = some .or → h.connective ≠ some .and) ∧
      ∀ v : Nat → Truth,
        Truth.ofCalls (((conditionCalls (conditionsOf 2 mixedChain.text)).map Call.method).zip
          (groups.map fun g => Truth.conjunction (g.operands.map fun a => v a.2))) = mixedChain.value v := by
  apply conditions_keep_meaning mixedChain 2
  · have clean : cleanUp mixedChain.text = mixedChain.text := by decide +kernel
    rw [normalize, if_pos clean]
  · decide +kernel
  · intro a member
    have balanced : ∀ a ∈ mixedChain.operands, a ≠ [] ∧ Balanced a := by decide +kernel
    refine ⟨(balanced a member).1, (balanced a member).2, ?_⟩
    have words : mixedChain.operands.map logicWords =
        [[.between, .connective .and, .caseWord, .connective .and, .endWord], [], []] := by decide +kernel
    have here : logicWords a ∈ mixedChain.operands.map logicWords := List.mem_map_of_mem member
    rw [words] at here
    simp only [List.mem_cons, List.not_mem_nil, or_false, or_self] at here
    rcases here with whole | none
    · rw [whole]
      have inner : Nested [.connective .and] := .word (by decide) (by decide) .nil
      exact .between .nil (.group inner .nil)
    · rw [none]
      exact .nil

end Meaning
end QueryChain
