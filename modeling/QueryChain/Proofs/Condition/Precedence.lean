import QueryChain.Proofs.Condition.Truth

namespace QueryChain

/-- The logical operators between operands. `&&` is read like `AND`, `||` like `OR`. -/
inductive Operator where
  | and
  | ampersands
  | xor
  | or
  | pipes
  deriving DecidableEq, Repr

def Operator.text : Operator → Text
  | .and => "AND"
  | .ampersands => "&&"
  | .xor => "XOR"
  | .or => "OR"
  | .pipes => "||"

def Operator.isTight : Operator → Bool
  | .and | .ampersands => true
  | .xor | .or | .pipes => false

namespace Truth

def not : Truth → Truth
  | .holds => .fails
  | .fails => .holds
  | .unknown => .unknown

def xor : Truth → Truth → Truth
  | .fails, v | v, .fails => v
  | .holds, .holds => .fails
  | _, _ => .unknown

@[simp] theorem fails_xor (v : Truth) : fails.xor v = v := by cases v <;> rfl

@[simp] theorem xor_fails (v : Truth) : v.xor .fails = v := by cases v <;> rfl

@[simp] theorem and_fails (v : Truth) : v.and .fails = .fails := by cases v <;> rfl

@[simp] theorem fails_and (v : Truth) : fails.and v = .fails := by cases v <;> rfl

@[simp] theorem holds_or (v : Truth) : holds.or v = .holds := by cases v <;> rfl

variable {α : Type} {val : α → Truth} {d x c : Truth} {xs ys : List (Operator × α)}

/-- The value of operands with operators between them: `AND` binds tightest, then `XOR`, then `OR`. What was
    read is kept as a disjunction, the exclusive one that is still open, and the conjunction in it. -/
def ofOperators (val : α → Truth) (d x c : Truth) : List (Operator × α) → Truth
  | [] => d.or (x.xor c)
  | (.and, a) :: rest | (.ampersands, a) :: rest => ofOperators val d x (c.and (val a)) rest
  | (.xor, a) :: rest => ofOperators val d (x.xor c) (val a) rest
  | (.or, a) :: rest | (.pipes, a) :: rest => ofOperators val (d.or (x.xor c)) .fails (val a) rest

theorem ofOperators_or_left (d e x c : Truth) (xs : List (Operator × α)) :
    ofOperators val (d.or e) x c xs = d.or (ofOperators val e x c xs) := by
  induction xs generalizing e x c with
  | nil => exact or_assoc d e _
  | cons p xs ih =>
    obtain ⟨o, a⟩ := p
    cases o <;> simp only [ofOperators, or_assoc, ih]

theorem ofOperators_or {b : α} {o : Operator} (loosest : o = .or ∨ o = .pipes) :
    ofOperators val d x c (xs ++ (o, b) :: ys) =
      (ofOperators val d x c xs).or (ofOperators val .fails .fails (val b) ys) := by
  induction xs generalizing d x c with
  | nil =>
    have right : ofOperators val ((d.or (x.xor c)).or .fails) .fails (val b) ys =
        (d.or (x.xor c)).or (ofOperators val .fails .fails (val b) ys) := ofOperators_or_left _ _ _ _ ys
    rw [or_fails] at right
    rcases loosest with rfl | rfl <;> exact right
  | cons p xs ih =>
    obtain ⟨o', a⟩ := p
    cases o' <;> exact ih

/-- Operands joined by tight operators make one conjunction. -/
theorem ofOperators_tight (tight : ∀ p ∈ xs, p.1.isTight) :
    ofOperators val d x c xs = d.or (x.xor (c.and (conjunction (xs.map fun p => val p.2)))) := by
  induction xs generalizing c with
  | nil => simp [ofOperators, conjunction]
  | cons p xs ih =>
    obtain ⟨o, a⟩ := p
    have later := ih (c := c.and (val a)) fun q member => tight q (by simp [member])
    rw [and_assoc] at later
    have here := tight (o, a) (by simp)
    cases o with
    | and | ampersands => exact later
    | xor | or | pipes => cases here

theorem conjunction_holds (all : ∀ p ∈ xs, val p.2 = .holds) :
    conjunction (xs.map fun p => val p.2) = .holds := by
  induction xs with
  | nil => rfl
  | cons p xs ih =>
    have rest := ih fun q member => all q (by simp [member])
    rw [List.map_cons, conjunction, List.foldr_cons, all p (by simp), holds_and]
    exact rest

theorem ofOperators_fails (all : ∀ p ∈ xs, val p.2 = .fails) :
    ofOperators val .fails .fails .fails xs = .fails := by
  induction xs with
  | nil => rfl
  | cons p xs ih =>
    obtain ⟨o, a⟩ := p
    have here := all (o, a) (by simp)
    have later := ih fun q member => all q (by simp [member])
    cases o <;> simpa [ofOperators, here] using later

/-- Behind a looser operator, what was true before it stays true while nothing else is. -/
theorem ofOperators_holds_left {l1 l2 : List (Operator × α)} {o : Operator} {w : α}
    (tight : ∀ p ∈ l1, p.1.isTight) (loose : ¬o.isTight) (first : ∀ p ∈ l1, val p.2 = .holds)
    (here : val w = .fails) (later : ∀ p ∈ l2, val p.2 = .fails) :
    ofOperators val .fails .fails .holds (l1 ++ (o, w) :: l2) = .holds := by
  have behind : ∀ (xs : List (Operator × α)), (∀ p ∈ xs, val p.2 = .fails) → ∀ d x,
      d = .holds ∨ d = .fails ∧ x = .holds → ofOperators val d x .fails xs = .holds := by
    intro xs
    induction xs with
    | nil =>
      rintro - d x (rfl | ⟨rfl, rfl⟩)
      · exact holds_or _
      · rfl
    | cons p xs ih =>
      rintro all d x state
      obtain ⟨o, a⟩ := p
      have value := all (o, a) (by simp)
      have rest := ih fun q member => all q (by simp [member])
      simp only at value
      cases o <;> simp only [ofOperators, value] <;> apply rest <;>
        rcases state with rfl | ⟨rfl, rfl⟩ <;> simp
  induction l1 with
  | nil =>
    cases o with
    | and | ampersands => exact absurd rfl loose
    | xor | or | pipes =>
      simp only [List.nil_append, ofOperators, here]
      exact behind l2 later _ _ (by simp)
  | cons p l1 ih =>
    obtain ⟨o', a⟩ := p
    have value := first (o', a) (by simp)
    have more := ih (fun q member => tight q (by simp [member])) fun q member => first q (by simp [member])
    have isTight := tight (o', a) (by simp)
    simp only at value
    cases o' with
    | and | ampersands => simpa [ofOperators, value] using more
    | xor | or | pipes => cases isTight

/-- What is true behind the last looser operator makes the whole true while nothing before it is. -/
theorem ofOperators_holds_right {l1 l2 : List (Operator × α)} {o : Operator} {w : α}
    (tight : ∀ p ∈ l2, p.1.isTight) (loose : ¬o.isTight) (first : ∀ p ∈ l1, val p.2 = .fails)
    (here : val w = .holds) (later : ∀ p ∈ l2, val p.2 = .holds) :
    ofOperators val .fails .fails .fails (l1 ++ (o, w) :: l2) = .holds := by
  induction l1 with
  | nil =>
    cases o with
    | and | ampersands => exact absurd rfl loose
    | xor | or | pipes =>
      simp only [List.nil_append, ofOperators, here]
      rw [ofOperators_tight tight, conjunction_holds later]
      rfl
  | cons p l1 ih =>
    obtain ⟨o', a⟩ := p
    have value := first (o', a) (by simp)
    have more := ih fun q member => first q (by simp [member])
    simp only at value
    cases o' <;> simpa [ofOperators, value] using more

end Truth

structure Series (α : Type) where
  first : α
  rest : List (Operator × α)

namespace Series

variable {α β : Type}

def map (f : α → β) (s : Series α) : Series β := ⟨f s.first, s.rest.map fun p => (p.1, f p.2)⟩

def snoc (s : Series α) (o : Operator) (a : α) : Series α := ⟨s.first, s.rest ++ [(o, a)]⟩

def value (val : α → Truth) (s : Series α) : Truth :=
  Truth.ofOperators val .fails .fails (val s.first) s.rest

def IsTight (s : Series α) : Prop := ∀ p ∈ s.rest, p.1.isTight

end Series

structure Part (α : Type) where
  connective : Option Connective
  body : Series α

def splitParts {α : Type} (afterOr : Bool) (last : Part α) : List (Operator × α) → List (Part α)
  | [] => [last]
  | (.or, a) :: rest => last :: splitParts true ⟨some .or, a, []⟩ rest
  | (.and, a) :: rest =>
    if afterOr then splitParts true { last with body := last.body.snoc .and a } rest
    else last :: splitParts false ⟨some .and, a, []⟩ rest
  | (o, a) :: rest => splitParts afterOr { last with body := last.body.snoc o a } rest

def Series.parts {α : Type} (s : Series α) : List (Part α) := splitParts false ⟨none, s.first, []⟩ s.rest

section Parts

variable {α : Type} {val : α → Truth} {last : Part α} {rest xs ys : List (Operator × α)} {before : Truth}

def Part.apply (val : α → Truth) (before : Truth) (p : Part α) : Truth :=
  if p.connective = some .or then before.or (p.body.value val) else before.and (p.body.value val)

theorem foldl_parts_behind_or (isOr : last.connective = some .or) :
    (splitParts true last rest).foldl (Part.apply val) before =
      before.or (Series.value val ⟨last.body.first, last.body.rest ++ rest⟩) := by
  induction rest generalizing last before with
  | nil => simp [splitParts, Part.apply, isOr]
  | cons p rest ih =>
    obtain ⟨o, a⟩ := p
    have longer (o : Operator) :
        (splitParts true { last with body := last.body.snoc o a } rest).foldl (Part.apply val) before =
          before.or (Series.value val ⟨last.body.first, last.body.rest ++ (o, a) :: rest⟩) := by
      have next := @ih { last with body := last.body.snoc o a } before isOr
      simpa [Series.snoc] using next
    cases o with
    | or =>
      rw [splitParts, List.foldl_cons, ih rfl, Part.apply, if_pos isOr, Truth.or_assoc]
      congr 1
      exact (Truth.ofOperators_or (.inl rfl)).symm
    | and =>
      rw [splitParts, if_pos rfl]
      exact longer .and
    | ampersands => exact longer .ampersands
    | xor => exact longer .xor
    | pipes => exact longer .pipes

theorem splitParts_or (noOr : ∀ p ∈ xs, p.1 ≠ .or) (a : α) :
    splitParts false last (xs ++ (.or, a) :: ys) =
      splitParts false last xs ++ splitParts true ⟨some .or, a, []⟩ ys := by
  induction xs generalizing last with
  | nil => rfl
  | cons p xs ih =>
    obtain ⟨o, b⟩ := p
    have here := noOr (o, b) (by simp)
    have later (last : Part α) := @ih last fun q member => noOr q (by simp [member])
    cases o with
    | or => exact absurd rfl here
    | and => simp [splitParts, later]
    | ampersands | xor | pipes => simp [splitParts, later]

theorem splitParts_and (noOr : ∀ p ∈ xs, p.1 ≠ .or) (a : α) :
    splitParts false last (xs ++ (.and, a) :: ys) =
      splitParts false last xs ++ splitParts false ⟨some .and, a, []⟩ ys := by
  induction xs generalizing last with
  | nil => simp [splitParts]
  | cons p xs ih =>
    obtain ⟨o, b⟩ := p
    have here := noOr (o, b) (by simp)
    have later (last : Part α) := @ih last fun q member => noOr q (by simp [member])
    cases o with
    | or => exact absurd rfl here
    | and => simp [splitParts, later]
    | ampersands | xor | pipes => simp [splitParts, later]

theorem splitParts_none (noAnd : ∀ p ∈ rest, p.1 ≠ .and) (noOr : ∀ p ∈ rest, p.1 ≠ .or) :
    splitParts false last rest = [{ last with body := ⟨last.body.first, last.body.rest ++ rest⟩ }] := by
  induction rest generalizing last with
  | nil => simp [splitParts]
  | cons p rest ih =>
    obtain ⟨o, b⟩ := p
    have later (last : Part α) := @ih last (fun q member => noAnd q (by simp [member]))
      fun q member => noOr q (by simp [member])
    cases o with
    | or => exact absurd rfl (noOr (.or, b) (by simp))
    | and => exact absurd rfl (noAnd (.and, b) (by simp))
    | ampersands | xor | pipes => simp [splitParts, later, Series.snoc]

theorem head_splitParts (afterOr : Bool) (last : Part α) (rest : List (Operator × α)) :
    ∃ p ps, splitParts afterOr last rest = p :: ps ∧ p.connective = last.connective := by
  induction rest generalizing last afterOr with
  | nil => exact ⟨last, [], rfl, rfl⟩
  | cons p rest ih =>
    obtain ⟨o, b⟩ := p
    have longer (o : Operator) := ih afterOr { last with body := last.body.snoc o b }
    cases o with
    | or => exact ⟨last, _, rfl, rfl⟩
    | and =>
      rw [splitParts]
      split
      · rename_i isAfter
        subst isAfter
        exact longer .and
      · exact ⟨last, _, rfl, rfl⟩
    | ampersands => exact longer .ampersands
    | xor => exact longer .xor
    | pipes => exact longer .pipes

theorem connective_of_splitParts (last : Part α) (noOr : ∀ p ∈ rest, p.1 ≠ .or) :
    ∃ p ps, splitParts false last rest = p :: ps ∧ p.connective = last.connective ∧
      ∀ q ∈ ps, q.connective = some .and := by
  induction rest generalizing last with
  | nil => exact ⟨last, [], rfl, rfl, by simp⟩
  | cons p rest ih =>
    obtain ⟨o, b⟩ := p
    have later (last : Part α) := @ih last fun q member => noOr q (by simp [member])
    cases o with
    | or => exact absurd rfl (noOr (.or, b) (by simp))
    | and =>
      obtain ⟨q, qs, parts, first, all⟩ := later ⟨some .and, b, []⟩
      refine ⟨last, q :: qs, by simp [splitParts, parts], rfl, ?_⟩
      intro r member
      rcases List.mem_cons.mp member with rfl | more
      · exact first
      · exact all r more
    | ampersands | xor | pipes => exact later { last with body := last.body.snoc _ b }

/-- A part of a series without an `OR` holds some of its operands, all under the same operators. -/
theorem mem_splitParts {P : α → Prop} {Q : Operator → Prop} (afterOr : Bool) (last : Part α)
    (first : P last.body.first) (start : ∀ p ∈ last.body.rest, Q p.1 ∧ P p.2)
    (all : ∀ p ∈ rest, Q p.1 ∧ P p.2) :
    ∀ p ∈ splitParts afterOr last rest, P p.body.first ∧ ∀ q ∈ p.body.rest, Q q.1 ∧ P q.2 := by
  induction rest generalizing last afterOr with
  | nil =>
    intro p member
    obtain rfl : p = last := by simpa [splitParts] using member
    exact ⟨first, start⟩
  | cons r rest ih =>
    obtain ⟨o, b⟩ := r
    have here := all (o, b) (by simp)
    have rest_ : ∀ p ∈ rest, Q p.1 ∧ P p.2 := fun p member => all p (by simp [member])
    have fresh (k : Connective) (afterOr : Bool) := ih afterOr ⟨some k, b, []⟩ here.2 (by simp) rest_
    have longer (o' : Operator) (same : o' = o) :=
      ih afterOr { last with body := last.body.snoc o' b } first (by
        intro p member
        rcases List.mem_append.mp member with old | new
        · exact start p old
        · obtain rfl := List.mem_singleton.mp new
          exact same ▸ here) rest_
    intro p member
    cases o with
    | or =>
      rcases List.mem_cons.mp member with rfl | more
      · exact ⟨first, start⟩
      · exact fresh .or true p more
    | and =>
      rw [splitParts] at member
      split at member
      · rename_i isAfter
        subst isAfter
        exact longer .and rfl p member
      · rcases List.mem_cons.mp member with rfl | more
        · exact ⟨first, start⟩
        · exact fresh .and false p more
    | ampersands => exact longer .ampersands rfl p member
    | xor => exact longer .xor rfl p member
    | pipes => exact longer .pipes rfl p member

theorem foldl_fails {ps : List (Part α)} (noOr : ∀ p ∈ ps, p.connective ≠ some .or)
    (bad : before = .fails ∨ ∃ p ∈ ps, p.body.value val = .fails) :
    ps.foldl (Part.apply val) before = .fails := by
  induction ps generalizing before with
  | nil => simpa using bad
  | cons p ps ih =>
    rw [List.foldl_cons]
    apply ih fun q member => noOr q (by simp [member])
    rw [Part.apply, if_neg (noOr p (by simp))]
    rcases bad with rfl | ⟨q, member, value⟩
    · exact .inl (Truth.fails_and _)
    · rcases List.mem_cons.mp member with rfl | later
      · exact .inl (by rw [value, Truth.and_fails])
      · exact .inr ⟨q, later, value⟩

/-- No part that an `AND` joins to another one holds an operator that binds looser. -/
def AndSound (ps : List (Part α)) : Prop :=
  ps.IsChain fun p q => q.connective = some .and → p.body.IsTight ∧ q.body.IsTight

theorem connective_behind_or (isOr : last.connective = some .or) :
    ∀ p ∈ splitParts true last rest, p.connective = some .or := by
  induction rest generalizing last with
  | nil => simpa [splitParts] using isOr
  | cons r rest ih =>
    obtain ⟨o, b⟩ := r
    have longer (o : Operator) := @ih { last with body := last.body.snoc o b } isOr
    cases o with
    | or =>
      intro p member
      rcases List.mem_cons.mp member with rfl | more
      · exact isOr
      · exact ih rfl p more
    | and => exact longer .and
    | ampersands => exact longer .ampersands
    | xor => exact longer .xor
    | pipes => exact longer .pipes

theorem andSound_behind_or (isOr : last.connective = some .or) : AndSound (splitParts true last rest) := by
  apply List.Pairwise.isChain
  apply List.pairwise_of_forall_mem_list
  intro p _ q member isAnd
  rw [connective_behind_or isOr q member] at isAnd
  cases isAnd

theorem andSound_append_or (noOr : ∀ p ∈ xs, p.1 ≠ .or) (a : α) :
    AndSound (splitParts false last (xs ++ (.or, a) :: ys)) ↔ AndSound (splitParts false last xs) := by
  rw [splitParts_or noOr, AndSound, List.isChain_append]
  refine ⟨fun sound => sound.1, fun sound => ⟨sound, andSound_behind_or rfl, ?_⟩⟩
  intro p _ q first isAnd
  rw [connective_behind_or rfl q (List.mem_of_mem_head? first)] at isAnd
  cases isAnd

theorem tight_of_splitParts (noOr : ∀ p ∈ rest, p.1 ≠ .or)
    (tight : ∀ p ∈ splitParts false last rest, p.body.IsTight) :
    last.body.IsTight ∧ ∀ p ∈ rest, p.1.isTight := by
  induction rest generalizing last with
  | nil => exact ⟨tight last (by simp [splitParts]), by simp⟩
  | cons r rest ih =>
    obtain ⟨o, b⟩ := r
    have noOr_ : ∀ p ∈ rest, p.1 ≠ .or := fun p member => noOr p (by simp [member])
    have longer (o : Operator)
        (tight : ∀ p ∈ splitParts false { last with body := last.body.snoc o b } rest, p.body.IsTight) :
        last.body.IsTight ∧ ∀ p ∈ (o, b) :: rest, p.1.isTight := by
      obtain ⟨here, later⟩ := ih noOr_ tight
      refine ⟨fun p member => here p (List.mem_append_left _ member), ?_⟩
      intro p member
      rcases List.mem_cons.mp member with rfl | more
      · exact here _ (List.mem_append_right _ (by simp))
      · exact later p more
    cases o with
    | or => exact absurd rfl (noOr (.or, b) (by simp))
    | and =>
      obtain ⟨-, later⟩ := @ih ⟨some .and, b, []⟩ noOr_ fun p member => tight p (by simp [splitParts, member])
      refine ⟨tight last (by simp [splitParts]), ?_⟩
      intro p member
      rcases List.mem_cons.mp member with rfl | more
      · rfl
      · exact later p more
    | ampersands => exact longer .ampersands tight
    | xor => exact longer .xor tight
    | pipes => exact longer .pipes tight

/-- Of several parts joined by `AND` each is joined to another one. -/
theorem AndSound.tight {p : Part α} {ps : List (Part α)} (sound : AndSound (p :: ps)) (several : ps ≠ [])
    (ands : ∀ q ∈ ps, q.connective = some .and) : ∀ q ∈ p :: ps, q.body.IsTight := by
  induction ps generalizing p with
  | nil => exact absurd rfl several
  | cons q ps ih =>
    obtain ⟨here, later⟩ := List.isChain_cons_cons.mp sound
    have both := here (ands q (by simp))
    intro r member
    rcases List.mem_cons.mp member with rfl | more
    · exact both.1
    · cases ps with
      | nil =>
        obtain rfl := List.mem_singleton.mp more
        exact both.2
      | cons s ps => exact ih later (by simp) (fun t inRest => ands t (List.mem_cons_of_mem _ inRest)) r more

/-- Up to the first `OR` the parts are sound if nothing is cut, or nothing in them binds looser than `AND`. -/
theorem andSound_iff (noOr : ∀ p ∈ rest, p.1 ≠ .or) (first : α) :
    AndSound (splitParts false ⟨none, first, []⟩ rest) ↔
      (∀ p ∈ rest, p.1 ≠ .and) ∨ ∀ p ∈ rest, p.1.isTight := by
  constructor
  · intro sound
    by_cases cut : ∀ p ∈ rest, p.1 ≠ .and
    · exact .inl cut
    · right
      push Not at cut
      obtain ⟨⟨o, u⟩, member, isAnd⟩ := cut
      simp only at isAnd
      subst isAnd
      obtain ⟨front, back, rfl⟩ := List.append_of_mem member
      obtain ⟨p, ps, parts, -, ands⟩ := connective_of_splitParts ⟨none, first, []⟩ noOr
      have several : ps ≠ [] := by
        rintro rfl
        have noOrFront : ∀ p ∈ front, p.1 ≠ .or := fun p member => noOr p (by simp [member])
        have noOrBack : ∀ p ∈ back, p.1 ≠ .or := fun p member => noOr p (by simp [member])
        have length := congrArg List.length parts
        rw [splitParts_and noOrFront] at length
        obtain ⟨q, qs, front_, -, -⟩ := connective_of_splitParts ⟨none, first, []⟩ noOrFront
        obtain ⟨r, rs, back_, -, -⟩ := connective_of_splitParts ⟨some .and, u, []⟩ noOrBack
        rw [front_, back_] at length
        simp at length
      rw [parts] at sound
      have tight := AndSound.tight sound several ands
      rw [← parts] at tight
      exact (tight_of_splitParts noOr tight).2
  · rintro (uncut | tight)
    · rw [splitParts_none uncut noOr]
      exact List.isChain_singleton _
    · have all := mem_splitParts (P := fun _ : α => True) (Q := (·.isTight)) false ⟨none, first, []⟩ trivial
        (by simp) fun p member => ⟨tight p member, trivial⟩
      apply List.Pairwise.isChain
      apply List.pairwise_of_forall_mem_list
      intro p inParts q inParts' _
      exact ⟨fun r member => ((all p inParts).2 r member).1, fun r member => ((all q inParts').2 r member).1⟩

theorem foldl_parts_tight (tight : ∀ p ∈ rest, p.1.isTight) (start : last.body.IsTight)
    (notOr : last.connective ≠ some .or) :
    (splitParts false last rest).foldl (Part.apply val) before =
      before.and (Series.value val ⟨last.body.first, last.body.rest ++ rest⟩) := by
  induction rest generalizing last before with
  | nil => simp [splitParts, Part.apply, notOr]
  | cons p rest ih =>
    obtain ⟨o, a⟩ := p
    have here := tight (o, a) (by simp)
    have later : ∀ p ∈ rest, p.1.isTight := fun p member => tight p (by simp [member])
    have both : ∀ p ∈ last.body.rest ++ (o, a) :: rest, p.1.isTight := by
      intro p member
      rcases List.mem_append.mp member with old | new
      · exact start p old
      · exact tight p new
    cases o with
    | or | xor | pipes => cases here
    | ampersands =>
      have next := @ih { last with body := last.body.snoc .ampersands a } before later
        (fun p member => by
          rcases List.mem_append.mp member with old | new
          · exact start p old
          · obtain rfl := List.mem_singleton.mp new
            exact here) notOr
      simpa [splitParts, Series.snoc] using next
    | and =>
      have next := @ih ⟨some .and, a, []⟩ (before.and (last.body.value val)) later
        (fun p member => by cases member) (by simp)
      have split : splitParts false last ((.and, a) :: rest) =
          last :: splitParts false ⟨some .and, a, []⟩ rest := by simp [splitParts]
      rw [split, List.foldl_cons, Part.apply, if_neg notOr, next, Truth.and_assoc]
      congr 1
      rw [Series.value, Series.value, Series.value, Truth.ofOperators_tight both,
        Truth.ofOperators_tight start, List.nil_append, Truth.ofOperators_tight later]
      simp only [Truth.fails_or, Truth.fails_xor, List.map_append, List.map_cons, Truth.conjunction_append,
        Truth.and_assoc]
      rfl

end Parts
section Sound

variable {α : Type} {val : α → Truth}

theorem Series.fold_of_sound {s : Series α} (sound : AndSound s.parts) :
    s.parts.foldl (Part.apply val) .holds = s.value val := by
  have leading (xs : List (Operator × α)) (noOr : ∀ p ∈ xs, p.1 ≠ .or)
      (sound : AndSound (splitParts false ⟨none, s.first, []⟩ xs)) :
      (splitParts false ⟨none, s.first, []⟩ xs).foldl (Part.apply val) .holds =
        Series.value val ⟨s.first, xs⟩ := by
    rcases (andSound_iff noOr s.first).mp sound with uncut | tight
    · rw [splitParts_none uncut noOr]
      simp [Part.apply]
    · rw [foldl_parts_tight tight (fun p member => by cases member) (by simp), Truth.holds_and, List.nil_append]
  obtain ⟨first, rest⟩ := s
  rw [parts] at sound ⊢
  simp only at sound leading ⊢
  cases found : rest.find? (·.1 == .or) with
  | none =>
    apply leading rest _ sound
    simpa using List.find?_eq_none.mp found
  | some p =>
    obtain ⟨isOr, xs, ys, rfl, before⟩ := List.find?_eq_some_iff_append.mp found
    obtain ⟨o, a⟩ := p
    obtain rfl : o = .or := by simpa using isOr
    have noOr : ∀ p ∈ xs, p.1 ≠ .or := by simpa using before
    rw [andSound_append_or noOr] at sound
    rw [splitParts_or noOr, List.foldl_append, leading xs noOr sound, foldl_parts_behind_or rfl]
    exact (Truth.ofOperators_or (.inl rfl)).symm

def Truth.ofBool : Bool → Truth
  | true => .holds
  | false => .fails

def allTo (b : Bool) (xs : List (Operator × α)) : List (α × Bool) := xs.map fun p => (p.2, b)

theorem of_allTo {b : Bool} {xs : List (Operator × α)} (given : ∀ t ∈ allTo b xs, val t.1 = Truth.ofBool t.2) :
    ∀ p ∈ xs, val p.2 = Truth.ofBool b :=
  fun _ member => given _ (List.mem_map_of_mem member)

theorem fst_allTo (b : Bool) (xs : List (Operator × α)) : (allTo b xs).map Prod.fst = xs.map Prod.snd := by
  rw [allTo, List.map_map]
  rfl

/-- Where an operator that binds looser stands in front of the first `AND`: what is in front of that operator
    is true and nothing else. -/
theorem broken_in_front {l1 l2 q2 : List (Operator × α)} {first w u : α} {o : Operator}
    (tight : ∀ p ∈ l1, p.1.isTight) (loose : ¬o.isTight)
    (noOr : ∀ p ∈ l1 ++ (o, w) :: l2 ++ (.and, u) :: q2, p.1 ≠ .or)
    (given : ∀ t ∈ (first, true) :: allTo true l1 ++ allTo false ((o, w) :: l2 ++ (.and, u) :: q2),
      val t.1 = Truth.ofBool t.2) :
    (splitParts false ⟨none, first, []⟩ (l1 ++ (o, w) :: l2 ++ (.and, u) :: q2)).foldl (Part.apply val)
        .holds = .fails ∧
      Series.value val ⟨first, l1 ++ (o, w) :: l2 ++ (.and, u) :: q2⟩ = .holds := by
  have start : val first = .holds := given (first, true) (by simp)
  have front : ∀ p ∈ l1, val p.2 = .holds := of_allTo (b := true) fun t member => given t (by simp [member])
  have back : ∀ p ∈ (o, w) :: l2 ++ (.and, u) :: q2, val p.2 = .fails :=
    of_allTo (b := false) fun t member => given t (List.mem_append_right _ member)
  have noOr_ : ∀ p ∈ q2, p.1 ≠ .or := fun p member => noOr p (by simp [member])
  constructor
  · obtain ⟨p, ps, parts, connective, ands⟩ := connective_of_splitParts ⟨some .and, u, []⟩ noOr_
    have later : ∀ p ∈ q2, True ∧ val p.2 = .fails := fun p member => ⟨trivial, back p (by simp [member])⟩
    have inside := mem_splitParts (P := (val · = .fails)) (Q := fun _ => True) false ⟨some .and, u, []⟩
      (back (.and, u) (by simp)) (by simp) later p (by simp [parts])
    rw [splitParts_and fun p member => noOr p (List.mem_append_left _ member), List.foldl_append]
    apply foldl_fails
    · intro q member
      rw [parts] at member
      rcases List.mem_cons.mp member with rfl | more
      · simp [connective]
      · simp [ands q more]
    · refine .inr ⟨p, by simp [parts], ?_⟩
      rw [Series.value, inside.1]
      exact Truth.ofOperators_fails fun q member => (inside.2 q member).2
  · rw [Series.value]
    simp only [start, List.append_assoc, List.cons_append]
    exact Truth.ofOperators_holds_left tight loose front (back (o, w) (by simp))
      fun p member => back p (by simpa using .inr (by simpa using member))

/-- Where operators that bind looser stand behind the first `AND` only: what is behind the last of them is
    true and nothing else. -/
theorem broken_behind {q1 l1 l2 : List (Operator × α)} {first w u : α} {o : Operator}
    (tight : ∀ p ∈ l2, p.1.isTight) (loose : ¬o.isTight) (noAnd : ∀ p ∈ q1, p.1 ≠ .and)
    (noOr : ∀ p ∈ q1 ++ (.and, u) :: (l1 ++ (o, w) :: l2), p.1 ≠ .or)
    (given : ∀ t ∈ (first, false) :: allTo false (q1 ++ (.and, u) :: l1) ++ allTo true ((o, w) :: l2),
      val t.1 = Truth.ofBool t.2) :
    (splitParts false ⟨none, first, []⟩ (q1 ++ (.and, u) :: (l1 ++ (o, w) :: l2))).foldl (Part.apply val)
        .holds = .fails ∧
      Series.value val ⟨first, q1 ++ (.and, u) :: (l1 ++ (o, w) :: l2)⟩ = .holds := by
  have start : val first = .fails := given (first, false) (by simp)
  have front : ∀ p ∈ q1 ++ (.and, u) :: l1, val p.2 = .fails :=
    of_allTo (b := false) fun t member => given t (by simp [member])
  have back : ∀ p ∈ (o, w) :: l2, val p.2 = .holds :=
    of_allTo (b := true) fun t member => given t (List.mem_append_right _ member)
  constructor
  · obtain ⟨p, ps, parts, connective, ands⟩ := connective_of_splitParts ⟨none, first, []⟩ noOr
    apply foldl_fails
    · intro q member
      rw [parts] at member
      rcases List.mem_cons.mp member with rfl | more
      · simp [connective]
      · simp [ands q more]
    · have noOr_ : ∀ p ∈ q1, p.1 ≠ .or := fun p member => noOr p (by simp [member])
      refine .inr ⟨⟨none, first, q1⟩, ?_, ?_⟩
      · rw [splitParts_and noOr_, splitParts_none noAnd noOr_]
        simp
      · rw [Series.value, start]
        exact Truth.ofOperators_fails fun p member => front p (by simp [member])
  · have regroup : q1 ++ (.and, u) :: (l1 ++ (o, w) :: l2) = (q1 ++ (.and, u) :: l1) ++ (o, w) :: l2 := by simp
    rw [Series.value, start, regroup]
    exact Truth.ofOperators_holds_right tight loose front (back (o, w) (by simp))
      fun p member => back p (by simp [member])

theorem broken_leading {rest : List (Operator × α)} {first : α} (noOr : ∀ p ∈ rest, p.1 ≠ .or)
    (broken : ¬AndSound (splitParts false ⟨none, first, []⟩ rest)) :
    ∃ targets : List (α × Bool), targets.map Prod.fst = first :: rest.map Prod.snd ∧
      ∀ val : α → Truth, (∀ t ∈ targets, val t.1 = Truth.ofBool t.2) →
        (splitParts false ⟨none, first, []⟩ rest).foldl (Part.apply val) .holds = .fails ∧
          Series.value val ⟨first, rest⟩ = .holds := by
  rw [andSound_iff noOr, not_or] at broken
  push Not at broken
  obtain ⟨⟨p, cut, isAnd⟩, ⟨r, wide, loose⟩⟩ := broken
  have isCut : ∃ p ∈ rest, (p.1 == Operator.and) = true := ⟨p, cut, by simpa using isAnd⟩
  obtain ⟨⟨k, u⟩, found⟩ := Option.isSome_iff_exists.mp (List.find?_isSome.mpr isCut)
  obtain ⟨here, q1, q2, rfl, before⟩ := List.find?_eq_some_iff_append.mp found
  obtain rfl : k = .and := by simpa using here
  have noAnd : ∀ p ∈ q1, p.1 ≠ .and := by simpa using before
  by_cases inFront : ∃ p ∈ q1, (!p.1.isTight) = true
  · obtain ⟨⟨o, w⟩, first_⟩ := Option.isSome_iff_exists.mp (List.find?_isSome.mpr inFront)
    obtain ⟨loose', l1, l2, rfl, tight⟩ := List.find?_eq_some_iff_append.mp first_
    refine ⟨_, ?_, fun val given => broken_in_front (by simpa using tight) (by simpa using loose') noOr given⟩
    simp [fst_allTo]
  · have behind : ∃ p ∈ q2.reverse, (!p.1.isTight) = true := by
      refine ⟨r, ?_, by simpa using loose⟩
      rcases List.mem_append.mp wide with front | back
      · exact absurd ⟨r, front, by simpa using loose⟩ inFront
      · rcases List.mem_cons.mp back with rfl | later
        · exact absurd rfl loose
        · exact List.mem_reverse.mpr later
    obtain ⟨⟨o, w⟩, last⟩ := Option.isSome_iff_exists.mp (List.find?_isSome.mpr behind)
    obtain ⟨loose', l2, l1, reversed, tight⟩ := List.find?_eq_some_iff_append.mp last
    obtain rfl : q2 = l1.reverse ++ (o, w) :: l2.reverse := by
      rw [← List.reverse_reverse q2, reversed]
      simp
    have tight_ : ∀ p ∈ l2.reverse, p.1.isTight := by simpa using tight
    refine ⟨_, ?_, fun val given => broken_behind tight_ (by simpa using loose') noAnd noOr given⟩
    simp [fst_allTo]

/-- Parts that are not sound give another value than the whole, with the right values of the operands. -/
theorem Series.exists_of_broken {s : Series α} (broken : ¬AndSound s.parts) :
    ∃ targets : List (α × Bool), targets.map Prod.fst = s.first :: s.rest.map Prod.snd ∧
      ∀ val : α → Truth, (∀ t ∈ targets, val t.1 = Truth.ofBool t.2) →
        s.parts.foldl (Part.apply val) .holds = .fails ∧ s.value val = .holds := by
  obtain ⟨first, rest⟩ := s
  rw [parts] at broken ⊢
  simp only at broken ⊢
  cases found : rest.find? (·.1 == .or) with
  | none => exact broken_leading (by simpa using List.find?_eq_none.mp found) broken
  | some p =>
    obtain ⟨isOr, xs, ys, rfl, before⟩ := List.find?_eq_some_iff_append.mp found
    obtain ⟨o, a⟩ := p
    obtain rfl : o = .or := by simpa using isOr
    have noOr : ∀ p ∈ xs, p.1 ≠ .or := by simpa using before
    rw [andSound_append_or noOr] at broken
    obtain ⟨targets, operands, differ⟩ := broken_leading noOr broken
    refine ⟨targets ++ allTo false ((.or, a) :: ys), by simp [operands, fst_allTo], ?_⟩
    intro val given
    obtain ⟨fold, whole⟩ := differ val fun t member => given t (List.mem_append_left _ member)
    have none := of_allTo (b := false) fun t member => given t (List.mem_append_right _ member)
    have tail : Series.value val ⟨a, ys⟩ = .fails := by
      rw [Series.value, none (.or, a) (by simp)]
      exact Truth.ofOperators_fails fun p member => none p (by simp [member])
    constructor
    · rw [splitParts_or noOr, List.foldl_append, fold, foldl_parts_behind_or rfl, List.nil_append, tail]
      rfl
    · have value : Series.value val ⟨first, xs ++ (.or, a) :: ys⟩ =
          (Series.value val ⟨first, xs⟩).or (Series.value val ⟨a, ys⟩) := Truth.ofOperators_or (.inl rfl)
      rw [value, whole]
      exact Truth.holds_or _

end Sound
end QueryChain
