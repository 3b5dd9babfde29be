import QueryChain.Proofs.Condition.Chain
import QueryChain.Proofs.ReadBack.Entries
import QueryChain.Proofs.Statement.Reading

namespace QueryChain

/-- With `n` parameters named and no issue noted, the step answers `a`, has named `m` parameters then
    and still no issue. -/
def Answers {α : Type} (x : Noting α) (n : Nat) (a : α) (m : Nat) : Prop :=
  ∀ named, ∃ named', x ⟨n, [], named⟩ = (a, ⟨m, [], named'⟩)

def Yields {α : Type} (x : Reading α) (n : Nat) (a : α) (m : Nat) : Prop :=
  ∀ named, ∃ named', Gives x ⟨n, [], named⟩ a ⟨m, [], named'⟩

section Steps

variable {α β : Type} {a : α} {b : β} {n k m : Nat}

theorem answers_pure (a : α) (n : Nat) : Answers (pure a) n a n := fun named => ⟨named, rfl⟩

theorem Answers.bind {x : Noting β} {f : β → Noting α} (first : Answers x n b k) (second : Answers (f b) k a m) :
    Answers (x >>= f) n a m := by
  intro named
  obtain ⟨named₁, ran⟩ := first named
  obtain ⟨named₂, ran'⟩ := second named₁
  exact ⟨named₂, by rw [noting_bind, ran]; exact ran'⟩

theorem answers_nameParams (t : Text) (n : Nat) : Answers (nameParams t) n (numbered n t) (n + placeholders t) :=
  fun named => ⟨named ++ [(t, numbered n t)], rfl⟩

theorem answers_noteAll_nil (n : Nat) : Answers (noteAll []) n () n := fun named => ⟨named, rfl⟩

theorem Answers.lift {y : Noting α} (answers : Answers y n a m) : Yields (liftM y) n a m := by
  intro named
  obtain ⟨named', ran⟩ := answers named
  refine ⟨named', ?_⟩
  have lifted (p : Progress) : (liftM y : Reading α).run p = (.ok (y p).1, (y p).2) := rfl
  rw [Gives, lifted, ran]

theorem yields_pure (a : α) (n : Nat) : Yields (pure a) n a n := fun named => ⟨named, rfl⟩

theorem Yields.bind {x : Reading β} {f : β → Reading α} (first : Yields x n b k) (second : Yields (f b) k a m) :
    Yields (x >>= f) n a m := by
  intro named
  obtain ⟨named₁, ran⟩ := first named
  obtain ⟨named₂, ran'⟩ := second named₁
  refine ⟨named₂, ?_⟩
  rw [Gives] at ran ran' ⊢
  rw [ExceptT.run_bind]
  simp only [Bind.bind, StateT.bind, ran]
  exact ran'

theorem yields_require {x : Option α} (found : x = some a) (i : Issue) (n : Nat) : Yields (require x i) n a n := by
  rw [found]
  exact yields_pure a n

/-- A check that does not hold refuses nothing. -/
theorem Yields.unless {c : Prop} [Decidable c] {i : Issue} {f : Unit → Reading α} (fails : ¬c)
    (yields : Yields (f ()) n a m) : Yields (if c then refuse i >>= f else f ()) n a m := by
  rwa [if_neg fails]

end Steps
section Refinement

variable {sql : Text} {n : Nat}

def listText? (ts : List Text) : Option Text := if ts = [] then none else some (joinWith ", " ts)

def placeholders? (t : Option Text) : Nat := (t.map placeholders).getD 0

def Chain.read (issued : Nat) (c : Chain Text) : List Condition := foldPrecedence (c.named issued).conditions

def chainConditions (issued : Nat) (c : Option (Chain Text)) : List Condition := (c.map (Chain.read issued)).getD []

def Joinable (a : Text) : Prop := a ≠ [] ∧ Operand a ∧ (Untouched a ∨ logicWords a = [])

theorem answers_readWhere {c : Option (Chain Text)} (found : whereSection? sql = c.map Chain.text)
    (normal : ∀ d ∈ c, normalize d.text = d.text) (joinable : ∀ d ∈ c, ∀ a ∈ d.operands, Joinable a) :
    Answers (readWhere sql) n (chainConditions n c) (n + placeholders? (c.map Chain.text)) := by
  intro named
  cases c with
  | none => exact ⟨named, readWhere_eq_none sql _ found⟩
  | some d =>
    have conditions := conditionsOf_chain (normal d rfl) (joinable d rfl) n
    rw [conditionsOf, normal d rfl] at conditions
    have full : foldPrecedence (d.named n).conditions ≠ [] := by
      rw [Chain.conditions, foldPrecedence]
      exact foldAnds_ne_nil _ _ _
    refine ⟨named ++ [(d.text, numbered n d.text)], ?_⟩
    rw [readWhere_eq_some sql _ found, normal d rfl]
    simp only [nameParams, conditions, if_neg full]
    rfl

theorem answers_readGroupBy {ts : List Text} (found : groupBySection? sql = listText? ts) (items : ∀ t ∈ ts, Item t) :
    Answers (readGroupBy sql) n (numberedAll n ts) (n + placeholders? (listText? ts)) := by
  rw [readGroupBy, found]
  by_cases empty : ts = []
  · subst empty
    exact answers_pure _ n
  · rw [listText?, if_neg empty]
    refine (answers_nameParams _ n).bind ?_
    rw [splitTop_numbered items]
    exact answers_pure _ _

theorem answers_readHaving {t : Option Text} (found : havingSection? sql = t) (full : ∀ u ∈ t, u ≠ []) :
    Answers (readHaving sql) n (t.map (numbered n)) (n + placeholders? t) := by
  rw [readHaving, found]
  cases t with
  | none => exact answers_pure _ n
  | some u =>
    refine (answers_nameParams u n).bind ?_
    rw [if_neg (mt (numbered_eq_nil_iff _ _).mp (full u rfl))]
    exact answers_pure _ _

def orderItems (issued : Nat) : List (Text × Direction) → List OrderItem
  | [] => []
  | e :: es => ⟨numbered issued e.1, e.2⟩ :: orderItems (issued + placeholders e.1) es

theorem Item.order {e : Text × Direction} (item : Item e.1) : Item (orderText e) where
  solid := item.solid.glue (Solid.plain (by cases e.2 <;> decide))
  trimmed := trim_glue item.full (by cases e.2 <;> decide) item.trimmed (by cases e.2 <;> decide)
  full := by simp [orderText]
  whole := hasTop_glue item.solid (by decide) item.whole (by cases e.2 <;> decide)

theorem placeholders_orderText {e : Text × Direction} (solid : Solid e.1) :
    placeholders (orderText e) = placeholders e.1 := by
  have none : placeholders e.2.word = 0 := by cases e.2 <;> decide
  rw [orderText, solid.placeholders_glue, none, Nat.add_zero]

theorem orderItem_numbered {e : Text × Direction} (item : Item e.1) (issued : Nat) :
    orderItem (numbered issued (orderText e)) = ⟨numbered issued e.1, e.2⟩ := by
  have named := item.named issued
  have free : '?' ∉ e.2.word := by cases e.2 <;> decide
  rw [orderText, item.solid.numbered_glue, numbered_of_free free]
  exact orderItem_text (e := numbered issued e.1) named.solid named.trimmed named.full e.2

theorem map_orderItem {es : List (Text × Direction)} (items : ∀ e ∈ es, Item e.1) (issued : Nat) :
    (numberedAll issued (es.map orderText)).map orderItem = orderItems issued es := by
  induction es generalizing issued with
  | nil => rfl
  | cons e es ih =>
    have item := items e (by simp)
    rw [List.map_cons, numberedAll, List.map_cons, orderItem_numbered item, placeholders_orderText item.solid,
      ih fun f member => items f (List.mem_cons_of_mem _ member), orderItems]

theorem answers_readOrderBy {es : List (Text × Direction)} (found : orderBySection? sql = listText? (es.map orderText))
    (items : ∀ e ∈ es, Item e.1) :
    Answers (readOrderBy sql) n (orderItems n es) (n + placeholders? (listText? (es.map orderText))) := by
  rw [readOrderBy, found]
  by_cases empty : es = []
  · subst empty
    exact answers_pure _ n
  · have written : ∀ t ∈ es.map orderText, Item t := by
      intro t member
      obtain ⟨e, inList, rfl⟩ := List.mem_map.mp member
      exact (items e inList).order
    rw [listText?, if_neg (by simpa using empty)]
    refine (answers_nameParams _ n).bind ?_
    have full : (numberedAll n (es.map orderText)).filter (· ≠ []) = numberedAll n (es.map orderText) :=
      List.filter_eq_self.mpr fun t member => by simpa using (items_named written n t member).full
    rw [splitTop_numbered written, full, map_orderItem items]
    exact answers_pure _ _

theorem answers_readLimitSection {b : Option BoundText} (found : limitSection? sql = b.map BoundText.text)
    (fits : ∀ c ∈ b, c.Fits n) : Answers (readLimitSection sql) n (b.map (BoundText.bound n), none)
      (n + placeholders? (b.map BoundText.text)) := by
  rw [readLimitSection, found]
  cases b with
  | none => exact answers_pure _ n
  | some c =>
    refine (answers_nameParams _ n).bind ?_
    rw [c.limit?_numbered (fits c rfl)]
    exact answers_pure _ _

theorem answers_readOffsetSection {b : Option BoundText} (found : offsetSection? sql = b.map BoundText.text)
    (fits : ∀ c ∈ b, c.Fits n) : Answers (readOffsetSection none sql) n (b.map (BoundText.bound n))
      (n + placeholders? (b.map BoundText.text)) := by
  rw [readOffsetSection, found]
  cases b with
  | none => exact answers_pure _ n
  | some c =>
    refine (answers_nameParams _ n).bind ?_
    rw [c.bound?_numbered (fits c rfl)]
    exact answers_pure _ _

theorem answers_readRowCount {b : Option BoundText} (found : limitSection? sql = b.map BoundText.text)
    (fits : ∀ c ∈ b, c.Fits n) :
    Answers (readRowCount sql) n (b.map (BoundText.bound n)) (n + placeholders? (b.map BoundText.text)) :=
  (answers_readLimitSection found fits).bind (answers_pure _ _)

end Refinement
end QueryChain
