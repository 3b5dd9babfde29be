import QueryChain.Proofs.ReadBack.Printed

namespace QueryChain

def rowOrder : List Keyword := [["WHERE"], ["ORDER", "BY"], ["LIMIT"]]

def rowKeywords : List Keyword := ["WHERE"] :: bodyEnds

structure RowsText where
  conditions : Option (Chain Text) := none
  orderBy : List (Text × Direction) := []
  limit : Option BoundText := none

namespace RowsText

def sections (r : RowsText) : List (Keyword × Option Text) :=
  [(["WHERE"], r.conditions.map Chain.text), (["ORDER", "BY"], listText? (r.orderBy.map orderText)),
    (["LIMIT"], r.limit.map BoundText.text)]

def text (r : RowsText) : Text := sectionsText (present r.sections)

def count (issued : Nat) (r : RowsText) (n : Nat) : Nat := countTo issued r.sections n

structure Fits (issued : Nat) (r : RowsText) : Prop where
  conditions : ∀ c ∈ r.conditions, ∀ a ∈ c.operands, WhereAtom rowKeywords a
  orderBy : ∀ e ∈ r.orderBy, Atom rowKeywords e.1
  limit : ∀ b ∈ r.limit, b.Fits (r.count issued 2)

theorem watched : Watched rowOrder rowKeywords :=
  ⟨by decide, by decide, by decide, by decide, by decide +kernel, by decide +kernel⟩

theorem unjoined : Unjoined rowKeywords :=
  ⟨⟨by decide +kernel, by decide +kernel⟩, by decide +kernel, by decide⟩

theorem avoids_connectives : Avoids connectiveWords rowKeywords := ⟨by decide, by decide⟩

theorem avoids_directions : Avoids directionWords rowKeywords := ⟨by decide, by decide⟩

variable {issued : Nat} {r : RowsText} {front : Text}

theorem legible (fits : r.Fits issued) : Legible rowOrder rowKeywords (present r.sections) := by
  refine legible_present (by simp [sections, rowOrder]) ?_
  simp only [sections, List.forall_mem_cons, List.not_mem_nil, false_imp_iff, implies_true, and_true]
  exact ⟨body_chain avoids_connectives (by decide) fits.conditions, body_orders avoids_directions fits.orderBy,
    body_bound unjoined.keywords _⟩

theorem neat (fits : r.Fits issued) (neat : Neat front) : Neat (front ++ r.text) :=
  neat_sections watched (legible fits) neat

theorem lacks (fits : r.Fits issued) (before : Body rowKeywords front) {ks : List Keyword} (sub : ks ⊆ rowKeywords)
    (other : ∀ k ∈ rowOrder, k ∉ ks) : Lacks ks (front ++ r.text) :=
  lacks_present watched (legible fits) before sub other

theorem placeholders_text (fits : r.Fits issued) (neat : Neat front) (same : placeholders front = issued) :
    placeholders (front ++ r.text) = r.count issued 3 := by
  rw [text, placeholders_present watched (legible fits) neat, same]
  rfl

theorem section_eq (fits : r.Fits issued) (before : Body rowKeywords front) {k : Keyword} {ends : List Keyword}
    (member : k ∈ rowKeywords) (sub : ends ⊆ rowKeywords)
    (follow : rowOrder.Pairwise fun k₁ k₂ => k₁ = k → k₂ ∈ ends) : section? k ends (front ++ r.text) =
      (r.sections.lookup k).join := by
  exact section?_present watched (legible fits) rfl (by decide) before member sub follow

/-- The section in front of these, which holds none of their keywords. -/
theorem section_front (fits : r.Fits issued) {s body : Text} {k : Keyword} {ends : List Keyword} (isKeyword : IsKeyword k)
    (sub : ends ⊆ rowKeywords) (next : ∀ k ∈ rowOrder, k ∈ ends) (bodies : Body rowKeywords body) (neat : Neat s)
    (lacks : Lacks [k] s) (neat' : Neat (k.text ++ ' ' :: (body ++ r.text)))
    (apart : Uncrossed [k] s (k.text ++ ' ' :: (body ++ r.text))) : section? k ends
      (s ++ ' ' :: (k.text ++ ' ' :: (body ++ r.text))) = some body := by
  rw [section?_glue isKeyword neat neat' lacks apart]
  exact section?_body watched (legible fits) sub isKeyword bodies.neat (bodies.lacks.mono sub) fun p member =>
    next _ (legible fits p (List.mem_of_mem_head? member)).1

theorem answers_conditions (fits : r.Fits issued) (before : Body rowKeywords front) :
    Answers (readWhere (front ++ r.text)) issued (chainConditions issued r.conditions) (r.count issued 1) := by
  have found : whereSection? (front ++ r.text) = r.conditions.map Chain.text :=
    section_eq fits before (by decide) (by decide) (by decide)
  rw [count, ← countTo_next (n := 0) rfl]
  refine answers_readWhere found ?_ fun c written a member => (fits.conditions c written a member).joinable
  intro c written
  have links : ∀ a ∈ c.operands, Link a := fun a member => (fits.conditions c written a member).link (by decide)
  exact (Link.chain links).neat.normal

theorem answers_order (fits : r.Fits issued) (before : Body rowKeywords front) :
    Answers (readOrderBy (front ++ r.text)) (r.count issued 1) (orderItems (r.count issued 1) r.orderBy)
      (r.count issued 2) := by
  rw [count, count, ← countTo_next (n := 1) rfl]
  exact answers_readOrderBy (section_eq fits before (by decide) (by decide) (by decide)) fun e member =>
    (fits.orderBy e member).item

theorem answers_limit (fits : r.Fits issued) (before : Body rowKeywords front) :
    Answers (readRowCount (front ++ r.text)) (r.count issued 2) (r.limit.map (BoundText.bound (r.count issued 2)))
      (r.count issued 3) := by
  rw [count, count, ← countTo_next (n := 2) rfl]
  exact answers_readRowCount (section_eq fits before (by decide) (by decide) (by decide)) fits.limit

end RowsText
end QueryChain
