import QueryChain.Proofs.ReadBack.Printed

namespace QueryChain

def selectOrder : List Keyword :=
  [["FROM"], ["WHERE"], ["GROUP", "BY"], ["HAVING"], ["ORDER", "BY"], ["LIMIT"], ["OFFSET"]]

def selectKeywords : List Keyword := ["WINDOW"] :: ["UNION"] :: (selectOrder ++ lockingKeywords)

structure SelectText where
  distinct : Bool := false
  fields : List Text
  source : Option SourcesText := none
  conditions : Option (Chain Text) := none
  groupBy : List Text := []
  having : Option Text := none
  orderBy : List (Text × Direction) := []
  limit : Option BoundText := none
  offset : Option BoundText := none

namespace SelectText

def list (d : SelectText) : Text :=
  if d.distinct then "DISTINCT".toList ++ ' ' :: joinWith ", " d.fields else joinWith ", " d.fields

def sections (d : SelectText) : List (Keyword × Option Text) :=
  [(["FROM"], d.source.map SourcesText.text), (["WHERE"], d.conditions.map Chain.text),
    (["GROUP", "BY"], listText? d.groupBy), (["HAVING"], d.having),
    (["ORDER", "BY"], listText? (d.orderBy.map orderText)), (["LIMIT"], d.limit.map BoundText.text),
    (["OFFSET"], d.offset.map BoundText.text)]

def text (d : SelectText) : Text := "SELECT".toList ++ ' ' :: (d.list ++ sectionsText (present d.sections))

-- Unlike an equation of the definition, this one takes no decoding of the verb.
theorem text_written (d : SelectText) :
    d.text = "SELECT".toList ++ ' ' :: (d.list ++ sectionsText (present d.sections)) := rfl

def issued (d : SelectText) (n : Nat) : Nat := countTo (placeholders (joinWith ", " d.fields)) d.sections n

def sources (d : SelectText) : Option Sources := d.source.map (SourcesText.read (d.issued 0))

def clauses (d : SelectText) : Clauses where
  kind := .select
  distinct := d.distinct
  fields := numberedAll 0 d.fields
  table := d.sources.map Sources.table
  extraTables := (d.sources.map Sources.extraTables).getD []
  joins := (d.sources.map Sources.joins).getD []
  conditions := chainConditions (d.issued 1) d.conditions
  groupBy := numberedAll (d.issued 2) d.groupBy
  having := d.having.map (numbered (d.issued 3))
  orderBy := orderItems (d.issued 4) d.orderBy
  limit := d.limit.map (BoundText.bound (d.issued 5))
  offset := d.offset.map (BoundText.bound (d.issued 6))

/-- The parts of a query that is read back. -/
structure Fits (reserved : ReservedWords) (d : SelectText) : Prop where
  nonempty : d.fields ≠ []
  fields : ∀ t ∈ d.fields, Atom selectKeywords t
  start : ∀ t ∈ d.fields.head?, firstWord t ≠ "DISTINCT".toList ∧ firstWord t ≠ "ALL".toList
  source : ∀ s ∈ d.source, s.Written reserved selectKeywords
  conditions : ∀ c ∈ d.conditions, ∀ a ∈ c.operands, WhereAtom selectKeywords a
  groupBy : ∀ t ∈ d.groupBy, Atom selectKeywords t
  having : ∀ t ∈ d.having, Atom selectKeywords t
  orderBy : ∀ e ∈ d.orderBy, Atom selectKeywords e.1
  limit : ∀ b ∈ d.limit, b.Fits (d.issued 5)
  offset : ∀ b ∈ d.offset, b.Fits (d.issued 6)

theorem watched : Watched selectOrder selectKeywords :=
  ⟨by decide, by decide, by decide, by decide, by decide +kernel, by decide +kernel⟩

theorem unjoined : Unjoined selectKeywords :=
  ⟨⟨by decide +kernel, by decide +kernel⟩, by decide +kernel, by decide⟩

theorem avoids_connectives : Avoids connectiveWords selectKeywords := ⟨by decide, by decide⟩

theorem avoids_directions : Avoids directionWords selectKeywords := ⟨by decide, by decide⟩

section Parts

variable {reserved : ReservedWords} {d : SelectText}

theorem neat_fields (fits : d.Fits reserved) : Neat (joinWith ", " d.fields) :=
  neat_list (fun t member => (fits.fields t member).neat) fits.nonempty

theorem lacks_fields (fits : d.Fits reserved) : Lacks selectKeywords (joinWith ", " d.fields) :=
  lacks_list unjoined.keywords (fun t member => (fits.fields t member).neat)
    (fun t member => (fits.fields t member).lacks) fits.nonempty

theorem neat_distinct : Neat "DISTINCT" := .of_plain (by decide) (by decide)

theorem body_select (fits : d.Fits reserved) : Body selectKeywords d.list := by
  have fields : Body selectKeywords (joinWith ", " d.fields) := ⟨neat_fields fits, lacks_fields fits⟩
  rw [list]
  split
  · exact fields.behind neat_distinct unjoined.keywords (by decide) (by decide)
  · exact fields

theorem neat_select : Neat "SELECT" := .of_plain (by decide) (by decide)

theorem front (fits : d.Fits reserved) : Body selectKeywords ("SELECT".toList ++ ' ' :: d.list) :=
  (body_select fits).behind neat_select unjoined.keywords (by decide) (by decide)

theorem legible (fits : d.Fits reserved) : Legible selectOrder selectKeywords (present d.sections) := by
  have sub : conditionEnds ⊆ selectKeywords := by decide
  refine legible_present (by simp [sections, selectOrder]) ?_
  simp only [sections, List.forall_mem_cons, List.not_mem_nil, false_imp_iff, implies_true, and_true]
  exact ⟨body_sources unjoined fits.source, body_chain avoids_connectives sub fits.conditions,
    body_list unjoined.keywords fun t member => (fits.groupBy t member).body, fun t member => (fits.having t member).body,
    body_orders avoids_directions fits.orderBy, body_bound unjoined.keywords _, body_bound unjoined.keywords _⟩

theorem text_eq (d : SelectText) : d.text = ("SELECT".toList ++ ' ' :: d.list) ++ sectionsText (present d.sections) := by
  rw [text_written]
  generalize "SELECT".toList = verb
  simp

theorem section_eq (fits : d.Fits reserved) {k : Keyword} {ends : List Keyword} (member : k ∈ selectKeywords)
    (sub : ends ⊆ selectKeywords) (follow : selectOrder.Pairwise fun k₁ k₂ => k₁ = k → k₂ ∈ ends) : section? k ends
      d.text = (d.sections.lookup k).join := by
  rw [text_eq]
  exact section?_present watched (legible fits) rfl (by decide) (front fits) member sub follow

theorem neat (fits : d.Fits reserved) : Neat d.text := by
  rw [text_eq]
  exact neat_sections watched (legible fits) (front fits).neat

theorem lacks_others (fits : d.Fits reserved) {ks : List Keyword} (sub : ks ⊆ selectKeywords)
    (other : ∀ k ∈ selectOrder, k ∉ ks) : Lacks ks d.text := by
  rw [text_eq]
  exact lacks_present watched (legible fits) (front fits) sub other

theorem placeholders_list (d : SelectText) : placeholders d.list = placeholders (joinWith ", " d.fields) := by
  rw [list]
  split
  · rw [neat_distinct.solid.placeholders_glue, placeholders_of_free (by decide), Nat.zero_add]
  · rfl

theorem placeholders_text (fits : d.Fits reserved) : placeholders d.text = d.issued 7 := by
  rw [text_eq, placeholders_present watched (legible fits) (front fits).neat, neat_select.solid.placeholders_glue,
    placeholders_of_free (by decide), placeholders_list d, Nat.zero_add]
  rfl

theorem start_fields (fits : d.Fits reserved) : firstWord (joinWith ", " d.fields) ≠ "DISTINCT".toList ∧
    firstWord (joinWith ", " d.fields) ≠ "ALL".toList := by
  obtain ⟨t, ts, fields⟩ := List.exists_cons_of_ne_nil fits.nonempty
  rw [fields, firstWord_list]
  exact fits.start t (by rw [fields]; rfl)

/-- The select list, with what stands in front of it. -/
theorem selectSection?_eq (fits : d.Fits reserved) : selectSection? d.text = some (d.distinct, joinWith ", " d.fields) := by
  have body := body_select fits
  have sub : listEnds ⊆ selectKeywords := by decide
  have inEnds : ∀ k ∈ selectOrder, k ∈ listEnds := by decide
  have found : section? ["SELECT"] listEnds d.text = some d.list := by
    rw [text_written, show "SELECT".toList = Keyword.text ["SELECT"] by decide]
    exact section?_body watched (legible fits) sub (by decide) body.neat (body.lacks.mono sub) fun p member =>
      inEnds _ (legible fits p (List.mem_of_mem_head? member)).1
  have trimmed := (neat_fields fits).trim
  rw [selectSection?, found, Option.map_some, list]
  cases d.distinct with
  | true =>
    have after := afterKeyword?_text (k := ["DISTINCT"]) (u := joinWith ", " d.fields) (by decide)
    have text : Keyword.text ["DISTINCT"] = "DISTINCT".toList := by decide
    rw [text] at after
    simp only [if_true, after, trim_space trimmed]
  | false =>
    have start := start_fields fits
    simp only [Bool.false_eq_true, if_false, afterKeyword?_eq_none (k := ["DISTINCT"]) (by decide) start.1,
      afterKeyword?_eq_none (k := ["ALL"]) (by decide) start.2]

end Parts
end SelectText
end QueryChain
