import QueryChain.Proofs.ReadBack.SelectText

namespace QueryChain
namespace SelectText

variable {reserved : ReservedWords} {d : SelectText}

theorem issued_next {n : Nat} {p : Keyword × Option Text} (here : d.sections[n]? = some p) :
    d.issued n + placeholders? p.2 = d.issued (n + 1) := countTo_next here

theorem yields_readFrom (fits : d.Fits reserved) (n : Nat) :
    Yields (readFrom reserved d.text) n (d.source.map (SourcesText.read n))
      (n + placeholders? (d.source.map SourcesText.text)) := by
  have found : fromSection? d.text = d.source.map SourcesText.text :=
    section_eq fits (by decide) (by decide) (by decide)
  rw [readFrom, found]
  cases source : d.source with
  | none => exact yields_pure _ n
  | some s => exact (SourcesText.yields_readSources (fits.source s source).fits true (.inl rfl) _ n).bind (yields_pure _ _)

theorem answers_conditions (fits : d.Fits reserved) (n : Nat) : Answers (readWhere d.text) n (chainConditions n d.conditions)
    (n + placeholders? (d.conditions.map Chain.text)) := by
  have found : whereSection? d.text = d.conditions.map Chain.text :=
    section_eq fits (by decide) (by decide) (by decide)
  refine answers_readWhere found ?_ fun c written a member => (fits.conditions c written a member).joinable
  intro c written
  have links : ∀ a ∈ c.operands, Link a := fun a member => (fits.conditions c written a member).link (by decide)
  exact (Link.chain links).neat.normal

theorem yields_readSelect (fits : d.Fits reserved) : Yields (readSelect reserved d.text) 0 d.clauses (d.issued 7) := by
  have noLocking : lockingKeywords.find? (hasKeyword · d.text) = none := by
    rw [List.find?_eq_none]
    intro k member
    have lacks : Lacks lockingKeywords d.text := lacks_others fits (by decide) (by decide)
    rw [lacks k member]
    decide
  have list : (selectSection? d.text).filter (·.2 ≠ []) = some (d.distinct, joinWith ", " d.fields) := by
    rw [selectSection?_eq fits]
    exact Option.filter_eq_some_iff.mpr ⟨rfl, by simpa using (neat_fields fits).ne_nil⟩
  have fields : splitTop ',' (numbered 0 (joinWith ", " d.fields)) = numberedAll 0 d.fields :=
    splitTop_numbered (fun t member => (fits.fields t member).item) 0
  have source := yields_readFrom fits (d.issued 0)
  have conditions := answers_conditions fits (d.issued 1)
  have groupBy := answers_readGroupBy (n := d.issued 2)
    (section_eq fits (by decide) (by decide) (by decide)) fun t member => (fits.groupBy t member).item
  have having := answers_readHaving (n := d.issued 3) (t := d.having)
    (section_eq fits (by decide) (by decide) (by decide)) fun t member => (fits.having t member).full
  have orderBy := answers_readOrderBy (n := d.issued 4)
    (section_eq fits (by decide) (by decide) (by decide)) fun e member => (fits.orderBy e member).item
  have limit := answers_readLimitSection (n := d.issued 5)
    (section_eq fits (by decide) (by decide) (by decide)) fits.limit
  have offset := answers_readOffsetSection (n := d.issued 6)
    (section_eq fits (by decide) (by decide) (by decide)) fits.offset
  -- each clause goes on counting where the one before it stopped
  rw [issued_next (n := 0) rfl] at source
  rw [issued_next (n := 1) rfl] at conditions
  rw [issued_next (n := 2) rfl] at groupBy
  rw [issued_next (n := 3) rfl] at having
  rw [issued_next (n := 4) rfl] at orderBy
  rw [issued_next (n := 5) rfl] at limit
  rw [issued_next (n := 6) rfl] at offset
  have bounds : Answers (readLimitAndOffset d.text) (d.issued 5)
      (d.limit.map (BoundText.bound (d.issued 5)), d.offset.map (BoundText.bound (d.issued 6))) (d.issued 7) := by
    refine limit.bind ?_
    dsimp only
    exact offset.bind (answers_pure _ _)
  rw [readSelect, noLocking]
  refine (yields_require list _ 0).bind ?_
  refine ((answers_nameParams _ 0).lift).bind ?_
  rw [Nat.zero_add, fields]
  refine source.bind ?_
  refine conditions.lift.bind ?_
  refine groupBy.lift.bind ?_
  refine having.lift.bind ?_
  refine orderBy.lift.bind ?_
  exact bounds.lift.bind (yields_pure d.clauses _)

/-- A written query is converted to just what it says, without an issue. -/
theorem select_read_back (reserved : ReservedWords) (d : SelectText) (fits : d.Fits reserved) :
    convert reserved d.text = .ok {
      kind := .select
      clauses := d.clauses
      calls := d.clauses.calls
      paramCount := placeholders d.text
      outcome := .success } := by
  have noUnion : Lacks [["UNION"]] d.text := lacks_others fits (by decide) (by decide)
  have read := yields_readSelect fits
  rw [← placeholders_text fits] at read
  exact convert_of_yields (neat fits) (classify_verb .select noUnion) read

def orderReport : SelectText where
  distinct := true
  fields := ["u.id", "COALESCE(o.note, ?)"]
  source := some {
    main := { name := "users", aliasName := some (true, "u") }
    joins := [{ form := .leftOuter, table := { name := "orders", aliasName := some (false, "o") },
                condition := some "o.user_id = u.id AND o.state = ?" }] }
  conditions := some ⟨"u.age BETWEEN ? AND 65", [(.or, "u.kind = 'a OR b'"), (.and, "(u.x = ? OR u.y)")]⟩
  groupBy := ["u.id", "o.note"]
  having := some "COUNT(*) > ?"
  orderBy := [("MAX(o.total)", .descending), ("u.id", .ascending)]
  limit := some .placeholder
  offset := some (.literal 20)

theorem select_read_back_report : convert default orderReport.text = .ok {
    kind := .select
    clauses := orderReport.clauses
    calls := orderReport.clauses.calls
    paramCount := placeholders orderReport.text
    outcome := .success } := by
  apply select_read_back
  have source : ∀ s ∈ orderReport.source, s.Written default selectKeywords := by decide +kernel
  have conditions : ∀ c ∈ orderReport.conditions, ∀ a ∈ c.operands, WhereAtom selectKeywords a := by decide +kernel
  exact {
    nonempty := by decide
    fields := by decide +kernel
    start := by decide
    source
    conditions
    groupBy := by decide +kernel
    having := by decide +kernel
    orderBy := by decide +kernel
    limit := by decide +kernel
    offset := by decide +kernel }

end SelectText
end QueryChain
