import QueryChain.Proofs.ReadBack.Answers
import QueryChain.Proofs.ReadBack.SourceText

namespace QueryChain

theorem JoinCondition.named {c : Text} (condition : JoinCondition c) (issued : Nat) :
    JoinCondition (numbered issued c) where
  item := condition.item.named issued
  lacks := by
    have words : ∀ k ∈ ([["JOIN"], ["STRAIGHT_JOIN"], ["USING"]] : List Keyword), ∃ w, k = [w] ∧ IsKeyword [w] := by
      simpa using ⟨by decide, by decide, by decide⟩
    intro k member
    obtain ⟨w, rfl, isKeyword⟩ := words k member
    exact hasKeyword_numbered isKeyword (condition.lacks _ member)
  ends := by rw [lastQualifier?_named, condition.ends]; rfl

theorem JoinClause.readable_namedAll {reserved : ReservedWords} {js : List JoinClause}
    (readable : ∀ j ∈ js, j.Readable reserved) (issued : Nat) : ∀ j ∈ namedAll issued js, j.Readable reserved := by
  induction js generalizing issued with
  | nil => simp [namedAll]
  | cons j js ih =>
    have here := readable j (by simp)
    rw [namedAll, List.forall_mem_cons]
    refine ⟨⟨here.table, ?_⟩, ih (fun k member => readable k (List.mem_cons_of_mem _ member)) _⟩
    intro c member
    obtain ⟨d, condition, rfl⟩ := Option.map_eq_some_iff.mp member
    exact (here.condition d condition).named issued

structure SourcesText where
  main : TableText
  more : List TableText := []
  joins : List JoinClause := []
  deriving DecidableEq, Repr

namespace SourcesText

def tables (s : SourcesText) : List Text := (s.main :: s.more).map TableText.text

def text (s : SourcesText) : Text := joinWith ", " s.tables ++ JoinClause.restText s.joins

def read (issued : Nat) (s : SourcesText) : Sources where
  table := s.main.ref
  extraTables := s.more.map TableText.ref
  joins := (JoinClause.namedAll issued s.joins).map JoinClause.join

structure Fits (reserved : ReservedWords) (ks : List Keyword) (s : SourcesText) : Prop where
  named : ∀ t ∈ s.main :: s.more, t.Named reserved
  joins : ∀ j ∈ s.joins, j.Fits reserved ks
  single : s.more = [] ∨ s.joins = []

section Tables

variable {reserved : ReservedWords} {ts : List TableText} {ks : List Keyword}

theorem lastBlankWord_tables (named : ∀ t ∈ ts, t.Named reserved) (full : ts ≠ []) :
    upper (lastBlankWord (joinWith ", " (ts.map TableText.text))) ∉ joinQualifiers := by
  induction ts with
  | nil => exact absurd rfl full
  | cons t ts ih =>
    cases ts with
    | nil =>
      rw [List.map_singleton, joinWith_one]
      exact JoinClause.lastBlankWord_table (named t (by simp))
    | cons u ts =>
      rw [List.map_cons, List.map_cons, joinWith_cons, lastBlankWord_glue, ← List.map_cons]
      exact ih (fun v member => named v (List.mem_cons_of_mem _ member)) (by simp)

theorem items_tables (named : ∀ t ∈ ts, t.Named reserved) : ∀ t ∈ ts.map TableText.text, Item t := by
  intro t member
  obtain ⟨table, inList, rfl⟩ := List.mem_map.mp member
  exact TableText.item (named table inList)

theorem neat_tables (named : ∀ t ∈ ts, t.Named reserved) : ∀ t ∈ ts.map TableText.text, Neat t := by
  intro t member
  obtain ⟨table, inList, rfl⟩ := List.mem_map.mp member
  exact TableText.neat (named table inList)

theorem placeholders_tables (named : ∀ t ∈ ts, t.Named reserved) :
    placeholders (joinWith ", " (ts.map TableText.text)) = 0 := by
  have none : ts.map (placeholders ∘ TableText.text) = ts.map fun _ => 0 :=
    List.map_congr_left fun t member => TableText.placeholders_eq (named t member)
  rw [placeholders_list fun t member => (items_tables named t member).solid, List.map_map, none]
  simp

theorem yields_readTables (named : ∀ t ∈ ts, t.Named reserved) (clause : Text) (n : Nat) :
    Yields (readTables reserved clause (ts.map TableText.text)) n (ts.map TableText.ref) n := by
  induction ts with
  | nil => exact yields_pure _ n
  | cons t ts ih =>
    have here := named t (by simp)
    have noGroup : ¬(t.text.head? == some '(') = true := by
      rw [beq_iff_eq]
      exact TableText.head_ne here (by decide) (by decide)
    have one : Yields (readTable reserved clause t.text) n t.ref n := by
      rw [readTable]
      refine Yields.unless noGroup ?_
      refine (yields_require (TableText.ofText?_eq here) _ n).bind ?_
      exact ((answers_noteAll_nil n).lift).bind (yields_pure _ n)
    rw [List.map_cons, List.map_cons, readTables]
    exact one.bind ((ih fun u member => named u (List.mem_cons_of_mem _ member)).bind (yields_pure _ n))

end Tables

variable {reserved : ReservedWords} {ks : List Keyword} {s : SourcesText}

theorem neat_front (fits : s.Fits reserved ks) : Neat (joinWith ", " s.tables) :=
  neat_list (neat_tables fits.named) (by simp [tables])

theorem lacks_front (fits : s.Fits reserved ks) {ks' : List Keyword} (allReserved : AllReserved ks')
    (noAs : ∀ k ∈ ks', k.headD [] ≠ "AS".toList) : Lacks ks' (joinWith ", " s.tables) := by
  refine lacks_list (fun k member => (allReserved k member).1) (neat_tables fits.named) ?_ (by simp [tables])
  intro t member
  obtain ⟨table, inList, rfl⟩ := List.mem_map.mp member
  exact TableText.lacks (fits.named table inList) allReserved noAs

theorem ends_front (fits : s.Fits reserved ks) : lastQualifier? (joinWith ", " s.tables) = none := by
  rw [lastQualifier?_eq_none_iff (trimEnd_eq (neat_front fits).trim)]
  exact lastBlankWord_tables fits.named (by simp)

theorem placeholders_front (fits : s.Fits reserved ks) : placeholders (joinWith ", " s.tables) = 0 :=
  placeholders_tables fits.named

theorem readable (fits : s.Fits reserved ks) : ∀ j ∈ s.joins, j.Readable reserved :=
  fun j member => (fits.joins j member).toReadable

theorem neat (fits : s.Fits reserved ks) : Neat s.text := JoinClause.neat_restText fits.joins (neat_front fits)

theorem lacks (fits : s.Fits reserved ks) (unjoined : Unjoined ks) : Lacks ks s.text :=
  JoinClause.lacks_restText fits.joins unjoined (neat_front fits) (lacks_front fits unjoined.reserved unjoined.noAs)

theorem numbered_text (fits : s.Fits reserved ks) (issued : Nat) : numbered issued s.text =
    joinWith ", " s.tables ++ JoinClause.restText (JoinClause.namedAll issued s.joins) := by
  rw [text, JoinClause.numbered_restText (readable fits) (neat_front fits).solid,
    numbered_of_none (placeholders_front fits), placeholders_front fits, Nat.add_zero]

theorem mainTables_text (fits : s.Fits reserved ks) : mainTables s.text = joinWith ", " s.tables :=
  JoinClause.mainTables_eq (readable fits) (neat_front fits).solid (lacks_front fits (by decide) (by decide))
    (ends_front fits) (neat_front fits).trim

theorem mainTables_numbered (fits : s.Fits reserved ks) (issued : Nat) :
    mainTables (numbered issued s.text) = joinWith ", " s.tables := by
  rw [numbered_text fits]
  exact JoinClause.mainTables_eq (JoinClause.readable_namedAll (readable fits) _) (neat_front fits).solid
    (lacks_front fits (by decide) (by decide)) (ends_front fits) (neat_front fits).trim

theorem resolveJoins_numbered (fits : s.Fits reserved ks) (issued : Nat) :
    resolveJoins reserved (numbered issued s.text) = .ok ((JoinClause.namedAll issued s.joins).map JoinClause.join, []) := by
  rw [numbered_text fits]
  exact JoinClause.resolveJoins_eq (JoinClause.readable_namedAll (readable fits) _) (neat_front fits).solid
    (lacks_front fits (by decide) (by decide)) (ends_front fits)

/-- Written tables and joins are read as what they stand for, with nothing to note. -/
theorem yields_readSources (fits : s.Fits reserved ks) (many : Bool) (several : many ∨ s.more = []) (clause : Text)
    (n : Nat) : Yields (readSources reserved clause many s.text) n (s.read n) (n + placeholders s.text) := by
  have fragments : splitTop ',' (mainTables (numbered n s.text)) = s.tables := by
    rw [mainTables_numbered fits, tables, splitTop_list (items_tables fits.named)]
  have length : s.tables.length = s.more.length + 1 := by simp [tables]
  rw [readSources]
  refine ((answers_nameParams _ n).lift).bind ?_
  dsimp only
  rw [fragments]
  refine Yields.unless ?_ ?_
  · rw [length]
    rcases several with rfl | empty
    · simp
    · simp [empty]
  refine (yields_readTables fits.named clause _).bind ?_
  rw [List.map_cons, resolveJoins_numbered fits]
  refine Yields.unless ?_ (((answers_noteAll_nil _).lift).bind (yields_pure _ _))
  rw [length]
  rcases fits.single with empty | empty
  · simp [empty]
  · simp [empty, JoinClause.namedAll]

end SourcesText
end QueryChain
