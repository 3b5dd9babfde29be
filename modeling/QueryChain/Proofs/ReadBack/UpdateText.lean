import QueryChain.Proofs.ReadBack.RowsText
import QueryChain.Proofs.ReadBack.SetText

namespace QueryChain

def modifierWords : List Text := ["LOW_PRIORITY", "QUICK", "DELAYED", "HIGH_PRIORITY"]

structure TargetText where
  table : TableText
  joins : List JoinClause := []

namespace TargetText

def sources (t : TargetText) : SourcesText := { main := t.table, joins := t.joins }

structure Written (reserved : ReservedWords) (ks : List Keyword) (t : TargetText) : Prop where
  named : t.table.Named reserved
  joins : ∀ j ∈ t.joins, j.Written reserved ks

variable {reserved : ReservedWords} {ks : List Keyword} {t : TargetText}

instance (t : TargetText) : Decidable (t.Written reserved ks) :=
  decidable_of_iff (t.table.Named reserved ∧ ∀ j ∈ t.joins, j.Written reserved ks)
    ⟨fun ⟨named, joins⟩ => ⟨named, joins⟩, fun written => ⟨written.named, written.joins⟩⟩

theorem fits (written : t.Written reserved ks) : t.sources.Fits reserved ks :=
  SourcesText.Written.fits ⟨by simpa [sources] using written.named, written.joins, .inl rfl⟩

theorem body (written : t.Written reserved ks) (unjoined : Unjoined ks) : Body ks t.sources.text :=
  ⟨SourcesText.neat (fits written), SourcesText.lacks (fits written) unjoined⟩

theorem firstWord_table {table : TableText} (named : table.Named reserved) : firstWord table.text = upper table.name := by
  have name := named.name.firstWord_eq
  obtain ⟨t, aliasName⟩ := table
  match aliasName with
  | none => exact name
  | some (false, a) => rw [TableText.text, firstWord_glue, name]
  | some (true, a) => rw [TableText.text, firstWord_glue, name]

theorem firstWord_eq (written : t.Written reserved ks) : firstWord t.sources.text = upper t.table.name := by
  have first := firstWord_table written.named
  rw [SourcesText.text, sources, SourcesText.tables, List.map_singleton, joinWith_one]
  cases t.joins with
  | nil => rwa [JoinClause.restText, List.append_nil]
  | cons j js => rw [JoinClause.restText, firstWord_glue, first]

end TargetText

structure UpdateText where
  target : TargetText
  assignments : List AssignmentText
  rows : RowsText := {}

namespace UpdateText

def list (d : UpdateText) : Text := AssignmentText.listText d.assignments

def text (d : UpdateText) : Text :=
  "UPDATE".toList ++ ' ' :: (d.target.sources.text ++ ' ' :: ("SET".toList ++ ' ' :: (d.list ++ d.rows.text)))

-- Unlike an equation of the definition, this one takes no decoding of the words.
theorem text_written (d : UpdateText) : d.text =
    "UPDATE".toList ++ ' ' :: (d.target.sources.text ++ ' ' :: ("SET".toList ++ ' ' :: (d.list ++ d.rows.text))) := rfl

def issued (d : UpdateText) : Nat := placeholders d.target.sources.text + placeholders d.list

def clauses (d : UpdateText) : Clauses where
  kind := .update
  table := some d.target.table.ref
  joins := (JoinClause.namedAll 0 d.target.joins).map JoinClause.join
  assignments := AssignmentText.read (placeholders d.target.sources.text) d.assignments
  conditions := chainConditions d.issued d.rows.conditions
  orderBy := orderItems (d.rows.count d.issued 1) d.rows.orderBy
  limit := d.rows.limit.map (BoundText.bound (d.rows.count d.issued 2))

structure Fits (reserved : ReservedWords) (d : UpdateText) : Prop where
  target : d.target.Written reserved (["SET"] :: rowKeywords)
  start : upper d.target.table.name ∉ modifierWords
  nonempty : d.assignments ≠ []
  assignments : ∀ a ∈ d.assignments, a.Fits reserved rowKeywords d.target.table.ref
  rows : d.rows.Fits d.issued

variable {reserved : ReservedWords} {d : UpdateText}

theorem unjoined : Unjoined (["SET"] :: rowKeywords) :=
  ⟨⟨by decide +kernel, by decide +kernel⟩, by decide +kernel, by decide⟩

theorem neat_update : Neat "UPDATE" := .of_plain (by decide) (by decide)

theorem neat_set : Neat "SET" := .of_plain (by decide) (by decide)

theorem body_list (fits : d.Fits reserved) : Body rowKeywords d.list :=
  AssignmentText.body_listText fits.assignments (by decide) fits.nonempty

theorem body_set (fits : d.Fits reserved) : Body rowKeywords ("SET".toList ++ ' ' :: d.list) :=
  (body_list fits).behind neat_set RowsText.unjoined.keywords (by decide) (by decide)

theorem body_target (fits : d.Fits reserved) :
    Body (["SET"] :: rowKeywords) ("UPDATE".toList ++ ' ' :: d.target.sources.text) :=
  (d.target.body fits.target unjoined).behind neat_update unjoined.keywords (by decide) (by decide)

theorem front (fits : d.Fits reserved) : Body rowKeywords
    (("UPDATE".toList ++ ' ' :: d.target.sources.text) ++ ' ' :: ("SET".toList ++ ' ' :: d.list)) := by
  refine ((body_target fits).mono (List.subset_cons_self _ _)).glue (body_set fits) RowsText.unjoined.keywords ?_
  rw [firstWord_glue]
  decide

theorem text_eq (d : UpdateText) : d.text =
    (("UPDATE".toList ++ ' ' :: d.target.sources.text) ++ ' ' :: ("SET".toList ++ ' ' :: d.list)) ++ d.rows.text := by
  rw [text_written]
  generalize "UPDATE".toList = verb
  generalize "SET".toList = word
  simp

theorem updateTarget?_eq (fits : d.Fits reserved) : updateTarget? d.text = some d.target.sources.text := by
  have target := d.target.body fits.target unjoined
  have rest := RowsText.neat fits.rows (body_set fits).neat
  have rest' : Neat ("SET".toList ++ ' ' :: (d.list ++ d.rows.text)) := by simpa using rest
  have isSet : ∀ k ∈ ([["SET"]] : List Keyword), IsKeyword k := by decide
  have starts := (target.neat.glue rest' fun k member => .inr (by rw [firstWord_glue]; revert k; decide)).head
  have other : ∀ k ∈ ([["LOW_PRIORITY"], ["IGNORE"]] : List Keyword),
      firstWord (d.target.sources.text ++ ' ' :: ("SET".toList ++ ' ' :: (d.list ++ d.rows.text))) ≠ k.headD [] := by
    rw [firstWord_glue, d.target.firstWord_eq fits.target]
    have named := fits.target.named.name.notStandard
    have start := fits.start
    simp only [List.forall_mem_cons, List.not_mem_nil, false_imp_iff, implies_true, and_true, List.headD_cons]
    exact ⟨fun same => start (same ▸ by decide), fun same => named (same ▸ by decide)⟩
  rw [updateTarget?, text_written, Cursor.find?_word (by decide), Option.map_some]
  dsimp only
  rw [skipAny_eq (by decide) starts other, Cursor.upTo_space isSet,
    upTo_glue isSet target.neat rest' (target.lacks.mono (by decide)) fun k member => .inr (by
      rw [firstWord_glue]
      revert k
      decide), Cursor.upTo_word (by decide)]
  exact congrArg some (trim_pad (f := [' ']) (by decide) (by decide) target.neat.trim)

theorem setSection?_eq (fits : d.Fits reserved) : setSection? d.text = some d.list := by
  have before := body_target fits
  have rest := RowsText.neat fits.rows (body_set fits).neat
  have shape : d.text = ("UPDATE".toList ++ ' ' :: d.target.sources.text) ++
      ' ' :: (Keyword.text ["SET"] ++ ' ' :: (d.list ++ d.rows.text)) := by
    rw [Keyword.text_word, text_written]
    generalize "UPDATE".toList = verb
    generalize "SET".toList = word
    simp
  have rest' : Neat (Keyword.text ["SET"] ++ ' ' :: (d.list ++ d.rows.text)) := by
    rw [Keyword.text_word]
    simpa using rest
  rw [shape]
  refine RowsText.section_front fits.rows (by decide) (by decide) (by decide) (body_list fits) before.neat
    (before.lacks.mono (by decide)) rest' fun k member => .inr ?_
  rw [firstWord_glue]
  revert k
  decide

theorem yields_readUpdate (fits : d.Fits reserved) :
    Yields (readUpdate reserved d.text) 0 d.clauses (d.rows.count d.issued 3) := by
  have target : (updateTarget? d.text).filter (· ≠ []) = some d.target.sources.text := by
    rw [updateTarget?_eq fits]
    exact Option.filter_eq_some_iff.mpr ⟨rfl, by simpa using (d.target.body fits.target unjoined).neat.ne_nil⟩
  have sources := SourcesText.yields_readSources (TargetText.fits fits.target) false (.inr rfl)
    "UPDATE target" 0
  rw [Nat.zero_add] at sources
  have assignments := AssignmentText.answers_readAssignments fits.assignments (placeholders d.target.sources.text)
  have full : AssignmentText.read (placeholders d.target.sources.text) d.assignments ≠ [] := by
    obtain ⟨a, as, list⟩ := List.exists_cons_of_ne_nil fits.nonempty
    rw [list, AssignmentText.read]
    exact List.cons_ne_nil _ _
  have before := front fits
  have conditions := RowsText.answers_conditions fits.rows before
  have orderBy := RowsText.answers_order fits.rows before
  have limit := RowsText.answers_limit fits.rows before
  rw [← text_eq] at conditions orderBy limit
  rw [readUpdate]
  refine (yields_require target _ 0).bind ?_
  refine sources.bind ?_
  refine (yields_require (setSection?_eq fits) _ _).bind ?_
  refine assignments.lift.bind ?_
  refine Yields.unless full ?_
  refine conditions.lift.bind ?_
  refine orderBy.lift.bind ?_
  exact limit.lift.bind (yields_pure d.clauses _)

theorem placeholders_text (fits : d.Fits reserved) : placeholders d.text = d.rows.count d.issued 3 := by
  have before := body_target fits
  rw [text_eq]
  refine RowsText.placeholders_text fits.rows (front fits).neat ?_
  have verb : placeholders "UPDATE" = 0 := by decide
  have word : placeholders "SET" = 0 := by decide
  rw [before.neat.solid.placeholders_glue, neat_update.solid.placeholders_glue, neat_set.solid.placeholders_glue,
    verb, word, Nat.zero_add, Nat.zero_add]
  rfl

theorem neat (fits : d.Fits reserved) : Neat d.text := by
  rw [text_eq]
  exact RowsText.neat fits.rows (front fits).neat

theorem classify_text (fits : d.Fits reserved) : classify d.text = .ok .update := by
  have noUnion : Lacks [["UNION"]] _ := RowsText.lacks fits.rows (front fits) (by decide) (by decide)
  rw [← text_eq] at noUnion
  exact classify_verb .update noUnion

end UpdateText
end QueryChain
