import QueryChain.Proofs.ReadBack.UpdateText

namespace QueryChain

structure DeleteText where
  row : Option Text := none
  source : TargetText
  rows : RowsText := {}

namespace DeleteText

def head (d : DeleteText) : Text :=
  match d.row with
  | none => "DELETE"
  | some r => "DELETE".toList ++ ' ' :: r

def text (d : DeleteText) : Text := d.head ++ ' ' :: ("FROM".toList ++ ' ' :: (d.source.sources.text ++ d.rows.text))

def issued (d : DeleteText) : Nat := placeholders d.source.sources.text

def clauses (d : DeleteText) : Clauses where
  kind := .delete
  table := some d.source.table.ref
  joins := (JoinClause.namedAll 0 d.source.joins).map JoinClause.join
  conditions := chainConditions d.issued d.rows.conditions
  orderBy := orderItems (d.rows.count d.issued 1) d.rows.orderBy
  limit := d.rows.limit.map (BoundText.bound (d.rows.count d.issued 2))

structure Fits (reserved : ReservedWords) (d : DeleteText) : Prop where
  row : ∀ r ∈ d.row, Identifier reserved r ∧ upper r ∉ modifierWords ∧ d.source.table.ref.isReferredBy r
  source : d.source.Written reserved rowKeywords
  rows : d.rows.Fits d.issued

variable {reserved : ReservedWords} {d : DeleteText}

theorem neat_delete : Neat "DELETE" := .of_plain (by decide) (by decide)

theorem neat_from : Neat "FROM" := .of_plain (by decide) (by decide)

def headKeywords : List Keyword := ["FROM"] :: rowKeywords

theorem unjoined : Unjoined headKeywords :=
  ⟨⟨by decide +kernel, by decide +kernel⟩, by decide +kernel, by decide⟩

theorem body_source (fits : d.Fits reserved) : Body rowKeywords d.source.sources.text :=
  d.source.body fits.source RowsText.unjoined

theorem body_from (fits : d.Fits reserved) : Body rowKeywords ("FROM".toList ++ ' ' :: d.source.sources.text) :=
  (body_source fits).behind neat_from RowsText.unjoined.keywords (by decide) (by decide)

theorem body_head (fits : d.Fits reserved) : Body headKeywords d.head := by
  rw [head]
  split
  · exact ⟨neat_delete, by decide⟩
  · rename_i r row
    have name := (fits.row r row).1
    have body : Body headKeywords r := ⟨name.neat, name.lacks unjoined.reserved⟩
    exact body.behind neat_delete unjoined.keywords (by decide) (by decide)

theorem text_eq (d : DeleteText) :
    d.text = (d.head ++ ' ' :: ("FROM".toList ++ ' ' :: d.source.sources.text)) ++ d.rows.text := by
  simp [text]

theorem front (fits : d.Fits reserved) :
    Body rowKeywords (d.head ++ ' ' :: ("FROM".toList ++ ' ' :: d.source.sources.text)) := by
  refine ((body_head fits).mono (List.subset_cons_self _ _)).glue (body_from fits) RowsText.unjoined.keywords ?_
  rw [firstWord_glue]
  decide

theorem neat_rest (fits : d.Fits reserved) :
    Neat ("FROM".toList ++ ' ' :: (d.source.sources.text ++ d.rows.text)) := by
  have rest := RowsText.neat fits.rows (body_from fits).neat
  simpa using rest

theorem fromSection?_eq (fits : d.Fits reserved) : fromSection? d.text = some d.source.sources.text := by
  have before := body_head fits
  have rest := neat_rest fits
  have shape : d.text = d.head ++ ' ' :: (Keyword.text ["FROM"] ++ ' ' :: (d.source.sources.text ++ d.rows.text)) := by
    rw [Keyword.text_word, text]
  rw [shape]
  refine RowsText.section_front fits.rows (by decide) (by decide) (by decide) (body_source fits) before.neat
    (before.lacks.mono (by decide)) (by rwa [Keyword.text_word]) fun k member => .inr ?_
  rw [firstWord_glue]
  revert k
  decide

/-- The targets in front of `FROM`, none or one. -/
theorem deleteParts?_eq (fits : d.Fits reserved) :
    deleteParts? d.text = some ⟨d.row.toList, some d.source.sources.text⟩ := by
  have rest := neat_rest fits
  have isFrom : ∀ k ∈ ([["FROM"]] : List Keyword), IsKeyword k := by decide
  have modifiers : ∀ k ∈ ([["LOW_PRIORITY"], ["QUICK"], ["IGNORE"]] : List Keyword), IsKeyword k := by decide
  have source := fromSection?_eq fits
  rw [deleteParts?, source, text, head]
  cases row : d.row with
  | none =>
    have other : ∀ k ∈ ([["LOW_PRIORITY"], ["QUICK"], ["IGNORE"]] : List Keyword),
        firstWord ("FROM".toList ++ ' ' :: (d.source.sources.text ++ d.rows.text)) ≠ k.headD [] := by
      rw [firstWord_glue]
      decide
    have none : splitTop ',' [' '] = [] := by decide
    dsimp only
    rw [Cursor.find?_word (by decide), Option.map_some]
    dsimp only
    rw [skipAny_eq modifiers rest.head other, Cursor.find?_space isFrom, Cursor.find?_word (by decide)]
    dsimp only [Option.map_some]
    rw [none]
    rfl
  | some r =>
    obtain ⟨name, start, -⟩ := fits.row r row
    have other : ∀ k ∈ ([["LOW_PRIORITY"], ["QUICK"], ["IGNORE"]] : List Keyword),
        firstWord (r ++ ' ' :: ("FROM".toList ++ ' ' :: (d.source.sources.text ++ d.rows.text))) ≠ k.headD [] := by
      have notStandard := name.notStandard
      rw [firstWord_glue, name.firstWord_eq]
      simp only [List.forall_mem_cons, List.not_mem_nil, false_imp_iff, implies_true, and_true, List.headD_cons]
      exact ⟨fun same => start (same ▸ by decide), fun same => start (same ▸ by decide),
        fun same => notStandard (same ▸ by decide)⟩
    have apart : Uncrossed [["FROM"]] r ("FROM".toList ++ ' ' :: (d.source.sources.text ++ d.rows.text)) := by
      intro k member
      rw [firstWord_glue]
      right
      revert k
      decide
    have starts : ∀ c ∈ (r ++ ' ' :: ("FROM".toList ++ ' ' :: (d.source.sources.text ++ d.rows.text))).head?,
        isBlank c = false := by
      rw [List.head?_append_of_ne_nil _ name.full]
      exact name.neat.head
    have piece : splitTop ',' (' ' :: (r ++ [' '])) = [r] := by
      have absent : ',' ∉ r ++ [' '] := by
        have other := name.not_mem (d := ',') (by decide)
        simpa using other
      have padded : trim (r ++ [' ']) = r := trim_pad (f := []) (by simp) (by decide) name.neat.trim
      rw [splitTop_eq, topPieces_space (by decide), topPieces_of_whole (hasTop_of_not_mem absent), padded]
      simp [dropEndWhile, name.full]
    dsimp only
    rw [List.append_assoc, List.cons_append, Cursor.find?_word (by decide), Option.map_some]
    dsimp only
    rw [skipAny_eq modifiers starts other, Cursor.find?_space isFrom,
      find?_glue isFrom name.neat rest (name.lacks (by decide)) apart, Cursor.find?_word (by decide)]
    dsimp only [Option.map_some]
    rw [piece]
    rfl

theorem targetName_eq {r : Text} (name : Identifier reserved r) : targetName r = r := by
  have noStar : ∀ t : Text, '*' ∉ t → dropRowMarks t = t.reverse := by
    intro t absent
    rw [dropRowMarks.eq_def]
    split
    · simp at absent
    · rfl
  rw [targetName, noStar _ (by simpa using name.not_mem (d := '*') (by decide)), List.reverse_reverse, name.plainName_eq]

theorem yields_readDelete (fits : d.Fits reserved) :
    Yields (readDelete reserved d.text) 0 d.clauses (d.rows.count d.issued 3) := by
  have fitting := TargetText.fits fits.source
  have sources := SourcesText.yields_readSources fitting false (.inr rfl) "DELETE statement" 0
  rw [Nat.zero_add] at sources
  have full : (some d.source.sources.text).filter (· ≠ []) = some d.source.sources.text :=
    Option.filter_eq_some_iff.mpr ⟨rfl, by simpa using (body_source fits).neat.ne_nil⟩
  have short : ¬d.row.toList.length > 1 := by
    cases d.row <;> simp
  have noUsing : ¬hasKeyword ["USING"] (mainTables d.source.sources.text) = true := by
    have lacks : Lacks [["USING"]] _ := SourcesText.lacks_front fitting (by decide) (by decide)
    rw [SourcesText.mainTables_text fitting, lacks _ (by simp)]
    decide
  have own : (d.row.toList.head?.map targetName).filter (!d.source.table.ref.isReferredBy ·) = none := by
    cases row : d.row with
    | none => rfl
    | some r =>
      obtain ⟨name, -, refers⟩ := fits.row r row
      simp [Option.filter, targetName_eq name, refers]
  have before := front fits
  have conditions := RowsText.answers_conditions fits.rows before
  have orderBy := RowsText.answers_order fits.rows before
  have limit := RowsText.answers_limit fits.rows before
  rw [← text_eq] at conditions orderBy limit
  rw [readDelete]
  refine (yields_require (deleteParts?_eq fits) _ 0).bind ?_
  refine (yields_require full _ 0).bind ?_
  refine Yields.unless short ?_
  refine Yields.unless noUsing ?_
  refine sources.bind ?_
  dsimp only [SourcesText.read, TargetText.sources]
  rw [own]
  refine conditions.lift.bind ?_
  refine orderBy.lift.bind ?_
  exact limit.lift.bind (yields_pure d.clauses _)

theorem placeholders_text (fits : d.Fits reserved) : placeholders d.text = d.rows.count d.issued 3 := by
  have none : placeholders d.head = 0 := by
    rw [head]
    split
    · exact placeholders_of_free (by decide)
    · rename_i r row
      rw [neat_delete.solid.placeholders_glue, placeholders_of_free (by decide),
        placeholders_of_free (fits.row r row).1.noMark]
  rw [text_eq]
  refine RowsText.placeholders_text fits.rows (front fits).neat ?_
  rw [(body_head fits).neat.solid.placeholders_glue, none, neat_from.solid.placeholders_glue,
    placeholders_of_free (by decide), Nat.zero_add, Nat.zero_add]
  rfl

theorem neat (fits : d.Fits reserved) : Neat d.text := by
  rw [text_eq]
  exact RowsText.neat fits.rows (front fits).neat

theorem classify_text (fits : d.Fits reserved) : classify d.text = .ok .delete := by
  have noUnion : Lacks [["UNION"]] _ := RowsText.lacks fits.rows (front fits) (by decide) (by decide)
  rw [← text_eq] at noUnion
  have verb : ∃ u, d.text = StatementKind.delete.verb ++ ' ' :: u := by
    rw [text, head]
    split
    · exact ⟨_, rfl⟩
    · exact ⟨_, List.append_assoc _ _ _⟩
  obtain ⟨u, shape⟩ := verb
  rw [shape] at noUnion ⊢
  exact classify_verb .delete noUnion

end DeleteText
end QueryChain
