import QueryChain.Proofs.Params.Numbers
import QueryChain.Proofs.Params.Passes
import QueryChain.Proofs.Keyword.Spans

namespace QueryChain

theorem infix_slice {sql : Text} (b e : Nat) : slice b e sql <:+: sql :=
  (List.drop_suffix b _).isInfix.trans (List.take_prefix e sql).isInfix

theorem insertParts?_infix {sql : Text} {parts : InsertParts} (found : insertParts? sql = some parts) :
    parts.table <:+: sql ∧ ∀ t ∈ parts.columns, t <:+: sql := by
  obtain ⟨-, table, columns, -, -, inTable, inColumns, -⟩ := insertParts?_eq_slices found
  refine ⟨inTable ▸ infix_slice .., ?_⟩
  intro t written
  rw [Option.mem_def.mp written, Option.getD_some] at inColumns
  exact inColumns ▸ infix_slice ..

section Insert

variable {p p' : Progress} {sql t : Text}

theorem paramsIn_columnList (free : ¬paramMarker <:+: t) : ∀ column ∈ columnList t, paramsIn column = [] := by
  intro column member
  obtain ⟨piece, listed, rfl⟩ := List.mem_map.mp member
  apply paramsIn_columnName_of_no_marker
  intro inside
  exact free ((inside.trans (infix_of_mem_splitTop listed)).trans (infix_groupBody t))

theorem params_zipWith {columns values : List Text} (noNames : ∀ column ∈ columns, paramsIn column = [])
    (clear : ∀ v ∈ values, Clear v) (length : columns.length = values.length) :
    (List.zipWith Assignment.mk columns values).flatMap (fun a => (assignmentCall .setValue a).params) =
      values.flatMap paramsIn := by
  induction columns generalizing values with
  | nil =>
    cases values with
    | nil => rfl
    | cons v values => cases length
  | cons column columns ih =>
    cases values with
    | nil => cases length
    | cons v values =>
      rw [List.zipWith_cons_cons, List.flatMap_cons, List.flatMap_cons, params_assignmentCall,
        noNames column (by simp), params_ofValue (clear v (by simp)),
        ih (fun c member => noNames c (by simp [member])) (fun u member => clear u (by simp [member]))
          (by simpa using length)]
      rfl

end Insert
def clauseTexts : StatementKind → Text → List Text
  | .select, sql =>
    [(selectSection? sql).map Prod.snd, fromSection? sql, (whereSection? sql).map normalize,
      groupBySection? sql, havingSection? sql, orderBySection? sql, limitSection? sql,
      offsetSection? sql].flatMap Option.toList
  | .insert, sql => (insertParts? sql).toList.map (·.body.text)
  | .update, sql =>
    [updateTarget? sql, setSection? sql, (whereSection? sql).map normalize, orderBySection? sql,
      limitSection? sql].flatMap Option.toList
  | .delete, sql =>
    [fromSection? sql, (whereSection? sql).map normalize, orderBySection? sql,
      limitSection? sql].flatMap Option.toList

def sourceText? : StatementKind → Text → Option Text
  | .select, sql =>
    (selectSection? sql).bind fun list => (fromSection? sql).map (numbered (placeholders list.2))
  | .update, sql => (updateTarget? sql).map (numbered 0)
  | .delete, sql => (fromSection? sql).map (numbered 0)
  | .insert, _ => none

def assignmentText? : StatementKind → Text → Option Text
  | .update, sql =>
    (updateTarget? sql).bind fun target => (setSection? sql).map (numbered (placeholders target))
  | .insert, sql =>
    (insertParts? sql).bind fun parts =>
      match parts.body with
      | .set list => some (numbered 0 list)
      | _ => none
  | _, _ => none

/-- What keeps a statement from losing a parameter or passing it on twice. Names lose what stands in
    quotes once the quotes in them are taken off, and columns lose their qualifier; a row offset is
    lost to an `OFFSET` section; the main table is passed on with each join, and a joined table without
    an alias stands for one; digits behind a placeholder make it a different one. -/
structure PassesEach (kind : StatementKind) (sql : Text) (c : Clauses) : Prop where
  digits : ∀ t ∈ clauseTexts kind sql, DigitFree t
  names : ∀ named ∈ sourceText? kind sql, ∀ n ∈ sourceNames named, paramsIn (plainName n) = paramsIn n
  columns : ∀ named ∈ assignmentText? kind sql, ∀ n ∈ columnTexts named,
    paramsIn (columnName n) = paramsIn n
  rowOffset : kind = .select → (offsetSection? sql).isSome → ∀ body ∈ limitSection? sql,
    (boundParams c.limit).length = placeholders body
  main : c.joins ≠ [] → ∀ reference ∈ c.mainReference?, paramsIn reference = []
  joined : ∀ j ∈ c.joins, j.table.writtenAlias? = none → paramsIn j.table.table = []

section Statements

variable {reserved : ReservedWords} {sql t : Text} {p p' : Progress} {c : Clauses}

theorem passes_readSources {many : Bool} {clause : Text} {s : Sources} (fresh : Fresh t)
    (ok : Gives (readSources reserved clause many t) p s p') (clean : p'.issues = [])
    (method : Method) :
    Passes p p'
      ((s.table :: s.extraTables).flatMap (fun t => (tableCall method t).params) ++
        s.joins.flatMap (fun j => (joinCall s.table.reference j).params))
      (∀ n ∈ sourceNames (numbered p.issued t), paramsIn (plainName n) = paramsIn n)
      ((s.joins ≠ [] → paramsIn s.table.reference = []) ∧
        ∀ j ∈ s.joins, j.table.writtenAlias? = none → paramsIn j.table.table = []) := by
  have account := account_sources (fresh.clear p.issued) ok clean method
  exact (Passes.nameParams fresh account).of_named (advance_readSources ok).named

/-- The texts of a statement in normal form are parts of it. -/
theorem dashes_slice (normal : IsNormal sql) {b e : Nat} (le : b ≤ e) (bound : e ≤ sql.length)
    (start : stateAt sql b = {}) : DashesOnly {} (slice b e sql) := by
  apply dashesOnly_cut (s := {}) (u := sql.drop e) rfl rfl
  rw [slice_append_drop le bound]
  intro m member comment
  have inScan : (scan sql).drop b = _ := drop_scan
  rw [start] at inScan
  rw [← inScan] at member
  exact absurd comment (normal.commentFree m (List.mem_of_mem_drop member))

theorem fresh_slice (normal : IsNormal sql) (free : ¬paramMarker <:+: sql) {b e : Nat} (le : b ≤ e)
    (bound : e ≤ sql.length) (start : stateAt sql b = {}) : Fresh (slice b e sql) :=
  ⟨dashes_slice normal le bound start, fun inside => free (inside.trans (infix_slice b e))⟩

theorem TakenFrom.dashes {k : Keyword} {ends : List Keyword} (taken : TakenFrom sql k ends t)
    (normal : IsNormal sql) : DashesOnly {} t := by
  obtain ⟨p, b, e, b', e', sec, first, le, last, start, rfl⟩ := taken
  have bound := sec.bound
  exact dashes_slice normal le (by omega) start

theorem TakenFrom.fresh {k : Keyword} {ends : List Keyword} (taken : TakenFrom sql k ends t)
    (normal : IsNormal sql) (free : ¬paramMarker <:+: sql) : Fresh t := by
  obtain ⟨p, b, e, b', e', sec, first, le, last, start, rfl⟩ := taken
  have bound := sec.bound
  exact fresh_slice normal free le (by omega) start

theorem passes_fields {list : Text} (fresh : Fresh list) :
    Passes p (nameParams list p).2 ((splitTop ',' (nameParams list p).1).flatMap paramsIn) True True := by
  have pieces := splits_splitTop (d := ',') (by decide) (fresh.clear p.issued)
  have passes := Passes.nameParams fresh (Account.exact (paramsIn (nameParams list p).1))
  exact passes.of_perm (.of_eq pieces.names.symm)

theorem params_limitCalls : c.limitCalls.flatMap Call.params = boundParams c.limit := by
  rw [Clauses.limitCalls, boundParams, List.flatMap_map]
  exact List.flatMap_congr fun b _ => by simp [Call.params]

theorem params_orderCalls : c.orderCalls.flatMap Call.params = c.orderBy.flatMap (paramsIn ·.field) := by
  rw [Clauses.orderCalls, List.flatMap_map]
  refine List.flatMap_congr fun o _ => ?_
  have direction : paramsIn o.direction.word = [] := by
    cases o.direction <;> decide
  simp [Call.params, Arg.params, direction]

theorem params_selectCalls : c.selectCalls.flatMap Call.params =
    c.fields.flatMap paramsIn ++
      (((c.table.toList ++ c.extraTables).flatMap (fun t => (tableCall .addFrom t).params) ++
        c.joinCalls.flatMap Call.params) ++ (c.conditions.flatMap (paramsIn ·.text) ++
      (c.groupBy.flatMap paramsIn ++ (c.having.toList.flatMap paramsIn ++
      (c.orderBy.flatMap (paramsIn ·.field) ++ (boundParams c.limit ++ boundParams c.offset)))))) := by
  have fields : (if c.fields = [] then ([] : List Call) else [⟨.select, c.fields.map .str⟩]).flatMap
      Call.params = c.fields.flatMap paramsIn := by
    by_cases empty : c.fields = []
    · rw [if_pos empty, empty]
      rfl
    · rw [if_neg empty, List.flatMap_singleton, Call.params, List.flatMap_map]
      rfl
  have distinct : (if c.distinct then ([⟨.distinct, []⟩] : List Call) else []).flatMap Call.params =
      [] := by
    by_cases only : c.distinct
    · rw [if_pos only]
      rfl
    · rw [if_neg only]
      rfl
  have groups : (c.groupBy.map fun field => (⟨.addGroupBy, [.str field]⟩ : Call)).flatMap Call.params =
      c.groupBy.flatMap paramsIn := by
    rw [List.flatMap_map]
    exact List.flatMap_congr fun _ _ => by simp [Call.params, Arg.params]
  have having : (c.having.toList.map fun having => (⟨.having, [.str having]⟩ : Call)).flatMap
      Call.params = c.having.toList.flatMap paramsIn := by
    rw [List.flatMap_map]
    exact List.flatMap_congr fun _ _ => by simp [Call.params, Arg.params]
  have offset : (c.offset.toList.map fun b => (⟨.setFirstResult, [b.arg]⟩ : Call)).flatMap
      Call.params = boundParams c.offset := by
    rw [boundParams, List.flatMap_map]
    exact List.flatMap_congr fun _ _ => by simp [Call.params]
  simp only [Clauses.selectCalls, List.flatMap_append, fields, distinct, groups, having, offset,
    params_conditionCalls, params_orderCalls, params_limitCalls, List.flatMap_map, List.nil_append,
    List.append_assoc]

theorem passes_readFrom {sources : Option Sources} (fresh : ∀ t ∈ fromSection? sql, Fresh t)
    (ok : Gives (readFrom reserved sql) p sources p') (clean : p'.issues = []) :
    Passes p p'
      (((sources.map (·.table)).toList ++ (sources.map (·.extraTables)).getD []).flatMap
          (fun t => (tableCall .addFrom t).params) ++
        (sources.toList.flatMap fun s => s.joins.flatMap fun j => (joinCall s.table.reference j).params))
      (∀ t ∈ fromSection? sql, ∀ n ∈ sourceNames (numbered p.issued t),
        paramsIn (plainName n) = paramsIn n)
      ((∀ s ∈ sources, s.joins ≠ [] → paramsIn s.table.reference = []) ∧
        ∀ s ∈ sources, ∀ j ∈ s.joins, j.table.writtenAlias? = none → paramsIn j.table.table = []) := by
  rcases readFrom_ok ok with ⟨missing, rfl, rfl⟩ | ⟨body, s, found, rfl, read⟩
  · rw [missing]
    exact (Passes.refl p).of_iff (by simp) (by simp)
  · have passes := passes_readSources (fresh body found) read clean .addFrom
    rw [found]
    apply (passes.of_iff (by simp) (by simp)).of_perm
    simp

theorem length_names_of_limit {body : Text} (fresh : Fresh body) (digitFree : DigitFree body)
    (found : limitSection? sql = some body) {ts : List Text}
    (advance : Advance ((limitSection? sql).toList ++ ts) p p') (fits : p'.issued ≤ largestNumber) :
    (namesIn (numbered p.issued body)).length = placeholders body := by
  have issued := advance.issued
  rw [found, List.map_append, List.sum_append, Option.toList_some, List.map_singleton,
    List.sum_singleton] at issued
  rw [names_numbered fresh.free digitFree (by omega), List.length_range']

theorem passes_readSelect (normal : IsNormal sql) (free : ¬paramMarker <:+: sql)
    (ok : Gives (readSelect reserved sql) {} c p') (clean : p'.issues = []) :
    ∃ rowOffset : Prop, Passes {} p' (c.selectCalls.flatMap Call.params)
      ((∀ named ∈ sourceText? .select sql, ∀ n ∈ sourceNames named,
          paramsIn (plainName n) = paramsIn n) ∧ rowOffset)
      ((c.joins ≠ [] → ∀ reference ∈ c.mainReference?, paramsIn reference = []) ∧
        ∀ j ∈ c.joins, j.table.writtenAlias? = none → paramsIn j.table.table = []) ∧
      ((∀ t ∈ clauseTexts .select sql, DigitFree t) → p'.issued ≤ largestNumber →
        (rowOffset ↔ ((offsetSection? sql).isSome → ∀ body ∈ limitSection? sql,
          (boundParams c.limit).length = placeholders body))) := by
  obtain ⟨distinct, list, sources, conditions, groupBy, having, orderBy, limit, offset, p₁, p₂, p₃, p₄,
    p₅, -, found, -, from_, where_, group, have_, order, bounds, rfl⟩ := readSelect_ok ok
  have fresh {k : Keyword} {ends : List Keyword} (isKeyword : IsKeyword k)
      (areKeywords : ∀ k ∈ ends, IsKeyword k) : ∀ t ∈ section? k ends sql, Fresh t := fun t found =>
    (takenFrom_section isKeyword areKeywords found).fresh normal free
  have freshWhere : ∀ t ∈ (whereSection? sql).map normalize, Fresh t := fun t member =>
    (takenFrom_whereSection? normal t member).fresh normal free
  have freshLimit : ∀ t ∈ limitSection? sql, Fresh t := fresh (by decide) (by decide)
  have sixth := advance_readLimitAndOffset sql p₅
  have fifth := advance_readOrderBy sql p₄
  have fourth := advance_readHaving sql p₃
  have third := advance_readGroupBy sql p₂
  have second := advance_readWhere sql p₁
  rw [bounds] at sixth
  rw [order] at fifth
  rw [have_] at fourth
  rw [group] at third
  rw [where_] at second
  have cleanFrom := second.clean (third.clean (fourth.clean (fifth.clean (sixth.clean clean))))
  have fieldsPass := passes_fields (p := {}) ((takenFrom_selectSection? found).fresh normal free)
  have fromPass := passes_readFrom (fresh (by decide) (by decide)) from_ cleanFrom
  have wherePass := passes_readWhere (p := p₁) freshWhere
  have groupPass := passes_readGroupBy (p := p₂) (fresh (by decide) (by decide))
  have havingPass := passes_readHaving (p := p₃) (fresh (by decide) (by decide))
  have orderPass := passes_readOrderBy (p := p₄) (fresh (by decide) (by decide))
  have boundsPass := passes_readLimitAndOffset (p := p₅) freshLimit (fresh (by decide) (by decide))
    (by rw [bounds]; exact clean)
  rw [where_] at wherePass
  rw [group] at groupPass
  rw [have_] at havingPass
  rw [order] at orderPass
  rw [bounds] at boundsPass
  have all := fieldsPass.trans (fromPass.trans (wherePass.trans (groupPass.trans
    (havingPass.trans (orderPass.trans boundsPass)))))
  refine ⟨(offsetSection? sql).isSome → ∀ body ∈ limitSection? sql,
    (boundParams limit).length = (namesIn (numbered p₅.issued body)).length,
    (all.of_iff ?_ ?_).of_perm ?_, ?_⟩
  · have text : sourceText? .select sql = (fromSection? sql).map (numbered (nameParams list {}).2.issued) := by
      rw [sourceText?, found, Option.bind_some]
      simp [nameParams]
    rw [text]
    simp
  · cases sources <;> simp [Clauses.mainReference?]
  · rw [params_selectCalls]
    apply List.Perm.of_eq
    cases sources with
    | none => simp [Clauses.joinCalls, Clauses.mainReference?]
    | some s => simp [Clauses.joinCalls, Clauses.mainReference?, List.flatMap_map]
  · intro digits fits
    have same : ∀ body ∈ limitSection? sql,
        (namesIn (numbered p₅.issued body)).length = placeholders body := by
      intro body member
      apply length_names_of_limit (freshLimit body member) _ member sixth fits
      apply digits body
      simp [clauseTexts, Option.mem_def.mp member]
    constructor
    · intro kept offset body member
      rw [kept offset body member, same body member]
    · intro kept offset body member
      rw [kept offset body member, same body member]

theorem noExtraTables {clause : Text} {s : Sources}
    (ok : Gives (readSources reserved clause false t) p s p') (clean : p'.issues = []) :
    s.extraTables = [] := by
  obtain ⟨p₁, issues, single, read, -, -, rfl⟩ := readSources_ok ok
  obtain ⟨cleanTables, -⟩ : p₁.issues = [] ∧ issues = [] := by simpa [noteAll] using clean
  have length := (readTables_clean read cleanTables).length_eq
  rw [List.length_cons] at length
  simp only [Bool.not_false, Bool.and_true, decide_eq_true_eq] at single
  exact List.length_eq_zero_iff.mp (by omega)

theorem passes_readUpdate (normal : IsNormal sql) (free : ¬paramMarker <:+: sql)
    (ok : Gives (readUpdate reserved sql) {} c p') (clean : p'.issues = []) :
    Passes {} p' (c.updateCalls.flatMap Call.params)
      ((∀ named ∈ sourceText? .update sql, ∀ n ∈ sourceNames named,
          paramsIn (plainName n) = paramsIn n) ∧
        ∀ named ∈ assignmentText? .update sql, ∀ n ∈ columnTexts named,
          paramsIn (columnName n) = paramsIn n)
      ((c.joins ≠ [] → ∀ reference ∈ c.mainReference?, paramsIn reference = []) ∧
        ∀ j ∈ c.joins, j.table.writtenAlias? = none → paramsIn j.table.table = []) := by
  obtain ⟨target, list, sources, assignments, conditions, orderBy, limit, p₁, p₂, p₃, p₄, found, -, read,
    foundSet, pairs, -, where_, order, count, rfl⟩ := readUpdate_ok ok
  have freshTarget : Fresh target := by
    obtain ⟨_, _, b, e, -, le, bound, start, rfl, -⟩ := updateTarget?_eq_slice found
    exact fresh_slice normal free le bound start
  have fresh {k : Keyword} {ends : List Keyword} (isKeyword : IsKeyword k)
      (areKeywords : ∀ k ∈ ends, IsKeyword k) : ∀ t ∈ section? k ends sql, Fresh t := fun t found =>
    (takenFrom_section isKeyword areKeywords found).fresh normal free
  have freshWhere : ∀ t ∈ (whereSection? sql).map normalize, Fresh t := fun t member =>
    (takenFrom_whereSection? normal t member).fresh normal free
  have fifth := advance_readRowCount sql p₄
  have fourth := advance_readOrderBy sql p₃
  have third := advance_readWhere sql p₂
  have second := advance_readAssignments sources.table list p₁
  have first := advance_readSources read
  rw [count] at fifth
  rw [order] at fourth
  rw [where_] at third
  rw [pairs] at second
  have cleanSet := third.clean (fourth.clean (fifth.clean clean))
  have cleanSources := second.clean cleanSet
  have sourcesPass := passes_readSources freshTarget read cleanSources .update
  have pairsPass := passes_readAssignments sources.table (p := p₁)
    (fresh (by decide) (by decide) list foundSet) (by rw [pairs]; exact cleanSet) .set
  have wherePass := passes_readWhere (p := p₂) freshWhere
  have orderPass := passes_readOrderBy (p := p₃) (fresh (by decide) (by decide))
  have limitPass := passes_readRowCount (p := p₄) (fresh (by decide) (by decide))
    (by rw [count]; exact clean)
  rw [noExtraTables read cleanSources] at sourcesPass
  rw [pairs] at pairsPass
  rw [where_] at wherePass
  rw [order] at orderPass
  rw [count] at limitPass
  have all := sourcesPass.trans (pairsPass.trans (wherePass.trans (orderPass.trans limitPass)))
  have issued : p₁.issued = placeholders target := by simpa using first.issued
  apply (all.of_iff _ _).of_perm _
  · rw [issued]
    simp [sourceText?, assignmentText?, found, foundSet]
  · simp [Clauses.mainReference?]
  · simp only [Clauses.updateCalls, Clauses.tableCalls, List.flatMap_append, List.flatMap_map,
      Clauses.joinCalls, Clauses.mainReference?, Option.map_some, params_conditionCalls, params_orderCalls,
      params_limitCalls, List.append_assoc, Option.toList_some, List.flatMap_cons, List.flatMap_nil, List.nil_append]
    apply List.Perm.append_left
    simp only [← List.append_assoc]
    iterate 3 apply List.Perm.append_right
    exact List.perm_append_comm

theorem passes_readDelete (normal : IsNormal sql) (free : ¬paramMarker <:+: sql)
    (ok : Gives (readDelete reserved sql) {} c p') (clean : p'.issues = []) :
    Passes {} p' (c.deleteCalls.flatMap Call.params)
      (∀ named ∈ sourceText? .delete sql, ∀ n ∈ sourceNames named,
          paramsIn (plainName n) = paramsIn n)
      ((c.joins ≠ [] → ∀ reference ∈ c.mainReference?, paramsIn reference = []) ∧
        ∀ j ∈ c.joins, j.table.writtenAlias? = none → paramsIn j.table.table = []) := by
  obtain ⟨parts, body, sources, conditions, orderBy, limit, p₁, p₂, p₃, found, foundBody, -, -, -, read,
    where_, order, count, rfl⟩ := readDelete_ok ok
  have source := source_of_deleteParts? found foundBody
  have fresh {k : Keyword} {ends : List Keyword} (isKeyword : IsKeyword k)
      (areKeywords : ∀ k ∈ ends, IsKeyword k) : ∀ t ∈ section? k ends sql, Fresh t := fun t found =>
    (takenFrom_section isKeyword areKeywords found).fresh normal free
  have freshWhere : ∀ t ∈ (whereSection? sql).map normalize, Fresh t := fun t member =>
    (takenFrom_whereSection? normal t member).fresh normal free
  have third := advance_readRowCount sql p₃
  have second := advance_readOrderBy sql p₂
  have first := advance_readWhere sql p₁
  rw [count] at third
  rw [order] at second
  rw [where_] at first
  have cleanSources := first.clean (second.clean (third.clean clean))
  have sourcesPass := passes_readSources (fresh (by decide) (by decide) body source) read cleanSources
    .delete
  have wherePass := passes_readWhere (p := p₁) freshWhere
  have orderPass := passes_readOrderBy (p := p₂) (fresh (by decide) (by decide))
  have limitPass := passes_readRowCount (p := p₃) (fresh (by decide) (by decide))
    (by rw [count]; exact clean)
  rw [noExtraTables read cleanSources] at sourcesPass
  rw [where_] at wherePass
  rw [order] at orderPass
  rw [count] at limitPass
  have all := sourcesPass.trans (wherePass.trans (orderPass.trans limitPass))
  apply (all.of_iff _ _).of_perm _
  · simp [sourceText?, source]
  · simp [Clauses.mainReference?]
  · apply List.Perm.of_eq
    simp only [Clauses.deleteCalls, Clauses.tableCalls, List.flatMap_append, List.flatMap_map,
      Clauses.joinCalls, Clauses.mainReference?, Option.map_some, params_conditionCalls, params_orderCalls,
      params_limitCalls, List.append_assoc, Option.toList_some, List.flatMap_cons, List.flatMap_nil, List.nil_append]

theorem passes_readInsert (normal : IsNormal sql) (free : ¬paramMarker <:+: sql)
    (ok : Gives (readInsert sql) {} c p') (clean : p'.issues = []) :
    Passes {} p' (c.insertCalls.flatMap Call.params)
      (∀ named ∈ assignmentText? .insert sql, ∀ n ∈ columnTexts named,
        paramsIn (columnName n) = paramsIn n) True := by
  obtain ⟨parts, source, found, -, -, read, rfl⟩ := readInsert_ok ok
  have there := (advance_readInsertSource read).1
  have fresh : Fresh parts.body.text := by
    obtain ⟨b, e, le, bound, start, text⟩ := insertParts?_eq_slice normal.commentFree found there
    rw [text]
    exact fresh_slice normal free le bound start
  obtain ⟨table, columns⟩ := insertParts?_infix found
  have noTable : paramsIn (plainName parts.table) = [] :=
    paramsIn_plainName_of_no_marker fun inside => free (inside.trans table)
  have calls : ({
        kind := .insert
        table := some { table := plainName parts.table }
        source := some source } : Clauses).insertCalls.flatMap Call.params =
      source.calls.flatMap Call.params := by
    simp [Clauses.insertCalls, Call.params, Arg.params, noTable]
  rw [calls]
  have body : assignmentText? .insert sql = match parts.body with
      | .set list => some (numbered 0 list)
      | _ => none := by
    rw [assignmentText?, found, Option.bind_some]
  rw [body]
  cases written : parts.body with
  | missing => exact absurd written there
  | query text =>
    rw [written] at read
    dsimp only [readInsertSource] at read
    obtain ⟨_, p₁, noted, read⟩ := gives_bind read
    obtain ⟨named, p₂, step, read⟩ := gives_bind read
    obtain ⟨-, rfl⟩ := gives_pure read
    have second := Advance.nameParams text p₁
    rw [gives_lift step] at second
    have cleanNote := second.clean clean
    have eq := gives_lift noted
    rw [← (Prod.mk.inj eq).2] at cleanNote
    simp at cleanNote
  | values values =>
    rw [written] at read fresh
    rw [readInsertSource] at read
    obtain ⟨-, group, ⟨-, -, rfl⟩ | ⟨t, some_, length, rfl, rfl⟩⟩ := readValues_ok read
    · simp [note] at clean
    · have clear : Clear (nameParams values {}).1 := fresh.clear 0
      have inner := splits_groupBody clear
      have pieces := splits_splitTop (d := ',') (by decide) inner.clear_one
      have passes := Passes.nameParams fresh (Account.exact (paramsIn (nameParams values {}).1))
      apply (passes.of_iff (by simp) Iff.rfl).of_perm
      rw [InsertSource.calls, List.flatMap_map, valueList, params_zipWith _ pieces.clear length]
      · exact .of_eq (pieces.names.symm.trans inner.names_one.symm)
      · exact paramsIn_columnList fun inside => free (inside.trans (columns t some_))
  | set list =>
    rw [written] at read fresh
    dsimp only [readInsertSource] at read
    obtain ⟨-, read⟩ := gives_guard read
    obtain ⟨assignments, p₁, pairs, read⟩ := gives_bind read
    obtain ⟨-, read⟩ := gives_guard read
    obtain ⟨rfl, rfl⟩ := gives_pure read
    have eq := gives_lift pairs
    have freshList : Fresh list := fresh
    have passes := passes_readAssignments { table := plainName parts.table } (p := {})
      freshList (by rw [eq]; exact clean) .setValue
    rw [eq] at passes
    apply (passes.of_iff (by simp) Iff.rfl).of_perm
    rw [InsertSource.calls, List.flatMap_map]

end Statements
end QueryChain
