import QueryChain.Proofs.Statement.Attribution

namespace QueryChain

/-- What a statement has of each of its sections, in the order in which they are read. -/
structure Sections (α : Type) where
  list : Option α := none
  tables : Option α := none
  set : Option α := none
  where_ : Option α := none
  groupBy : Option α := none
  having : Option α := none
  orderBy : Option α := none
  limit : Option α := none
  offset : Option α := none
  body : Option α := none

namespace Sections

variable {α β : Type}

def all (s : Sections α) : List α :=
  [s.list, s.tables, s.set, s.where_, s.groupBy, s.having, s.orderBy, s.limit, s.offset, s.body].flatMap Option.toList

def map (f : α → β) (s : Sections α) : Sections β where
  list := s.list.map f
  tables := s.tables.map f
  set := s.set.map f
  where_ := s.where_.map f
  groupBy := s.groupBy.map f
  having := s.having.map f
  orderBy := s.orderBy.map f
  limit := s.limit.map f
  offset := s.offset.map f
  body := s.body.map f

def ofStatement (sql : Text) : StatementKind → Sections Text
  | .select => {
    list := (selectSection? sql).map Prod.snd
    tables := fromSection? sql
    where_ := (whereSection? sql).map normalize
    groupBy := groupBySection? sql
    having := havingSection? sql
    orderBy := orderBySection? sql
    limit := limitSection? sql
    offset := offsetSection? sql }
  | .update => {
    tables := updateTarget? sql
    set := setSection? sql
    where_ := (whereSection? sql).map normalize
    orderBy := orderBySection? sql
    limit := limitSection? sql }
  | .delete => {
    tables := fromSection? sql
    where_ := (whereSection? sql).map normalize
    orderBy := orderBySection? sql
    limit := limitSection? sql }
  | .insert => { body := (insertParts? sql).map (·.body.text) }

end Sections

def InsertSource.ReadFrom (target : TableRef) (named : Text) : InsertSource → Prop
  | .query _ text => text = named
  | .positional values => values = valueList named
  | .assignments pairs =>
    (∃ columns, columns.length = (valueList named).length ∧ pairs = List.zipWith Assignment.mk columns (valueList named)) ∨
      pairs = (splitTop ',' named).filterMap fun pair => (assignment? target pair).toOption

def Sources.ReadFrom (reserved : ReservedWords) (table : Option TableRef) (extraTables : List TableRef) (joins : List Join) :
    Option Text → Prop
  | none => joins = [] ∧ extraTables = []
  | some t =>
    (splitTop ',' (mainTables t)).map (fun f => (TableFragment.ofText? reserved f).map (·.table)) =
      (table.toList ++ extraTables).map some ∧
    ∃ issues, resolveJoins reserved t = .ok (joins, issues)

/-- Each clause is read from its own section, with the placeholders named. -/
structure Clauses.ReadFrom (reserved : ReservedWords) (named : Sections Text) (c : Clauses) : Prop where
  fields : c.fields = named.list.elim [] (splitTop ',')
  sources : Sources.ReadFrom reserved c.table c.extraTables c.joins named.tables
  assignments : named.set.elim (c.assignments = []) fun t => ∃ target, c.table = some target ∧
    c.assignments = (splitTop ',' t).filterMap fun pair => (assignment? target pair).toOption
  conditions : c.conditions = named.where_.elim [] splitConditions
  groupBy : c.groupBy = named.groupBy.elim [] (splitTop ',')
  having : c.having = named.having.filter (· ≠ [])
  orderBy : c.orderBy = named.orderBy.elim [] fun t => ((splitTop ',' t).filter (· ≠ [])).map orderItem
  limit : c.limit = (named.limit.bind limit?).map Prod.snd
  offset : c.offset =
    if c.kind = .select then (named.offset.bind bound?).or ((named.limit.bind limit?).bind Prod.fst) else none
  source : named.body.elim (c.source = none) fun t => ∃ target source, c.table = some target ∧ c.source = some source ∧
    source.ReadFrom target t

def Logs (o : Option Text) (p p' : Progress) (reads : Option Text → Prop) : Prop :=
  ∃ e : Option (Text × Text), p'.named = p.named ++ e.toList ∧ e.map Prod.fst = o ∧ reads (e.map Prod.snd)

section Readers

variable {reserved : ReservedWords} {clause : Text} {p p' : Progress} {o : Option Text} {reads : Option Text → Prop}

theorem Advance.logs (advance : Advance o.toList p p') (value : reads (o.map (numbered p.issued))) : Logs o p p' reads := by
  refine ⟨o.map fun t => (t, numbered p.issued t), ?_, ?_, ?_⟩
  · rw [advance.named]
    cases o <;> simp [numberedAll]
  · rw [Option.map_map]
    cases o <;> rfl
  · rwa [Option.map_map]

theorem readWhere_logs (sql : Text) (p : Progress) :
    Logs ((whereSection? sql).map normalize) p (readWhere sql p).2 fun t =>
      (readWhere sql p).1 = t.elim [] splitConditions := by
  refine (advance_readWhere sql p).logs ?_
  cases found : whereSection? sql with
  | none => rw [readWhere_eq_none sql p found]; rfl
  | some body => rw [readWhere_eq_some sql p found]; rfl

theorem readGroupBy_logs (sql : Text) (p : Progress) :
    Logs (groupBySection? sql) p (readGroupBy sql p).2 fun t => (readGroupBy sql p).1 = t.elim [] (splitTop ',') := by
  refine (advance_readGroupBy sql p).logs ?_
  rw [readGroupBy]
  cases groupBySection? sql <;> rfl

theorem readHaving_logs (sql : Text) (p : Progress) :
    Logs (havingSection? sql) p (readHaving sql p).2 fun t => (readHaving sql p).1 = t.filter (· ≠ []) := by
  refine (advance_readHaving sql p).logs ?_
  rw [readHaving]
  cases havingSection? sql with
  | none => rfl
  | some body =>
    have named : (nameParams body p).1 = numbered p.issued body := rfl
    dsimp only
    rw [noting_bind, named, noting_pure]
    by_cases empty : numbered p.issued body = []
    · rw [if_pos empty, Option.map_some, empty]
      rfl
    · rw [if_neg empty, Option.map_some, Option.filter_some, if_pos (decide_eq_true empty)]

theorem readOrderBy_logs (sql : Text) (p : Progress) : Logs (orderBySection? sql) p (readOrderBy sql p).2 fun t =>
    (readOrderBy sql p).1 = t.elim [] fun t => ((splitTop ',' t).filter (· ≠ [])).map orderItem := by
  refine (advance_readOrderBy sql p).logs ?_
  rw [readOrderBy]
  cases orderBySection? sql <;> rfl

theorem readLimitSection_logs (sql : Text) (p : Progress) : Logs (limitSection? sql) p (readLimitSection sql p).2 fun t =>
    (readLimitSection sql p).1 = ((t.bind limit?).map Prod.snd, (t.bind limit?).bind Prod.fst) := by
  refine (advance_readLimitSection sql p).logs ?_
  rw [readLimitSection]
  cases limitSection? sql with
  | none => rfl
  | some body =>
    have named : (nameParams body p).1 = numbered p.issued body := rfl
    dsimp only
    rw [noting_bind, named, Option.map_some, Option.bind_some]
    rcases limit? (numbered p.issued body) with _ | ⟨offset, count⟩ <;> rfl

theorem readRowCount_logs (sql : Text) (p : Progress) : Logs (limitSection? sql) p (readRowCount sql p).2 fun t =>
    (readRowCount sql p).1 = (t.bind limit?).map Prod.snd := by
  obtain ⟨e, named, text, value⟩ := readLimitSection_logs sql p
  refine ⟨e, ?_, text, ?_⟩
  · rw [← named, readRowCount, noting_bind]
    by_cases offset : (readLimitSection sql p).1.2.isSome <;> simp only [offset] <;> rfl
  · rw [readRowCount, noting_bind]
    refine Eq.trans ?_ (congrArg Prod.fst value)
    by_cases offset : (readLimitSection sql p).1.2.isSome <;> simp only [offset] <;> rfl

theorem readOffsetSection_logs (offset : Option Bound) (sql : Text) (p : Progress) :
    Logs (offsetSection? sql) p (readOffsetSection offset sql p).2 fun t =>
      (readOffsetSection offset sql p).1 = (t.bind bound?).or offset := by
  refine (advance_readOffsetSection sql p offset).logs ?_
  rw [readOffsetSection]
  cases offsetSection? sql with
  | none => rfl
  | some body =>
    have named : (nameParams body p).1 = numbered p.issued body := rfl
    dsimp only
    rw [noting_bind, named, Option.map_some, Option.bind_some]
    rcases bound? (numbered p.issued body) with _ | bound <;> rfl

theorem readTables_value {fragments : List Text} {tables : List TableRef}
    (ok : Gives (readTables reserved clause fragments) p tables p') :
    fragments.map (fun f => (TableFragment.ofText? reserved f).map (·.table)) = tables.map some := by
  induction fragments generalizing p tables with
  | nil =>
    obtain ⟨rfl, -⟩ := gives_pure ok
    rfl
  | cons fragment fragments ih =>
    rw [readTables] at ok
    obtain ⟨table, p₁, first, ok⟩ := gives_bind ok
    obtain ⟨more, p₂, rest, ok⟩ := gives_bind ok
    obtain ⟨rfl, rfl⟩ := gives_pure ok
    obtain ⟨parsed, -, parses, rfl, -, -⟩ := readTable_ok first
    rw [List.map_cons, parses, ih rest]
    rfl

theorem readSources_logs {many : Bool} {t : Text} {sources : Sources}
    (ok : Gives (readSources reserved clause many t) p sources p') :
    Logs (some t) p p' (Sources.ReadFrom reserved (some sources.table) sources.extraTables sources.joins) := by
  obtain ⟨p₁, issues, single, tables, joins, -, -⟩ := readSources_ok ok
  exact Advance.logs (o := some t) (advance_readSources ok) ⟨readTables_value tables, issues, joins⟩

theorem readSources_single {t : Text} {sources : Sources} (ok : Gives (readSources reserved clause false t) p sources p') :
    sources.extraTables = [] := by
  obtain ⟨p₁, issues, single, tables, -⟩ := readSources_ok ok
  have lengths := congrArg List.length (readTables_value tables)
  simp only [List.length_map, List.length_cons] at lengths
  rw [Bool.not_false, Bool.and_true, decide_eq_true_eq] at single
  exact List.length_eq_zero_iff.mp (by omega)

theorem readLimitAndOffset_eq (sql : Text) (p : Progress) : readLimitAndOffset sql p =
    (((readLimitSection sql p).1.1, (readOffsetSection (readLimitSection sql p).1.2 sql (readLimitSection sql p).2).1),
      (readOffsetSection (readLimitSection sql p).1.2 sql (readLimitSection sql p).2).2) := rfl

theorem readAssignments_eq (target : TableRef) (list : Text) (p : Progress) : (readAssignments target list p).1 =
    (splitTop ',' (numbered p.issued list)).filterMap fun pair => (assignment? target pair).toOption := by
  rw [readAssignments, noting_bind, readPairs_eq]
  rfl

theorem readFrom_logs {sql : Text} {sources : Option Sources} (ok : Gives (readFrom reserved sql) p sources p') :
    Logs (fromSection? sql) p p' (Sources.ReadFrom reserved (sources.map (·.table))
      ((sources.map (·.extraTables)).getD []) ((sources.map (·.joins)).getD [])) := by
  rcases readFrom_ok ok with ⟨missing, rfl, rfl⟩ | ⟨body, sources, found, rfl, read⟩
  · exact ⟨none, by simp, missing.symm, rfl, rfl⟩
  · rw [found]
    exact readSources_logs read

theorem readInsertSource_logs {sql : Text} {columns : Option Text} {body : InsertBody} {target : TableRef}
    {source : InsertSource} (ok : Gives (readInsertSource sql target columns body) p source p') :
    Logs (some body.text) p p' fun t => t.elim False fun t => source.ReadFrom target t := by
  refine Advance.logs (o := some body.text) (advance_readInsertSource ok).2 ?_
  cases body with
  | missing => exact absurd ok gives_refuse
  | values values =>
    rw [readInsertSource] at ok
    obtain ⟨-, -, ⟨-, rfl, -⟩ | ⟨t, -, same, rfl, -⟩⟩ := readValues_ok ok
    · rfl
    · exact .inl ⟨columnList t, same, rfl⟩
  | set list =>
    dsimp only [readInsertSource] at ok
    obtain ⟨-, ok⟩ := gives_guard ok
    obtain ⟨assignments, p₁, pairs, ok⟩ := gives_bind ok
    obtain ⟨-, ok⟩ := gives_guard ok
    obtain ⟨rfl, rfl⟩ := gives_pure ok
    refine .inr ?_
    exact (congrArg Prod.fst (gives_lift pairs)).symm.trans (readAssignments_eq target list p)
  | query text =>
    dsimp only [readInsertSource] at ok
    obtain ⟨_, p₁, noted, ok⟩ := gives_bind ok
    obtain ⟨named, p₂, step, ok⟩ := gives_bind ok
    obtain ⟨rfl, rfl⟩ := gives_pure ok
    have first := Advance.note (.ambiguousSyntax "INSERT ... SELECT has no setValue() equivalent"
      "rewriting the statement by hand") p
    rw [gives_lift noted] at first
    have issued : p₁.issued = p.issued := first.issued
    change named = numbered p.issued text
    rw [← issued]
    exact (congrArg Prod.fst (gives_lift step)).symm

end Readers
section Statements

variable {reserved : ReservedWords} {sql : Text} {p : Progress} {c : Clauses}

theorem log_of_select (ok : Gives (readSelect reserved sql) {} c p) : ∃ log : Sections (Text × Text), log.all = p.named ∧
    log.map Prod.fst = Sections.ofStatement sql .select ∧ c.ReadFrom reserved (log.map Prod.snd) := by
  obtain ⟨distinct, list, sources, conditions, groupBy, having, orderBy, limit, offset, p₁, p₂, p₃, p₄, p₅, -, found, -,
    from_, where_, group, have_, order, bounds, rfl⟩ := readSelect_ok ok
  obtain ⟨e₁, n₁, t₁, v₁⟩ := readFrom_logs from_
  obtain ⟨e₂, n₂, t₂, v₂⟩ := readWhere_logs sql p₁
  obtain ⟨e₃, n₃, t₃, v₃⟩ := readGroupBy_logs sql p₂
  obtain ⟨e₄, n₄, t₄, v₄⟩ := readHaving_logs sql p₃
  obtain ⟨e₅, n₅, t₅, v₅⟩ := readOrderBy_logs sql p₄
  obtain ⟨e₆, n₆, t₆, v₆⟩ := readLimitSection_logs sql p₅
  obtain ⟨e₇, n₇, t₇, v₇⟩ := readOffsetSection_logs (readLimitSection sql p₅).1.2 sql (readLimitSection sql p₅).2
  simp only [where_] at n₂ v₂
  simp only [group] at n₃ v₃
  simp only [have_] at n₄ v₄
  simp only [order] at n₅ v₅
  rw [readLimitAndOffset_eq] at bounds
  obtain ⟨both, rfl⟩ := Prod.mk.inj bounds
  obtain ⟨rfl, rfl⟩ := Prod.mk.inj both
  refine ⟨{
    list := some (list, (nameParams list {}).1)
    tables := e₁, where_ := e₂, groupBy := e₃, having := e₄, orderBy := e₅, limit := e₆, offset := e₇ }, ?_, ?_, ?_⟩
  · simp only [Sections.all, n₇, n₆, n₅, n₄, n₃, n₂, n₁]
    simp [nameParams]
  · simp only [Sections.map, Sections.ofStatement, t₁, t₂, t₃, t₄, t₅, t₆, t₇, found]
    rfl
  · refine ⟨rfl, v₁, rfl, v₂, v₃, v₄, v₅, congrArg Prod.fst v₆, ?_, rfl⟩
    refine v₇.trans ?_
    rw [congrArg Prod.snd v₆]
    rfl

theorem log_of_update (ok : Gives (readUpdate reserved sql) {} c p) : ∃ log : Sections (Text × Text), log.all = p.named ∧
    log.map Prod.fst = Sections.ofStatement sql .update ∧ c.ReadFrom reserved (log.map Prod.snd) := by
  obtain ⟨target, list, sources, assignments, conditions, orderBy, limit, p₁, p₂, p₃, p₄, found, -, read, foundSet, pairs, -,
    where_, order, count, rfl⟩ := readUpdate_ok ok
  obtain ⟨e₁, n₁, t₁, v₁⟩ := readSources_logs read
  obtain ⟨e₃, n₃, t₃, v₃⟩ := readWhere_logs sql p₂
  obtain ⟨e₄, n₄, t₄, v₄⟩ := readOrderBy_logs sql p₃
  obtain ⟨e₅, n₅, t₅, v₅⟩ := readRowCount_logs sql p₄
  have n₂ := (advance_readAssignments sources.table list p₁).named
  have v₂ := readAssignments_eq sources.table list p₁
  simp only [pairs] at n₂ v₂
  simp only [where_] at n₃ v₃
  simp only [order] at n₄ v₄
  simp only [count] at n₅ v₅
  refine ⟨{
    tables := e₁, set := some (list, numbered p₁.issued list)
    where_ := e₃, orderBy := e₄, limit := e₅ }, ?_, ?_, ?_⟩
  · simp only [Sections.all, n₅, n₄, n₃, n₂, n₁]
    simp [numberedAll]
  · simp only [Sections.map, Sections.ofStatement, t₁, t₃, t₄, t₅, found, foundSet]
    rfl
  · refine ⟨rfl, ?_, ⟨sources.table, rfl, v₂⟩, v₃, rfl, rfl, v₄, v₅, rfl, rfl⟩
    rwa [← readSources_single read]

theorem log_of_delete (ok : Gives (readDelete reserved sql) {} c p) : ∃ log : Sections (Text × Text), log.all = p.named ∧
    log.map Prod.fst = Sections.ofStatement sql .delete ∧ c.ReadFrom reserved (log.map Prod.snd) := by
  obtain ⟨parts, body, sources, conditions, orderBy, limit, p₁, p₂, p₃, found, foundBody, -, -, -,
    read, where_, order, count, rfl⟩ := readDelete_ok ok
  obtain ⟨e₁, n₁, t₁, v₁⟩ := readSources_logs read
  obtain ⟨e₂, n₂, t₂, v₂⟩ := readWhere_logs sql p₁
  obtain ⟨e₃, n₃, t₃, v₃⟩ := readOrderBy_logs sql p₂
  obtain ⟨e₄, n₄, t₄, v₄⟩ := readRowCount_logs sql p₃
  simp only [where_] at n₂ v₂
  simp only [order] at n₃ v₃
  simp only [count] at n₄ v₄
  refine ⟨{ tables := e₁, where_ := e₂, orderBy := e₃, limit := e₄ }, ?_, ?_, ?_⟩
  · simp only [Sections.all, n₄, n₃, n₂, n₁]
    simp
  · simp only [Sections.map, Sections.ofStatement, t₁, t₂, t₃, t₄, source_of_deleteParts? found foundBody]
    rfl
  · refine ⟨rfl, ?_, rfl, v₂, rfl, rfl, v₃, v₄, rfl, rfl⟩
    rwa [← readSources_single read]

theorem log_of_insert (ok : Gives (readInsert sql) {} c p) : ∃ log : Sections (Text × Text), log.all = p.named ∧
    log.map Prod.fst = Sections.ofStatement sql .insert ∧ c.ReadFrom reserved (log.map Prod.snd) := by
  obtain ⟨parts, source, found, -, -, read, rfl⟩ := readInsert_ok ok
  obtain ⟨e, named, text, value⟩ := readInsertSource_logs read
  refine ⟨{ body := e }, ?_, ?_, rfl, ⟨rfl, rfl⟩, rfl, rfl, rfl, rfl, rfl, rfl, rfl, ?_⟩
  · simp only [Sections.all, named]
    simp
  · simp only [Sections.map, Sections.ofStatement, text, found]
    rfl
  · cases e with
    | none => exact value.elim
    | some entry => exact ⟨_, source, rfl, rfl, value⟩

/-- What was named on the way to a statement's clauses are its sections, and from these, with their
    placeholders named, the clauses are read. -/
theorem log_of_read {kind : StatementKind} (read : Gives (readStatement reserved kind sql) {} c p) :
    ∃ log : Sections (Text × Text), log.all = p.named ∧ log.map Prod.fst = Sections.ofStatement sql kind ∧
      c.ReadFrom reserved (log.map Prod.snd) := by
  cases kind with
  | select => exact log_of_select read
  | update => exact log_of_update read
  | delete => exact log_of_delete read
  | insert => exact log_of_insert read

end Statements
end QueryChain
