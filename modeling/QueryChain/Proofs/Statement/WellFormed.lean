import QueryChain.Proofs.Params.Passing
import QueryChain.Proofs.Statement.Spelled

namespace QueryChain

variable {reserved : ReservedWords} {sql clause t : Text} {p p' : Progress}

def Progress.Mild (p : Progress) : Prop := ∀ i ∈ p.issues, i.isRecoverable

def TableRef.AliasFits (t : TableRef) : Prop := t.aliasWritten ↔ t.aliasName.isSome

section Mild

variable (sql)

theorem Progress.Mild.note (mild : p.Mild) {i : Issue} (recoverable : i.isRecoverable) :
    (note i p).2.Mild := by
  intro j member
  rcases List.mem_append.mp member with before | here
  · exact mild j before
  · rwa [List.mem_singleton.mp here]

theorem Progress.Mild.noteAll (mild : p.Mild) {is : List Issue} (recoverable : ∀ i ∈ is, i.isRecoverable) :
    (noteAll is p).2.Mild := by
  intro j member
  rcases List.mem_append.mp member with before | here
  · exact mild j before
  · exact recoverable j here

theorem Progress.Mild.nameParams (mild : p.Mild) (t : Text) : (nameParams t p).2.Mild := mild

theorem mild_readWhere (mild : p.Mild) : (readWhere sql p).2.Mild := by
  cases found : whereSection? sql with
  | none => rwa [readWhere_eq_none sql p found]
  | some body =>
    rw [readWhere_eq_some sql p found]
    split
    · exact (mild.nameParams _).note rfl
    · exact mild.nameParams _

theorem mild_readGroupBy (mild : p.Mild) : (readGroupBy sql p).2.Mild := by
  rw [readGroupBy]
  cases groupBySection? sql with
  | none => exact mild
  | some body => exact mild.nameParams body

theorem mild_readHaving (mild : p.Mild) : (readHaving sql p).2.Mild := by
  rw [readHaving]
  cases havingSection? sql with
  | none => exact mild
  | some body => exact mild.nameParams body

theorem mild_readOrderBy (mild : p.Mild) : (readOrderBy sql p).2.Mild := by
  rw [readOrderBy]
  cases orderBySection? sql with
  | none => exact mild
  | some body => exact mild.nameParams body

theorem mild_readLimitSection (mild : p.Mild) : (readLimitSection sql p).2.Mild := by
  rw [readLimitSection]
  cases limitSection? sql with
  | none => exact mild
  | some body =>
    dsimp only
    rw [noting_bind]
    cases limit? (nameParams body p).1 with
    | none => exact (mild.nameParams body).note rfl
    | some bounds => exact mild.nameParams body

theorem mild_readOffsetSection (mild : p.Mild) (offset : Option Bound) :
    (readOffsetSection offset sql p).2.Mild := by
  rw [readOffsetSection]
  cases offsetSection? sql with
  | none => exact mild
  | some body =>
    dsimp only
    rw [noting_bind]
    cases bound? (nameParams body p).1 with
    | none => exact (mild.nameParams body).note rfl
    | some bound => exact mild.nameParams body

theorem mild_readLimitAndOffset (mild : p.Mild) : (readLimitAndOffset sql p).2.Mild := by
  rw [readLimitAndOffset, noting_bind]
  exact mild_readOffsetSection sql (mild_readLimitSection sql mild) _

theorem mild_readRowCount (mild : p.Mild) : (readRowCount sql p).2.Mild := by
  have counted : (readLimitSection sql p).2.Mild := mild_readLimitSection sql mild
  rw [readRowCount, noting_bind]
  by_cases offset : (readLimitSection sql p).1.2.isSome
  · simp only [offset, if_true]
    exact counted.note rfl
  · simp only [offset]
    exact counted

theorem recoverable_assignment? {target : TableRef} {pair : Text} {i : Issue}
    (refused : assignment? target pair = .error i) : i.isRecoverable := by
  rw [assignment?] at refused
  split at refused
  · cases refused
    rfl
  · split at refused
    · cases refused
      rfl
    · split at refused
      · cases refused
        rfl
      · cases refused

theorem mild_readPairs (target : TableRef) (pairs : List Text) (mild : p.Mild) :
    (readPairs target pairs p).2.Mild := by
  induction pairs generalizing p with
  | nil => exact mild
  | cons pair pairs ih =>
    rw [readPairs]
    cases read : assignment? target pair with
    | error i => exact ih (mild.note (recoverable_assignment? read))
    | ok a => exact ih mild

theorem mild_readAssignments (target : TableRef) (list : Text) (mild : p.Mild) :
    (readAssignments target list p).2.Mild := mild_readPairs target _ (mild.nameParams list)

end Mild
section Tables

theorem aliasFits_ofText? {f : TableFragment} (read : TableFragment.ofText? reserved t = some f) :
    f.table.AliasFits := by
  rw [TableFragment.ofText?] at read
  split at read
  · cases read
  · dsimp only at read
    split at read
    · cases read
    · split at read
      · cases read
        simp [TableRef.AliasFits]
      · split at read <;> cases read <;> simp [TableRef.AliasFits, TableRef.withAlias]

theorem recoverable_checkTrailing {f : TableFragment} {issue : Option Issue}
    (checked : f.checkTrailing clause = .ok issue) : ∀ i ∈ issue, i.isRecoverable := by
  rw [TableFragment.checkTrailing] at checked
  split at checked
  · cases checked
    simp
  · split_ifs at checked
    cases checked
    rintro i ⟨⟩
    rfl

theorem readTable_fits {table : TableRef} (ok : Gives (readTable reserved clause t) p table p')
    (mild : p.Mild) : table.AliasFits ∧ p'.Mild := by
  obtain ⟨f, issue, read, rfl, checked, rfl⟩ := readTable_ok ok
  refine ⟨aliasFits_ofText? read, mild.noteAll fun i member => recoverable_checkTrailing checked i ?_⟩
  simpa using member

theorem readTables_fits {fragments : List Text} {tables : List TableRef}
    (ok : Gives (readTables reserved clause fragments) p tables p') (mild : p.Mild) :
    tables.length = fragments.length ∧ (∀ t ∈ tables, t.AliasFits) ∧ p'.Mild := by
  induction fragments generalizing p tables with
  | nil =>
    obtain ⟨rfl, rfl⟩ := gives_pure ok
    exact ⟨rfl, by simp, mild⟩
  | cons fragment fragments ih =>
    rw [readTables] at ok
    obtain ⟨table, p₁, first, ok⟩ := gives_bind ok
    obtain ⟨more, p₂, rest, ok⟩ := gives_bind ok
    obtain ⟨rfl, rfl⟩ := gives_pure ok
    obtain ⟨fits, mildFirst⟩ := readTable_fits first mild
    obtain ⟨length, allFit, mildRest⟩ := ih rest mildFirst
    exact ⟨by simp [length], by simpa using ⟨fits, allFit⟩, mildRest⟩

theorem resolveJoins_fits {joins : List Join} {issues : List Issue}
    (ok : resolveJoins reserved t = .ok (joins, issues)) :
    (∀ j ∈ joins, j.table.AliasFits) ∧ ∀ i ∈ issues, i.isRecoverable := by
  rw [resolveJoins] at ok
  cases resolved : (joinSegments t).mapM (·.resolve reserved) with
  | error issue =>
    rw [resolved] at ok
    cases ok
  | ok pairs =>
    rw [resolved] at ok
    have eq : (pairs.map Prod.fst, pairs.filterMap Prod.snd) = (joins, issues) := Except.ok.inj ok
    obtain ⟨rfl, rfl⟩ := Prod.mk.inj eq
    have each : ∀ pair ∈ pairs, pair.1.table.AliasFits ∧ ∀ i ∈ pair.2, i.isRecoverable := by
      intro pair member
      obtain ⟨s, -, here⟩ := exists_of_mapM_ok resolved member
      obtain ⟨-, f, read, checked, table, -⟩ := resolve_ok here
      rw [table]
      exact ⟨aliasFits_ofText? read, recoverable_checkTrailing checked⟩
    constructor
    · intro j member
      obtain ⟨pair, inPairs, rfl⟩ := List.mem_map.mp member
      exact (each pair inPairs).1
    · intro i member
      obtain ⟨pair, inPairs, issue⟩ := List.mem_filterMap.mp member
      exact (each pair inPairs).2 i issue

structure Sources.Fit (s : Sources) : Prop where
  tables : ∀ t ∈ s.table :: s.extraTables ++ s.joins.map Join.table, t.AliasFits
  joined : s.joins ≠ [] → s.extraTables = []

theorem readSources_fits {many : Bool} {s : Sources} (ok : Gives (readSources reserved clause many t) p s p')
    (mild : p.Mild) : s.Fit ∧ (many = false → s.extraTables = []) ∧ p'.Mild := by
  obtain ⟨p₁, issues, single, read, resolved, mixed, rfl⟩ := readSources_ok ok
  obtain ⟨length, fits, mildTables⟩ := readTables_fits read (mild.nameParams t)
  obtain ⟨fitsJoins, recoverable⟩ := resolveJoins_fits resolved
  have alone (few : ¬(splitTop ',' (mainTables (nameParams t p).1)).length > 1) : s.extraTables = [] := by
    rw [← length, List.length_cons] at few
    exact List.eq_nil_of_length_eq_zero (by omega)
  refine ⟨⟨?_, fun joined => alone fun several => mixed ?_⟩, fun one => alone fun several => single ?_,
    mildTables.noteAll recoverable⟩
  · intro table member
    rcases List.mem_append.mp member with inFront | inJoins
    · exact fits table inFront
    · obtain ⟨j, inside, rfl⟩ := List.mem_map.mp inJoins
      exact fitsJoins j inside
  · simp [several, joined]
  · simp [several, one]

end Tables
section Conditions

/-- A chain of conditions as the builder takes it: read from the left it means what SQL reads, where
    `AND` binds tighter. -/
structure ConditionsFit (cs : List Condition) : Prop where
  full : ∀ c ∈ cs, c.text ≠ []
  chained : Chained cs
  tight : cs.Pairwise fun c d => c.connective = some .or → d.connective ≠ some .and

section FoldAnds

variable {afterOr : Bool} {last : Condition} {rest : List Condition}

theorem full_foldAnds (full : ∀ c ∈ last :: rest, c.text ≠ []) : ∀ c ∈ foldAnds afterOr last rest, c.text ≠ [] := by
  induction rest generalizing afterOr last with
  | nil => exact full
  | cons c rest ih =>
    have fullLast := full last (by simp)
    have fullRest : ∀ d ∈ c :: rest, d.text ≠ [] := fun d member => full d (List.mem_cons_of_mem _ member)
    rw [foldAnds]
    split
    · refine ih fun d member => ?_
      rcases List.mem_cons.mp member with rfl | inRest
      · simp [fullLast]
      · exact fullRest d (List.mem_cons_of_mem _ inRest)
    · intro d member
      rcases List.mem_cons.mp member with rfl | later
      · exact fullLast
      · exact ih fullRest d later

theorem foldAnds_behind_or (start : last.connective ≠ some .and) :
    ∀ c ∈ foldAnds true last rest, c.connective ≠ some .and := by
  induction rest generalizing last with
  | nil => simpa [foldAnds] using start
  | cons c rest ih =>
    rw [foldAnds]
    split
    · exact ih start
    · rename_i apart
      intro d member
      rcases List.mem_cons.mp member with rfl | later
      · exact start
      · exact ih (fun isAnd => apart ⟨rfl, isAnd⟩) d later

theorem foldAnds_tight (start : last.connective = some .or → afterOr) :
    (foldAnds afterOr last rest).Pairwise fun c d => c.connective = some .or → d.connective ≠ some .and := by
  induction rest generalizing afterOr last with
  | nil => simp [foldAnds]
  | cons c rest ih =>
    rw [foldAnds]
    split
    · exact ih start
    · rename_i apart
      refine List.pairwise_cons.mpr ⟨fun d later isOr => ?_, ih (by simp +contextual)⟩
      have after : afterOr = true := start isOr
      rw [after, Bool.true_or] at later
      exact foldAnds_behind_or (fun isAnd => apart ⟨after, isAnd⟩) d later

end FoldAnds

theorem full_conditionPieces (t : Text) : ∀ c ∈ conditionPieces t, c.text ≠ [] := by
  have kept : ∀ c ∈ (writtenPieces t).filter (·.text ≠ []), c.text ≠ [] := fun c member =>
    by simpa using (List.mem_filter.mp member).2
  rw [conditionPieces_eq]
  cases pieces : (writtenPieces t).filter (·.text ≠ []) with
  | nil => simp [opened]
  | cons first rest =>
    rw [pieces] at kept
    intro c member
    rcases List.mem_cons.mp member with rfl | inRest
    · exact kept first (by simp)
    · exact kept c (List.mem_cons_of_mem _ inRest)

theorem splitConditions_fit (t : Text) : ConditionsFit (splitConditions t) := by
  have chained := chained_splitConditions t
  by_cases empty : t = []
  · rw [empty] at chained ⊢
    exact ⟨by simp [splitConditions], chained, by simp [splitConditions]⟩
  by_cases single : isGroup t ∨ (conditionPieces t).length < 2
  · rw [splitConditions_eq_self empty single] at chained ⊢
    exact ⟨by simpa using empty, chained, by simp⟩
  · obtain ⟨noGroup, many⟩ := not_or.mp single
    have full := full_conditionPieces t
    rw [splitConditions, if_neg empty, if_neg noGroup, if_neg many] at chained ⊢
    cases pieces : conditionPieces t with
    | nil =>
      rw [pieces] at many
      exact absurd (by simp) many
    | cons first rest =>
      rw [pieces] at full chained
      exact ⟨full_foldAnds full, chained, foldAnds_tight (by simp)⟩

theorem readWhere_fit (sql : Text) (p : Progress) : ConditionsFit (readWhere sql p).1 := by
  cases found : whereSection? sql with
  | none =>
    rw [readWhere_eq_none sql p found]
    exact ⟨by simp, ⟨by simp, by simp⟩, by simp⟩
  | some body =>
    rw [readWhere_eq_some sql p found]
    exact splitConditions_fit _

end Conditions
section Clauses

namespace Clauses

def tables (c : Clauses) : List TableRef := c.table.toList ++ c.extraTables ++ c.joins.map Join.table

def FitKind (c : Clauses) : Prop :=
  match c.kind with
  | .select => c.assignments = [] ∧ c.source = none
  | .insert => c.source.isSome ∧
      ∃ name, c = { kind := .insert, table := some { table := name }, source := c.source }
  | .update => c.table.isSome ∧ c.assignments ≠ [] ∧ c = {
      kind := .update, table := c.table, joins := c.joins, conditions := c.conditions, orderBy := c.orderBy
      limit := c.limit, assignments := c.assignments }
  | .delete => c.table.isSome ∧ c = {
      kind := .delete, table := c.table, joins := c.joins, conditions := c.conditions, orderBy := c.orderBy
      limit := c.limit }

structure Fit (c : Clauses) : Prop where
  kind : c.FitKind
  tables : ∀ t ∈ c.tables, t.AliasFits
  joined : c.joins ≠ [] → c.table.isSome ∧ c.extraTables = []
  conditions : ConditionsFit c.conditions

end Clauses

variable {c : Clauses}

theorem readSelect_fit (ok : Gives (readSelect reserved sql) p c p') (mild : p.Mild) : c.Fit ∧ p'.Mild := by
  obtain ⟨distinct, list, sources, conditions, groupBy, having, orderBy, limit, offset, p₁, p₂, p₃, p₄, p₅,
    -, -, -, from_, where_, group, have_, order, bounds, rfl⟩ := readSelect_ok ok
  have fit : (∀ s, sources = some s → s.Fit) ∧ p₁.Mild := by
    rcases readFrom_ok from_ with ⟨-, rfl, rfl⟩ | ⟨body, s, -, rfl, read⟩
    · exact ⟨by simp, mild.nameParams list⟩
    · obtain ⟨fit, -, later⟩ := readSources_fits read (mild.nameParams list)
      exact ⟨by simpa using fit, later⟩
  have fitConditions : ConditionsFit conditions := by
    have fits := readWhere_fit sql p₁
    rwa [where_] at fits
  have second : p₂.Mild := by
    have later := mild_readWhere sql fit.2
    rwa [where_] at later
  have third : p₃.Mild := by
    have later := mild_readGroupBy sql second
    rwa [group] at later
  have fourth : p₄.Mild := by
    have later := mild_readHaving sql third
    rwa [have_] at later
  have fifth : p₅.Mild := by
    have later := mild_readOrderBy sql fourth
    rwa [order] at later
  have last : p'.Mild := by
    have later := mild_readLimitAndOffset sql fifth
    rwa [bounds] at later
  refine ⟨⟨⟨rfl, rfl⟩, ?_, ?_, fitConditions⟩, last⟩
  · cases sources with
    | none => simp [Clauses.tables]
    | some s => simpa [Clauses.tables] using (fit.1 s rfl).tables
  · cases sources with
    | none => simp
    | some s => simpa using (fit.1 s rfl).joined

theorem readUpdate_fit (ok : Gives (readUpdate reserved sql) p c p') (mild : p.Mild) : c.Fit ∧ p'.Mild := by
  obtain ⟨target, list, sources, assignments, conditions, orderBy, limit, p₁, p₂, p₃, p₄, -, -, read, -, pairs,
    some_, where_, order, count, rfl⟩ := readUpdate_ok ok
  obtain ⟨fit, one, first⟩ := readSources_fits read mild
  have second : p₂.Mild := by
    have later := mild_readAssignments sources.table list first
    rwa [pairs] at later
  have fitConditions : ConditionsFit conditions := by
    have fits := readWhere_fit sql p₂
    rwa [where_] at fits
  have third : p₃.Mild := by
    have later := mild_readWhere sql second
    rwa [where_] at later
  have fourth : p₄.Mild := by
    have later := mild_readOrderBy sql third
    rwa [order] at later
  have last : p'.Mild := by
    have later := mild_readRowCount sql fourth
    rwa [count] at later
  refine ⟨⟨⟨rfl, some_, rfl⟩, ?_, fun _ => ⟨rfl, rfl⟩, fitConditions⟩, last⟩
  simpa [Clauses.tables, one rfl] using fit.tables

theorem readDelete_fit (ok : Gives (readDelete reserved sql) p c p') (mild : p.Mild) : c.Fit ∧ p'.Mild := by
  obtain ⟨parts, body, sources, conditions, orderBy, limit, p₁, p₂, p₃, -, -, -, -, -, read, where_, order, count,
    rfl⟩ := readDelete_ok ok
  obtain ⟨fit, one, first⟩ := readSources_fits read mild
  have fitConditions : ConditionsFit conditions := by
    have fits := readWhere_fit sql p₁
    rwa [where_] at fits
  have second : p₂.Mild := by
    have later := mild_readWhere sql first
    rwa [where_] at later
  have third : p₃.Mild := by
    have later := mild_readOrderBy sql second
    rwa [order] at later
  have last : p'.Mild := by
    have later := mild_readRowCount sql third
    rwa [count] at later
  refine ⟨⟨⟨rfl, rfl⟩, ?_, fun _ => ⟨rfl, rfl⟩, fitConditions⟩, last⟩
  simpa [Clauses.tables, one rfl] using fit.tables

theorem mild_readInsertSource {table : TableRef} {columns : Option Text} {source : InsertSource} {body : InsertBody}
    (ok : Gives (readInsertSource sql table columns body) p source p') (mild : p.Mild) : p'.Mild := by
  cases body with
  | missing => exact absurd ok gives_refuse
  | values values =>
    rw [readInsertSource] at ok
    obtain ⟨-, -, ⟨-, -, rfl⟩ | ⟨t, -, -, -, rfl⟩⟩ := readValues_ok ok
    · exact (mild.nameParams values).note rfl
    · exact mild.nameParams values
  | set list =>
    dsimp only [readInsertSource] at ok
    obtain ⟨-, ok⟩ := gives_guard ok
    obtain ⟨assignments, p₁, pairs, ok⟩ := gives_bind ok
    obtain ⟨-, ok⟩ := gives_guard ok
    obtain ⟨rfl, rfl⟩ := gives_pure ok
    have later := mild_readAssignments table list mild
    rwa [gives_lift pairs] at later
  | query text =>
    dsimp only [readInsertSource] at ok
    obtain ⟨_, p₁, noted, ok⟩ := gives_bind ok
    obtain ⟨named, p₂, step, ok⟩ := gives_bind ok
    obtain ⟨rfl, rfl⟩ := gives_pure ok
    have first := mild.note (i := .ambiguousSyntax "INSERT ... SELECT has no setValue() equivalent"
      "rewriting the statement by hand") rfl
    rw [gives_lift noted] at first
    have second := first.nameParams text
    rwa [gives_lift step] at second

theorem readInsert_fit (ok : Gives (readInsert sql) p c p') (mild : p.Mild) : c.Fit ∧ p'.Mild := by
  obtain ⟨parts, source, -, -, -, read, rfl⟩ := readInsert_ok ok
  refine ⟨⟨⟨rfl, _, rfl⟩, by simp [Clauses.tables, TableRef.AliasFits], by simp,
    ⟨by simp, ⟨by simp, by simp⟩, by simp⟩⟩, mild_readInsertSource read mild⟩

theorem readStatement_fit {kind : StatementKind} (ok : Gives (readStatement reserved kind sql) p c p')
    (mild : p.Mild) : c.Fit ∧ p'.Mild := by
  cases kind with
  | select => exact readSelect_fit ok mild
  | insert => exact readInsert_fit ok mild
  | update => exact readUpdate_fit ok mild
  | delete => exact readDelete_fit ok mild

end Clauses

/-- One thing that a statement says, whatever its kind is. -/
inductive ClausePart where
  | fields (ts : List Text)
  | distinct
  | table (t : TableRef)
  | assignment (a : Assignment)
  | value (place : Nat) (v : Text)
  | query (columns : List Text) (t : Text)
  | join (j : Join)
  | condition (c : Condition)
  | group (field : Text)
  | having (t : Text)
  | order (o : OrderItem)
  | limit (b : Bound)
  | offset (b : Bound)

def InsertSource.parts : InsertSource → List ClausePart
  | .assignments pairs => pairs.map .assignment
  | .positional values => values.mapIdx .value
  | .query columns t => [.query columns t]

def Clauses.parts (c : Clauses) : List ClausePart :=
  (if c.fields = [] then [] else [.fields c.fields]) ++ (if c.distinct then [.distinct] else []) ++
  (c.table.toList ++ c.extraTables).map .table ++ c.assignments.map .assignment ++
  c.source.toList.flatMap InsertSource.parts ++ c.joins.map .join ++ c.conditions.map .condition ++
  c.groupBy.map .group ++ c.having.toList.map .having ++ c.orderBy.map .order ++
  c.limit.toList.map .limit ++ c.offset.toList.map .offset

namespace StatementKind

def tableMethod : StatementKind → Method
  | .select => .addFrom
  | .insert => .insert
  | .update => .update
  | .delete => .delete

def assignmentMethod : StatementKind → Method
  | .update => .set
  | .select | .insert | .delete => .setValue

end StatementKind

def conditionMethod : Option Connective → Method
  | none => .firstWhere
  | some .and => .andWhere
  | some .or => .orWhere

def TableRef.name (t : TableRef) : Text := t.aliasName.getD t.table

def ClausePart.call (kind : StatementKind) (main : Option Text) : ClausePart → Call
  | .fields ts => ⟨.select, ts.map .str⟩
  | .distinct => ⟨.distinct, []⟩
  | .table t => ⟨kind.tableMethod, .str t.table :: t.aliasName.toList.map .str⟩
  | .assignment a => ⟨kind.assignmentMethod, [.str a.column, .ofValue a.value]⟩
  | .value place v => ⟨.setValue, [.int place, .ofValue v]⟩
  | .query columns t => ⟨.manualReview, [.str (queryLabel columns), .str t]⟩
  | .join j => ⟨j.kind.method,
      main.toList.map .str ++ [.str j.table.table, .str j.table.name] ++ j.condition.toList.map .str⟩
  | .condition c => ⟨conditionMethod c.connective, [.str c.text]⟩
  | .group field => ⟨.addGroupBy, [.str field]⟩
  | .having t => ⟨.having, [.str t]⟩
  | .order o => ⟨.addOrderBy, [.str o.field, .str o.direction.word]⟩
  | .limit b => ⟨.setMaxResults, [b.arg]⟩
  | .offset b => ⟨.setFirstResult, [b.arg]⟩

section Calls

variable {c : Clauses} {t : TableRef} {kind : StatementKind} {main : Option Text}

theorem TableRef.AliasFits.writtenAlias?_eq (fits : t.AliasFits) : t.writtenAlias? = t.aliasName := by
  rw [AliasFits] at fits
  rw [writtenAlias?]
  split
  · rfl
  · rename_i unwritten
    cases named : t.aliasName with
    | none => rfl
    | some name => exact absurd (fits.mpr (by simp [named])) unwritten

theorem TableRef.AliasFits.reference_eq (fits : t.AliasFits) : t.reference = t.name := by
  rw [reference, name, fits.writtenAlias?_eq]

theorem TableRef.AliasFits.tableCall_eq (fits : t.AliasFits) :
    tableCall kind.tableMethod t = ClausePart.call kind main (.table t) := by
  rw [tableCall, fits.writtenAlias?_eq]
  rfl

theorem conditionCalls_eq (kind : StatementKind) (main : Option Text) {cs : List Condition} (chained : Chained cs) :
    conditionCalls cs = cs.map fun c => ClausePart.call kind main (.condition c) := by
  cases cs with
  | nil => rfl
  | cons first rest =>
    have start : first.connective = none := chained.first first rfl
    rw [conditionCalls, List.map_cons]
    congr 1
    · rw [ClausePart.call, start]
      rfl
    · refine List.map_congr_left fun c member => ?_
      have connected := chained.later c member
      rw [laterConditionCall, ClausePart.call]
      cases connective : c.connective with
      | none => exact absurd connective connected
      | some k => cases k <;> rfl

theorem Clauses.Fit.joinCalls_eq (fit : c.Fit) (kind : StatementKind) :
    c.joinCalls = c.joins.map fun j => ClausePart.call kind (c.table.map TableRef.name) (.join j) := by
  by_cases none : c.joins = []
  · rw [none, joinCalls]
    cases c.mainReference? <;> simp [none]
  · obtain ⟨main, table⟩ := Option.isSome_iff_exists.mp (fit.joined none).1
    have fits (t : TableRef) (member : t ∈ c.tables) := (fit.tables t member).reference_eq
    rw [joinCalls, mainReference?, table, Option.map_some]
    refine List.map_congr_left fun j member => ?_
    have inJoins : j.table ∈ c.joins.map Join.table := List.mem_map_of_mem member
    rw [joinCall, ClausePart.call, fits main (by simp [Clauses.tables, table]),
      fits j.table (by simp [Clauses.tables, inJoins])]
    rfl

theorem InsertSource.calls_eq (s : InsertSource) : s.calls = s.parts.map (ClausePart.call .insert main) := by
  cases s with
  | assignments pairs => simp [calls, parts, assignmentCall, ClausePart.call, StatementKind.assignmentMethod]
  | positional values =>
    rw [calls, parts, positionalCalls]
    exact List.ext_getElem (by simp) fun i first second => by simp [ClausePart.call]
  | query columns t => rfl

theorem Clauses.map_parts (f : ClausePart → Call) (c : Clauses) : c.parts.map f =
    (if c.fields = [] then [] else [f (.fields c.fields)]) ++ (if c.distinct then [f .distinct] else []) ++
    (c.table.toList ++ c.extraTables).map (f <| .table ·) ++ c.assignments.map (f <| .assignment ·) ++
    c.source.toList.flatMap (·.parts.map f) ++ c.joins.map (f <| .join ·) ++
    c.conditions.map (f <| .condition ·) ++ c.groupBy.map (f <| .group ·) ++
    c.having.toList.map (f <| .having ·) ++ c.orderBy.map (f <| .order ·) ++ c.limit.toList.map (f <| .limit ·) ++
    c.offset.toList.map (f <| .offset ·) := by
  simp only [parts, List.map_append, List.map_map, List.map_flatMap, apply_ite (List.map f), List.map_cons,
    List.map_nil, Function.comp_def]

/-- There is exactly one call for each part of a statement, in the order of the parts. -/
theorem Clauses.Fit.calls_eq (fit : c.Fit) :
    c.calls = c.parts.map (ClausePart.call c.kind (c.table.map TableRef.name)) := by
  have joins := fit.joinCalls_eq c.kind
  have conditions := conditionCalls_eq c.kind (c.table.map TableRef.name) fit.conditions.chained
  have tables : (c.table.toList ++ c.extraTables).map (tableCall c.kind.tableMethod) =
      (c.table.toList ++ c.extraTables).map
        fun t => ClausePart.call c.kind (c.table.map TableRef.name) (.table t) :=
    List.map_congr_left fun t member =>
      (fit.tables t (List.mem_append_left _ member)).tableCall_eq
  have fitKind := fit.kind
  rw [FitKind] at fitKind
  rw [map_parts, ← joins, ← conditions, ← tables, calls]
  cases kind : c.kind with
  | select =>
    simp only [kind] at fitKind
    rw [fitKind.1, fitKind.2, selectCalls]
    simp only [List.map_nil, Option.toList_none, List.flatMap_nil, List.append_nil]
    rfl
  | insert =>
    simp only [kind] at fitKind
    obtain ⟨-, name, others⟩ := fitKind
    have source : c.source.toList.flatMap InsertSource.calls =
        c.source.toList.flatMap (·.parts.map (ClausePart.call .insert (c.table.map TableRef.name))) :=
      List.flatMap_congr fun s _ => s.calls_eq
    rw [joins, insertCalls, source, congrArg Clauses.table others, congrArg Clauses.fields others,
      congrArg Clauses.distinct others, congrArg Clauses.extraTables others, congrArg Clauses.assignments others,
      congrArg Clauses.joins others, congrArg Clauses.conditions others, congrArg Clauses.groupBy others,
      congrArg Clauses.having others, congrArg Clauses.orderBy others, congrArg Clauses.limit others,
      congrArg Clauses.offset others]
    simp [conditionCalls, tableCall, TableRef.writtenAlias?, StatementKind.tableMethod]
  | update =>
    simp only [kind] at fitKind
    obtain ⟨-, -, others⟩ := fitKind
    rw [updateCalls, congrArg Clauses.fields others, congrArg Clauses.distinct others,
      congrArg Clauses.extraTables others, congrArg Clauses.source others, congrArg Clauses.groupBy others,
      congrArg Clauses.having others, congrArg Clauses.offset others]
    simp [tableCalls, orderCalls, limitCalls, ClausePart.call, StatementKind.assignmentMethod]
    rfl
  | delete =>
    simp only [kind] at fitKind
    obtain ⟨-, others⟩ := fitKind
    rw [deleteCalls, congrArg Clauses.fields others, congrArg Clauses.distinct others,
      congrArg Clauses.extraTables others, congrArg Clauses.source others, congrArg Clauses.groupBy others,
      congrArg Clauses.having others, congrArg Clauses.offset others, congrArg Clauses.assignments others]
    simp [tableCalls, orderCalls, limitCalls, ClausePart.call, StatementKind.tableMethod]

end Calls

/-- What holds of every conversion of a statement. -/
structure Conversion.WellFormed (sql : Text) (c : Conversion) : Prop where
  outcome : c.outcome = .success ∨
    ∃ issues, issues ≠ [] ∧ (∀ i ∈ issues, i.isRecoverable) ∧ c.outcome = .partialSuccess issues
  kind : c.kind = c.clauses.kind
  paramCount : c.paramCount = placeholders sql
  clauses : c.clauses.Fit
  calls : c.calls = c.clauses.parts.map (ClausePart.call c.kind (c.clauses.table.map TableRef.name))

/-- Every conversion is well formed, and each part of what was read is passed on in one call. -/
theorem conversion_well_formed {c : Conversion} (ok : convert reserved sql = .ok c) : c.WellFormed sql := by
  obtain ⟨p, converted⟩ := convert_ok ok
  obtain ⟨fit, mild⟩ := readStatement_fit converted.read (by simp [Progress.Mild])
  have kind := kind_of_read converted.read
  refine ⟨?_, kind.symm, converted.paramCount, fit, ?_⟩
  · rw [converted.outcome, Progress.outcome]
    by_cases noted : p.issues = []
    · exact .inl (if_pos noted)
    · exact .inr ⟨p.issues, noted, mild, if_neg noted⟩
  · rw [converted.calls, ← kind]
    exact fit.calls_eq

def joinedUpdate : Text := "UPDATE t a LEFT JOIN u ON a.x = u.x SET a.y = ?, z WHERE v = 1 OR w AND NOT b"

theorem conversion_well_formed_joinedUpdate : ∃ c, convert default joinedUpdate = .ok c ∧ c.isPartial ∧
    c.calls.map Call.method = [.update, .set, .leftJoin, .firstWhere, .orWhere] ∧ c.WellFormed joinedUpdate := by
  have chars : joinedUpdate = _ := String.toList_ofList
  have facts : (convert default joinedUpdate).map (fun c => (c.isPartial, c.calls.map Call.method)) =
      .ok (true, [.update, .set, .leftJoin, .firstWhere, .orWhere]) := by
    rw [chars]
    decide +kernel
  cases ok : convert default joinedUpdate with
  | error issue =>
    rw [ok] at facts
    cases facts
  | ok c =>
    rw [ok] at facts
    obtain ⟨isPartial, methods⟩ := Prod.mk.inj (Except.ok.inj facts)
    exact ⟨c, rfl, isPartial, methods, conversion_well_formed ok⟩

end QueryChain
