import QueryChain.Proofs.Statement.WellFormed

namespace QueryChain

variable {reserved : ReservedWords} {w sql clause t : Text} {p p' : Progress}

def TableRef.Avoids (w : Text) (t : TableRef) : Prop := ∀ a ∈ t.aliasName, ¬sameLetters a (trim w)

/-- The alias, if there is one, is none of the reserved words. -/
def TableRef.AliasAllowed (reserved : ReservedWords) (t : TableRef) : Prop :=
  ∀ a ∈ t.aliasName, reserved.contains a = false

def Sources.tables (s : Sources) : List TableRef := s.table :: s.extraTables ++ s.joins.map Join.table

section Words

variable {a : Text}

theorem ReservedWords.contains_insert_other (other : ¬sameLetters a (trim w)) :
    (reserved.insert w).contains a = reserved.contains a := by
  rw [insert]
  split
  · rfl
  · have apart : upper a ≠ key w := fun same => other (sameLetters_iff.mpr same)
    rw [Bool.eq_iff_iff, contains, contains, List.contains_iff_mem, List.contains_iff_mem, mem_insertSorted]
    simp [apart]

theorem acceptsAlias_insert_other (other : ¬sameLetters a (trim w)) :
    acceptsAlias (reserved.insert w) a = acceptsAlias reserved a := by
  rw [acceptsAlias, acceptsAlias, ReservedWords.contains_insert_other other]

theorem acceptsAlias_of_insert (accepted : acceptsAlias (reserved.insert w) a) : acceptsAlias reserved a := by
  cases barred : reserved.contains a with
  | true => simp [acceptsAlias, ReservedWords.contains_insert reserved w a barred] at accepted
  | false => simp_all [acceptsAlias]

end Words
section Fragments

variable {f : TableFragment}

/-- The reserved words are asked at one place only, and only for what would be an alias. -/
theorem ofText?_insert (read : TableFragment.ofText? reserved t = some f) (avoids : f.table.Avoids w) :
    TableFragment.ofText? (reserved.insert w) t = some f := by
  rw [TableFragment.ofText?] at read ⊢
  split at read
  · cases read
  · rename_i name rest words
    dsimp only at read ⊢
    split at read
    · cases read
    · rename_i isName
      rw [if_neg isName]
      cases candidate : aliasCandidate? rest with
      | none =>
        rw [candidate] at read
        exact read
      | some found =>
        obtain ⟨token, more⟩ := found
        rw [candidate] at read
        dsimp only at read ⊢
        by_cases accepted : acceptsAlias reserved (plainName token)
        · rw [if_pos accepted] at read
          cases read
          rw [acceptsAlias_insert_other (avoids (plainName token) rfl), if_pos accepted]
        · rw [if_neg accepted] at read
          rw [if_neg fun later => accepted (acceptsAlias_of_insert later)]
          exact read

theorem aliasAllowed_ofText? (read : TableFragment.ofText? reserved t = some f) :
    f.table.AliasAllowed reserved := by
  rw [TableFragment.ofText?] at read
  split at read
  · cases read
  · dsimp only at read
    split at read
    · cases read
    · split at read
      · cases read
        simp [TableRef.AliasAllowed]
      · split at read
        · rename_i accepted
          cases read
          simp only [acceptsAlias, Bool.and_eq_true, Bool.not_eq_true'] at accepted
          simpa [TableRef.AliasAllowed, TableRef.withAlias] using accepted.1.2
        · cases read
          simp [TableRef.AliasAllowed]

end Fragments
section Joins

variable {s : JoinSegment} {join : Join} {issue : Option Issue} {joins : List Join} {issues : List Issue}

theorem resolve_insert (ok : s.resolve reserved = .ok (join, issue)) (avoids : join.table.Avoids w) :
    s.resolve (reserved.insert w) = .ok (join, issue) := by
  obtain ⟨-, f, read, -, table, -⟩ := resolve_ok ok
  rw [table] at avoids
  rw [← ok, JoinSegment.resolve, JoinSegment.resolve, read, ofText?_insert read avoids]

theorem resolveJoins_insert (ok : resolveJoins reserved t = .ok (joins, issues))
    (avoids : ∀ j ∈ joins, j.table.Avoids w) :
    resolveJoins (reserved.insert w) t = .ok (joins, issues) := by
  rw [resolveJoins] at ok ⊢
  cases resolved : (joinSegments t).mapM (·.resolve reserved) with
  | error i =>
    rw [resolved] at ok
    cases ok
  | ok pairs =>
    rw [resolved] at ok
    have eq : (pairs.map Prod.fst, pairs.filterMap Prod.snd) = (joins, issues) := Except.ok.inj ok
    obtain ⟨rfl, rfl⟩ := Prod.mk.inj eq
    have again : (joinSegments t).mapM (·.resolve (reserved.insert w)) = .ok pairs := by
      refine mapM_ok_congr resolved fun s pair member read => ?_
      exact resolve_insert read (avoids pair.1 (List.mem_map_of_mem member))
    rw [again]
    exact ok

theorem aliasAllowed_resolveJoins (ok : resolveJoins reserved t = .ok (joins, issues)) :
    ∀ j ∈ joins, j.table.AliasAllowed reserved := by
  rw [resolveJoins] at ok
  cases resolved : (joinSegments t).mapM (·.resolve reserved) with
  | error i =>
    rw [resolved] at ok
    cases ok
  | ok pairs =>
    rw [resolved] at ok
    have eq : (pairs.map Prod.fst, pairs.filterMap Prod.snd) = (joins, issues) := Except.ok.inj ok
    obtain ⟨rfl, rfl⟩ := Prod.mk.inj eq
    intro j member
    obtain ⟨pair, inPairs, rfl⟩ := List.mem_map.mp member
    obtain ⟨s, -, read⟩ := exists_of_mapM_ok resolved inPairs
    obtain ⟨-, f, parsed, -, table, -⟩ := resolve_ok read
    rw [table]
    exact aliasAllowed_ofText? parsed

end Joins
section Tables

variable {fragments : List Text} {table : TableRef} {tables : List TableRef} {many : Bool} {s : Sources}

theorem readTable_insert (ok : Gives (readTable reserved clause t) p table p') (avoids : table.Avoids w) :
    readTable (reserved.insert w) clause t = readTable reserved clause t := by
  obtain ⟨f, issue, read, rfl, -, -⟩ := readTable_ok ok
  rw [readTable, readTable, read, ofText?_insert read avoids]

theorem readTables_insert (ok : Gives (readTables reserved clause fragments) p tables p')
    (avoids : ∀ t ∈ tables, t.Avoids w) :
    readTables (reserved.insert w) clause fragments = readTables reserved clause fragments := by
  induction fragments generalizing p tables with
  | nil => rfl
  | cons fragment fragments ih =>
    rw [readTables] at ok
    obtain ⟨table, p₁, first, ok⟩ := gives_bind ok
    obtain ⟨more, p₂, rest, ok⟩ := gives_bind ok
    obtain ⟨rfl, rfl⟩ := gives_pure ok
    rw [readTables, readTables, readTable_insert first (avoids table (by simp)),
      ih rest fun t member => avoids t (by simp [member])]

theorem aliasAllowed_readTables (ok : Gives (readTables reserved clause fragments) p tables p') :
    ∀ t ∈ tables, t.AliasAllowed reserved := by
  induction fragments generalizing p tables with
  | nil =>
    obtain ⟨rfl, rfl⟩ := gives_pure ok
    simp
  | cons fragment fragments ih =>
    rw [readTables] at ok
    obtain ⟨table, p₁, first, ok⟩ := gives_bind ok
    obtain ⟨more, p₂, rest, ok⟩ := gives_bind ok
    obtain ⟨rfl, rfl⟩ := gives_pure ok
    obtain ⟨f, issue, read, rfl, -, -⟩ := readTable_ok first
    simpa using ⟨aliasAllowed_ofText? read, ih rest⟩

theorem readSources_insert (ok : Gives (readSources reserved clause many t) p s p')
    (avoids : ∀ t ∈ s.tables, t.Avoids w) : Gives (readSources (reserved.insert w) clause many t) p s p' := by
  obtain ⟨p₁, issues, -, read, resolved, -, -⟩ := readSources_ok ok
  have tables := readTables_insert read fun t member => avoids t (List.mem_append_left _ member)
  have joins := resolveJoins_insert resolved fun j member =>
    avoids j.table (List.mem_append_right _ (List.mem_map_of_mem member))
  rw [Gives, ← ok, readSources, readSources]
  refine run_bind_congr rfl fun named p₂ step => ?_
  rw [(gives_lift step : nameParams t p = (named, p₂))] at tables joins resolved
  simp only [tables, joins, resolved]

theorem mem_tables_of_single {u : TableRef} (member : u = s.table ∨ ∃ j ∈ s.joins, j.table = u) :
    u ∈ s.tables := by
  rcases member with rfl | ⟨j, inside, rfl⟩
  · exact List.mem_append_left _ List.mem_cons_self
  · exact List.mem_append_right _ (List.mem_map_of_mem inside)

theorem aliasAllowed_readSources (ok : Gives (readSources reserved clause many t) p s p') :
    ∀ t ∈ s.tables, t.AliasAllowed reserved := by
  obtain ⟨p₁, issues, -, read, resolved, -, -⟩ := readSources_ok ok
  intro table member
  rcases List.mem_append.mp member with inFront | inJoins
  · exact aliasAllowed_readTables read table inFront
  · obtain ⟨j, inside, rfl⟩ := List.mem_map.mp inJoins
    exact aliasAllowed_resolveJoins resolved j inside

end Tables
section Statements

variable {c : Clauses} {kind : StatementKind}

theorem readSelect_insert (ok : Gives (readSelect reserved sql) p c p') (avoids : ∀ t ∈ c.tables, t.Avoids w) :
    Gives (readSelect (reserved.insert w) sql) p c p' := by
  obtain ⟨distinct, list, sources, conditions, groupBy, having, orderBy, limit, offset, p₁, p₂, p₃, p₄, p₅,
    unlocked, selected, full, from_, -, -, -, -, -, rfl⟩ := readSelect_ok ok
  have same : (readFrom (reserved.insert w) sql).run (nameParams list p).2 =
      (readFrom reserved sql).run (nameParams list p).2 := by
    rcases readFrom_ok from_ with ⟨missing, -, -⟩ | ⟨body, s, found, rfl, read⟩
    · rw [readFrom, readFrom, missing]
    · rw [readFrom, readFrom, found]
      have again := readSources_insert read fun t member => avoids t (by
        simpa [Clauses.tables, Sources.tables] using member)
      exact run_bind_congr (again.trans read.symm) fun _ _ _ => rfl
  rw [Gives, ← ok, readSelect, readSelect, unlocked]
  refine run_bind_congr rfl fun found p₀ step => ?_
  obtain ⟨section_, rfl⟩ := gives_require step
  rw [selected] at section_
  cases (Option.filter_eq_some_iff.mp section_).1
  refine run_bind_congr rfl fun fields p₀ step => ?_
  rw [(gives_lift step : nameParams list p = (fields, p₀))] at same
  exact run_bind_congr same fun _ _ _ => rfl

theorem readUpdate_insert (ok : Gives (readUpdate reserved sql) p c p') (mild : p.Mild)
    (avoids : ∀ t ∈ c.tables, t.Avoids w) : Gives (readUpdate (reserved.insert w) sql) p c p' := by
  obtain ⟨target, list, sources, assignments, conditions, orderBy, limit, p₁, p₂, p₃, p₄, found, -, read, -, -, -,
    -, -, -, rfl⟩ := readUpdate_ok ok
  have alone := (readSources_fits read mild).2.1 rfl
  have again := readSources_insert read fun t member =>
    avoids t (by simpa [Clauses.tables, Sources.tables, alone] using member)
  rw [Gives, ← ok, readUpdate, readUpdate]
  refine run_bind_congr rfl fun body p₀ step => ?_
  obtain ⟨section_, rfl⟩ := gives_require step
  rw [found] at section_
  cases (Option.filter_eq_some_iff.mp section_).1
  exact run_bind_congr (again.trans read.symm) fun _ _ _ => rfl

theorem readDelete_insert (ok : Gives (readDelete reserved sql) p c p') (mild : p.Mild)
    (avoids : ∀ t ∈ c.tables, t.Avoids w) : Gives (readDelete (reserved.insert w) sql) p c p' := by
  obtain ⟨parts, body, sources, conditions, orderBy, limit, p₁, p₂, p₃, found, foundBody, -, single, noUsing, read,
    -, -, -, rfl⟩ := readDelete_ok ok
  have alone := (readSources_fits read mild).2.1 rfl
  have again := readSources_insert read fun t member =>
    avoids t (by simpa [Clauses.tables, Sources.tables, alone] using member)
  rw [Gives, ← ok, readDelete, readDelete]
  refine run_bind_congr rfl fun parts' p₀ step => ?_
  obtain ⟨there, rfl⟩ := gives_require step
  cases found.symm.trans there
  refine run_bind_congr rfl fun body' p₀ step => ?_
  obtain ⟨section_, rfl⟩ := gives_require step
  rw [foundBody] at section_
  cases (Option.filter_eq_some_iff.mp section_).1
  rw [if_neg single, if_neg single]
  rw [if_neg noUsing, if_neg noUsing]
  exact run_bind_congr (again.trans read.symm) fun _ _ _ => rfl

theorem readStatement_insert (ok : Gives (readStatement reserved kind sql) p c p') (mild : p.Mild)
    (avoids : ∀ t ∈ c.tables, t.Avoids w) : Gives (readStatement (reserved.insert w) kind sql) p c p' := by
  cases kind with
  | select => exact readSelect_insert ok avoids
  | insert => exact ok
  | update => exact readUpdate_insert ok mild avoids
  | delete => exact readDelete_insert ok mild avoids

theorem aliasAllowed_readStatement (ok : Gives (readStatement reserved kind sql) p c p') :
    ∀ t ∈ c.tables, t.AliasAllowed reserved := by
  cases kind with
  | select =>
    obtain ⟨distinct, list, sources, conditions, groupBy, having, orderBy, limit, offset, p₁, p₂, p₃, p₄, p₅,
      -, -, -, from_, -, -, -, -, -, rfl⟩ := readSelect_ok ok
    rcases readFrom_ok from_ with ⟨-, rfl, -⟩ | ⟨body, s, -, rfl, read⟩
    · simp [Clauses.tables]
    · simpa [Clauses.tables, Sources.tables] using aliasAllowed_readSources read
  | insert =>
    obtain ⟨parts, source, -, -, -, -, rfl⟩ := readInsert_ok ok
    simp [Clauses.tables, TableRef.AliasAllowed]
  | update =>
    obtain ⟨target, list, sources, assignments, conditions, orderBy, limit, p₁, p₂, p₃, p₄, -, -, read, -, -, -,
      -, -, -, rfl⟩ := readUpdate_ok ok
    intro t member
    exact aliasAllowed_readSources read t (mem_tables_of_single (by simpa [Clauses.tables] using member))
  | delete =>
    obtain ⟨parts, body, sources, conditions, orderBy, limit, p₁, p₂, p₃, -, -, -, -, -, read, -, -, -, rfl⟩ :=
      readDelete_ok ok
    intro t member
    exact aliasAllowed_readSources read t (mem_tables_of_single (by simpa [Clauses.tables] using member))

end Statements

/-- A word that is added to the reserved ones changes no conversion in which no table goes by it, and no
    table of any conversion goes by a reserved word. -/
theorem reserving_bars_aliases_only {c : Conversion} (ok : convert reserved sql = .ok c) :
    ((∀ t ∈ c.clauses.tables, ∀ a ∈ t.aliasName, ¬sameLetters a (trim w)) →
      convert (reserved.insert w) sql = .ok c) ∧
    ∀ t ∈ c.clauses.tables, ∀ a ∈ t.aliasName, reserved.contains a = false := by
  obtain ⟨p, converted⟩ := convert_ok ok
  refine ⟨fun avoids => ?_, aliasAllowed_readStatement converted.read⟩
  have again := readStatement_insert converted.read (by simp [Progress.Mild]) avoids
  have same : (readStatement (reserved.insert w) c.kind (normalize sql)).run {} =
      (readStatement reserved c.kind (normalize sql)).run {} := again.trans converted.read.symm
  rw [← ok, convert, convert, converted.balanced]
  simp only [converted.kind, bind, Except.bind, same]

def joinedQuery : Text := "SELECT x.a FROM users x JOIN orders AS o ON x.id = o.user WHERE x.id = ?"

def joinedAliases : List (Option Text) := [some "x".toList, some "o".toList]

/-- The reserved word may be the name of a table, as long as no table has it for an alias. -/
theorem reserving_bars_aliases_only_tableName : ∃ c, convert default joinedQuery = .ok c ∧
    c.clauses.tables.map TableRef.aliasName = joinedAliases ∧
    convert (ReservedWords.insert default " Users ") joinedQuery = .ok c := by
  have chars : joinedQuery = _ := String.toList_ofList
  have facts : (convert default joinedQuery).map (·.clauses.tables.map TableRef.aliasName) = .ok joinedAliases := by
    rw [chars]
    decide +kernel
  cases ok : convert default joinedQuery with
  | error issue =>
    rw [ok] at facts
    cases facts
  | ok c =>
    rw [ok] at facts
    have names : c.clauses.tables.map TableRef.aliasName = joinedAliases := Except.ok.inj facts
    refine ⟨c, rfl, names, (reserving_bars_aliases_only ok).1 fun t member a alias_ => ?_⟩
    have inAliases : some a ∈ joinedAliases := names ▸ List.mem_map.mpr ⟨t, member, alias_⟩
    have one : a = "x".toList ∨ a = "o".toList := by simpa [joinedAliases] using inAliases
    rcases one with rfl | rfl <;> decide

end QueryChain
