import QueryChain.Proofs.Woven.Reading
import QueryChain.Proofs.Woven.Sections

namespace QueryChain

section Names

variable {w : Weave} {t u : Text} {kind : StatementKind}

def writtenNames : StatementKind → Text → List Text
  | .delete, sql => (deleteParts? sql).toList.flatMap (·.targets)
  | .insert, sql => (insertParts? sql).toList.flatMap fun parts =>
    parts.table :: parts.columns.toList.flatMap fun list => splitTop ',' (groupBody list)
  | _, _ => []

def statementNames (kind : StatementKind) (sql : Text) : List Text :=
  (sourceText? kind sql).toList.flatMap placeNames ++
    ((assignmentText? kind sql).toList.flatMap columnTexts ++ writtenNames kind sql)

theorem Woven.placeNames (woven : Woven w {} t u) : List.Forall₂ (Woven w {}) (placeNames t) (placeNames u) :=
  List.rel_flatMap woven.tablePlaces fun _ _ => Woven.nameTokens

theorem Woven.columnTexts (woven : Woven w {} t u) : List.Forall₂ (Woven w {}) (columnTexts t) (columnTexts u) :=
  forall₂_filterMap (woven.splitTop (by decide)) fun _ _ pair =>
    rel_map (rel_cutTop? (by decide) pair) fun _ _ parts => parts.1

theorem rel_sourceText? (woven : Woven w {} t u) (kind : StatementKind) :
    Option.Rel (Woven w {}) (sourceText? kind t) (sourceText? kind u) := by
  have from_ (n : Nat) : Option.Rel (Woven w {}) ((fromSection? t).map (numbered n)) ((fromSection? u).map (numbered n)) :=
    rel_map (rel_section? (by decide) (by decide) woven) fun _ _ same => same.numbered n
  cases kind with
  | select =>
    have list := rel_selectSection? woven
    rw [sourceText?, sourceText?]
    generalize selectSection? t = o at list
    generalize selectSection? u = o' at list
    cases list with
    | none => exact .none
    | some same =>
      rw [Option.bind_some, Option.bind_some, same.2.placeholders_eq]
      exact from_ _
  | insert => exact .none
  | update => exact rel_map (rel_updateTarget? woven) fun _ _ same => same.numbered 0
  | delete => exact from_ 0

theorem rel_assignmentText? (woven : Woven w {} t u) (kind : StatementKind) :
    Option.Rel (Woven w {}) (assignmentText? kind t) (assignmentText? kind u) := by
  cases kind with
  | select => exact .none
  | delete => exact .none
  | update =>
    have target := rel_updateTarget? woven
    rw [assignmentText?, assignmentText?]
    generalize updateTarget? t = o at target
    generalize updateTarget? u = o' at target
    cases target with
    | none => exact .none
    | some same =>
      rw [Option.bind_some, Option.bind_some, same.placeholders_eq]
      exact rel_map (rel_section? (by decide) (by decide) woven) fun _ _ list => list.numbered _
  | insert =>
    have parts := rel_insertParts? woven
    rw [assignmentText?, assignmentText?]
    generalize insertParts? t = o at parts
    generalize insertParts? u = o' at parts
    cases parts with
    | none => exact .none
    | @some p p' same =>
      have body := same.body
      rw [Option.bind_some, Option.bind_some]
      generalize p.body = b at body
      generalize p'.body = b' at body
      cases body with
      | set list => exact .some (list.numbered 0)
      | values | query | missing => exact .none

theorem Woven.writtenNames (woven : Woven w {} t u) (kind : StatementKind) :
    List.Forall₂ (Woven w {}) (writtenNames kind t) (writtenNames kind u) := by
  cases kind with
  | select => exact .nil
  | update => exact .nil
  | delete => exact List.rel_flatMap (forall₂_toList (rel_deleteParts? woven)) fun _ _ same => same.targets
  | insert =>
    refine List.rel_flatMap (forall₂_toList (rel_insertParts? woven)) fun _ _ same => .cons same.table ?_
    exact List.rel_flatMap (forall₂_toList same.columns) fun _ _ list => list.groupBody.splitTop (by decide)

theorem Woven.statementNames (woven : Woven w {} t u) (kind : StatementKind) :
    List.Forall₂ (Woven w {}) (statementNames kind t) (statementNames kind u) :=
  List.rel_append (List.rel_flatMap (forall₂_toList (rel_sourceText? woven kind)) fun _ _ => Woven.placeNames)
    (List.rel_append (List.rel_flatMap (forall₂_toList (rel_assignmentText? woven kind)) fun _ _ => Woven.columnTexts)
      (woven.writtenNames kind))

structure Weave.Names (w : Weave) (kind : StatementKind) (t u : Text) : Prop where
  places : List.Forall₂ w.Bare ((sourceText? kind t).toList.flatMap QueryChain.placeNames)
    ((sourceText? kind u).toList.flatMap QueryChain.placeNames)
  columns : List.Forall₂ w.Bare ((assignmentText? kind t).toList.flatMap QueryChain.columnTexts)
    ((assignmentText? kind u).toList.flatMap QueryChain.columnTexts)
  written : List.Forall₂ w.Bare (QueryChain.writtenNames kind t) (QueryChain.writtenNames kind u)

theorem Woven.names (woven : Woven w {} t u)
    (same : List.Forall₂ w.Bare (QueryChain.statementNames kind t) (QueryChain.statementNames kind u)) :
    w.Names kind t u := by
  have places := List.rel_flatMap (forall₂_toList (rel_sourceText? woven kind)) fun _ _ => Woven.placeNames
  have columns := List.rel_flatMap (forall₂_toList (rel_assignmentText? woven kind)) fun _ _ => Woven.columnTexts
  obtain ⟨first, rest⟩ := forall₂_split places.length_eq same
  obtain ⟨second, third⟩ := forall₂_split columns.length_eq rest
  exact ⟨first, second, third⟩

end Names
section Readers

variable {w : Weave} {t u : Text} {n : Nat} {reserved : ReservedWords}

theorem rel_filter {α β : Type} {R : α → β → Prop} {p : α → Bool} {q : β → Bool} {o : Option α} {o' : Option β}
    (related : Option.Rel R o o') (same : ∀ a b, R a b → p a = q b) : Option.Rel R (o.filter p) (o'.filter q) := by
  cases related with
  | none => exact .none
  | @some a b first =>
    rw [Option.filter_some, Option.filter_some, same a b first]
    split
    · exact .some first
    · exact .none

theorem Woven.full_eq (woven : Woven w {} t u) : decide (t ≠ []) = decide (u ≠ []) := by
  simp only [ne_eq, woven.nil_iff]

theorem alike_readFrom (woven : Woven w {} t u)
    (names : ∀ body ∈ fromSection? t, ∀ body' ∈ fromSection? u,
      List.Forall₂ w.Bare (placeNames (numbered n body)) (placeNames (numbered n body'))) :
    Reading.Alike n (Option.Rel w.Sources) (readFrom reserved t) (readFrom reserved u) := by
  have found : Option.Rel (Woven w {}) (fromSection? t) (fromSection? u) := rel_section? (by decide) (by decide) woven
  rw [readFrom, readFrom]
  generalize fromSection? t = o at found names
  generalize fromSection? u = o' at found names
  cases found with
  | none => exact .pure .none
  | some body =>
    exact .bind (alike_readSources true body (names _ rfl _ rfl)) fun _ _ _ _ _ _ sources => .pure (.some sources)

theorem alike_readSelect (woven : Woven w {} t u) (normal : w.quiet → IsNormal t) (nameless : w.Nameless t u)
    (names : w.Names .select t u) : Reading.Alike 0 w.Clauses (readSelect reserved t) (readSelect reserved u) := by
  have locking : lockingKeywords.find? (hasKeyword · t) = lockingKeywords.find? (hasKeyword · u) := by
    simp only [lockingKeywords, List.find?_cons, List.find?_nil, woven.hasKeyword (k := ["FOR", "UPDATE"]) (by decide),
      woven.hasKeyword (k := ["LOCK", "IN", "SHARE", "MODE"]) (by decide),
        woven.hasKeyword (k := ["FOR", "SHARE"]) (by decide)]
  dsimp only [readSelect]
  rw [locking]
  cases lockingKeywords.find? (hasKeyword · u) with
  | some keyword => exact .refused rfl
  | none =>
    have list := rel_filter (p := (decide <| ·.2 ≠ [])) (q := (decide <| ·.2 ≠ [])) (rel_selectSection? woven)
      fun a b same => same.2.full_eq
    refine .bind (.require list rfl) fun r r' p p₁ start given related => ?_
    obtain ⟨-, rfl⟩ := gives_require given
    obtain ⟨left, right, distinct, list⟩ := related
    have found := (Option.filter_eq_some_iff.mp left).1
    have found' := (Option.filter_eq_some_iff.mp right).1
    refine .nameParams list (.bind (alike_readFrom woven ?_) fun s s' _ _ _ _ sources => ?_)
    · intro body inside body' inside'
      have places := names.places
      rw [sourceText?, sourceText?, found, found', Option.bind_some, Option.bind_some, Option.mem_def.mp inside,
        Option.mem_def.mp inside', ← list.placeholders_eq] at places
      rw [start, Nat.zero_add]
      simpa using places
    · have fields := ((list.numbered p.issued).splitTop (x := ',') (by decide)).imp fun _ _ => Woven.alike
      refine .bind (.lift (alike_readWhere woven normal)) fun _ _ _ _ _ _ conditions =>
        .bind (.lift (alike_readGroupBy woven))
        fun _ _ _ _ _ _ groupBy => .bind (.lift (alike_readHaving woven)) fun _ _ _ _ _ _ having => .bind
        (.lift (alike_readOrderBy woven)) fun _ _ _ _ _ _ orderBy => .bind (.lift (alike_readLimitAndOffset woven nameless))
        fun bounds _ _ _ _ _ same => ?_
      subst same
      refine .pure ⟨rfl, distinct, fields, ?_, ?_, ?_, conditions, groupBy, having, orderBy, rfl, rfl, .nil, .none⟩
      · exact rel_map sources fun _ _ same => same.table
      · cases sources with
        | none => exact .nil
        | some same => exact same.extraTables
      · cases sources with
        | none => exact .nil
        | some same => exact same.joins

theorem alike_readUpdate (woven : Woven w {} t u) (normal : w.quiet → IsNormal t) (nameless : w.Nameless t u)
    (names : w.Names .update t u) : Reading.Alike 0 w.Clauses (readUpdate reserved t) (readUpdate reserved u) := by
  dsimp only [readUpdate]
  have target := rel_filter (p := (decide <| · ≠ [])) (q := (decide <| · ≠ [])) (rel_updateTarget? woven)
    fun _ _ same => same.full_eq
  refine .bind (.require target rfl) fun target target' p p₁ start given related => ?_
  obtain ⟨-, rfl⟩ := gives_require given
  obtain ⟨left, right, target_⟩ := related
  have found := (Option.filter_eq_some_iff.mp left).1
  have found' := (Option.filter_eq_some_iff.mp right).1
  have places := names.places
  rw [sourceText?, sourceText?, found, found', Option.map_some, Option.map_some, Option.toList_some, Option.toList_some,
    List.flatMap_singleton, List.flatMap_singleton, ← start] at places
  refine .bind (alike_readSources false target_ places) fun s s' p₀ p₁ start' read sources => ?_
  have issued := (advance_readSources read).issued
  have setList : Option.Rel (Woven w {}) (setSection? t) (setSection? u) := rel_section? (by decide) (by decide) woven
  refine .bind (.require setList rfl) fun list list' p p₂ here given related => ?_
  obtain ⟨-, rfl⟩ := gives_require given
  obtain ⟨left, right, related⟩ := related
  have inside := nameless.within (infix_section left (by decide) (by decide)) (infix_section right (by decide) (by decide))
  have columns := names.columns
  rw [assignmentText?, assignmentText?, found, found', Option.bind_some, Option.bind_some, left, right, Option.map_some,
    Option.map_some, Option.toList_some, Option.toList_some, List.flatMap_singleton, List.flatMap_singleton,
    ← target_.placeholders_eq] at columns
  have count : p.issued = placeholders target := by
    rw [here, issued, start', start]
    simp
  rw [← count] at columns
  refine .bind (.lift (alike_readAssignments related inside sources.table columns)) fun as as' _ _ _ _ assignments => ?_
  have none : as = [] ↔ as' = [] := by
    rw [← List.length_eq_zero_iff, assignments.length_eq, List.length_eq_zero_iff]
  refine .guard none rfl fun _ => .bind (.lift (alike_readWhere woven normal)) fun _ _ _ _ _ _ conditions => .bind
    (.lift (alike_readOrderBy woven)) fun _ _ _ _ _ _ orderBy => .bind (.lift (alike_readRowCount woven nameless))
    fun limit _ _ _ _ _ same => ?_
  subst same
  exact .pure ⟨rfl, rfl, .nil, .some sources.table, .nil, sources.joins, conditions, .nil, .none, orderBy, rfl, rfl,
    assignments, .none⟩

theorem Weave.Bare.dropRowMarks (bare : w.Bare t u) : w.Bare (dropRowMarks t) (dropRowMarks u) := by
  have iff {a b x : Char} (same : w.same a b) (other : x.isAlpha = false) : a = x ↔ b = x :=
    eq_iff_of_sameLetter (w.letter same) other
  induction t using QueryChain.dropRowMarks.induct generalizing u with
  | case1 backwards ih =>
    obtain ⟨a, u₁, star, behind, rfl⟩ := List.forall₂_cons_left_iff.mp bare
    obtain ⟨b, u₂, dot, rest, rfl⟩ := List.forall₂_cons_left_iff.mp behind
    obtain rfl := (iff star (by decide)).mp rfl
    obtain rfl := (iff dot (by decide)).mp rfl
    rw [QueryChain.dropRowMarks, QueryChain.dropRowMarks]
    exact ih rest
  | case2 backwards other =>
    have other' : ∀ more, u ≠ '*' :: '.' :: more := by
      rintro more rfl
      obtain ⟨a, t₁, star, behind, rfl⟩ := List.forall₂_cons_right_iff.mp bare
      obtain ⟨b, t₂, dot, -, rfl⟩ := List.forall₂_cons_right_iff.mp behind
      obtain rfl := (iff star (by decide)).mpr rfl
      obtain rfl := (iff dot (by decide)).mpr rfl
      exact other t₂ rfl
    have unmarked {x : Text} (other : ∀ more, x ≠ '*' :: '.' :: more) : QueryChain.dropRowMarks x = x.reverse := by
      rw [QueryChain.dropRowMarks]
      exact other
    rw [unmarked other, unmarked other']
    exact List.rel_reverse bare

theorem Weave.Bare.targetName (bare : w.Bare t u) : w.Bare (targetName t) (targetName u) :=
  (Weave.Bare.dropRowMarks (List.rel_reverse bare)).plainName

theorem alike_readDelete (woven : Woven w {} t u) (normal : w.quiet → IsNormal t) (nameless : w.Nameless t u)
    (names : w.Names .delete t u) : Reading.Alike 0 w.Clauses (readDelete reserved t) (readDelete reserved u) := by
  dsimp only [readDelete]
  refine .bind (.require (rel_deleteParts? woven) rfl) fun parts parts' p p₁ start given related => ?_
  obtain ⟨-, rfl⟩ := gives_require given
  obtain ⟨left, right, related⟩ := related
  have body := rel_filter (p := (decide <| · ≠ [])) (q := (decide <| · ≠ [])) related.source fun _ _ same => same.full_eq
  refine .bind (.require body rfl) fun body body' p p₂ here given bodies => ?_
  obtain ⟨-, rfl⟩ := gives_require given
  obtain ⟨leftBody, rightBody, bodies⟩ := bodies
  have found := source_of_deleteParts? left (Option.filter_eq_some_iff.mp leftBody).1
  have found' := source_of_deleteParts? right (Option.filter_eq_some_iff.mp rightBody).1
  have places := names.places
  rw [sourceText?, sourceText?, found, found', Option.map_some, Option.map_some, Option.toList_some, Option.toList_some,
    List.flatMap_singleton, List.flatMap_singleton, ← start, ← here] at places
  have targets := names.written
  rw [writtenNames, writtenNames, left, right, Option.toList_some, Option.toList_some, List.flatMap_singleton,
    List.flatMap_singleton] at targets
  rw [targets.length_eq, bodies.mainTables.hasKeyword (by decide)]
  refine .guard Iff.rfl rfl fun _ => .guard Iff.rfl rfl fun _ => .bind (alike_readSources false bodies places)
    fun s s' _ _ _ _ sources => ?_
  have foreign : Option.Rel w.Bare ((parts.targets.head?.map targetName).filter (!s.table.isReferredBy ·))
      ((parts'.targets.head?.map targetName).filter (!s'.table.isReferredBy ·)) := by
    refine rel_filter ?_ fun _ _ same => by rw [sources.table.isReferredBy_eq same]
    generalize parts.targets = ts at targets
    generalize parts'.targets = us at targets
    cases targets with
    | nil => exact .none
    | cons first _ => exact .some first.targetName
  generalize (parts.targets.head?.map targetName).filter (!s.table.isReferredBy ·) = o at foreign
  generalize (parts'.targets.head?.map targetName).filter (!s'.table.isReferredBy ·) = o' at foreign
  cases foreign with
  | some _ => exact .refused rfl
  | none =>
    refine .bind (.lift (alike_readWhere woven normal)) fun _ _ _ _ _ _ conditions => .bind (.lift (alike_readOrderBy woven))
      fun _ _ _ _ _ _ orderBy => .bind (.lift (alike_readRowCount woven nameless)) fun limit _ _ _ _ _ same => ?_
    subst same
    exact .pure ⟨rfl, rfl, .nil, .some sources.table, .nil, sources.joins, conditions, .nil, .none, orderBy, rfl, rfl,
      .nil, .none⟩

end Readers
section Insertion

variable {w : Weave} {t u : Text} {n : Nat} {target target' : TableRef} {columns columns' : Option Text}

theorem forall₂_zipWith {cs cs' vs vs' : List Text} (names : List.Forall₂ w.Bare cs cs')
    (values : List.Forall₂ w.Value vs vs') :
    List.Forall₂ w.Assignment (List.zipWith Assignment.mk cs vs) (List.zipWith Assignment.mk cs' vs') := by
  induction names generalizing vs vs' with
  | nil => exact .nil
  | cons name _ ih =>
    cases values with
    | nil => exact .nil
    | cons value more => exact .cons ⟨name, value⟩ (ih more)

theorem Woven.valueList (woven : Woven w {} t u) (legible : w.Legible t u) :
    List.Forall₂ w.Value (valueList t) (valueList u) := by
  have pieces := woven.groupBody.splitTop (x := ',') (by decide)
  have readable := forall₂_legible pieces (legible.within (infix_groupBody t) (infix_groupBody u))
    (fun _ => infix_of_mem_splitTop) fun _ => infix_of_mem_splitTop
  exact readable.imp fun _ _ both => ⟨both.1, both.1.param?_eq both.2⟩

theorem forall₂_columnList (related : List.Forall₂ w.Bare (splitTop ',' (groupBody t)) (splitTop ',' (groupBody u))) :
    List.Forall₂ w.Bare (columnList t) (columnList u) := by
  rw [columnList, columnList]
  exact forall₂_map related fun _ _ => Weave.Bare.columnName

theorem alike_readValues (woven : Woven w {} t u) (nameless : w.Nameless t u)
    (names : Option.Rel (fun list list' => List.Forall₂ w.Bare (splitTop ',' (groupBody list))
    (splitTop ',' (groupBody list')))
      columns columns') :
    Reading.Alike n w.Source (readValues columns t) (readValues columns' u) := by
  have named := woven.numbered n
  have values := named.valueList (nameless.numbered n)
  dsimp only [readValues]
  refine .nameParams woven ?_
  rw [(named.splitTop (by decide)).length_eq, named.isGroup_eq]
  refine .guard Iff.rfl rfl fun _ => .guard Iff.rfl rfl fun _ => ?_
  cases names with
  | none => exact .bind (.lift (.note rfl)) fun _ _ _ _ _ _ _ => .pure (.positional values)
  | @some list list' related =>
    have columns := forall₂_columnList related
    dsimp only [Option.map_some]
    rw [columns.length_eq, values.length_eq]
    exact .guard Iff.rfl rfl fun _ => .pure (.assignments (forall₂_zipWith columns values))

theorem alike_readInsertSource {b b' : InsertBody} (body : w.Body b b') (nameless : w.Nameless b.text b'.text)
    (table : w.Table target target')
    (names : Option.Rel (fun list list' => List.Forall₂ w.Bare (splitTop ',' (groupBody list))
    (splitTop ',' (groupBody list')))
      columns columns')
    (pairs : ∀ list list', b = .set list → b' = .set list' →
      List.Forall₂ w.Bare (columnTexts (numbered n list)) (columnTexts (numbered n list'))) :
    Reading.Alike n w.Source (readInsertSource t target columns b) (readInsertSource u target' columns' b') := by
  cases body with
  | missing => exact .refuse rfl
  | values woven => exact alike_readValues woven nameless names
  | @set list list' woven =>
    dsimp only [readInsertSource]
    rw [rel_isSome names]
    refine .guard Iff.rfl rfl fun _ => .bind (.lift (alike_readAssignments woven nameless table (pairs _ _ rfl rfl)))
      fun as as' _ _ _ _ assignments => ?_
    have none : as = [] ↔ as' = [] := by
      rw [← List.length_eq_zero_iff, assignments.length_eq, List.length_eq_zero_iff]
    exact .guard none rfl fun _ => .pure (.assignments assignments)
  | @query t u woven =>
    dsimp only [readInsertSource]
    refine .bind (.lift (.note rfl)) fun _ _ _ _ _ _ _ => .nameParams woven (.pure (.query ?_ (woven.numbered _).alike))
    cases names with
    | none => exact .nil
    | some related =>
      rw [Option.map_some, Option.map_some, Option.getD_some, Option.getD_some]
      exact forall₂_columnList related

theorem insertBody_within {parts : InsertParts} (found : insertParts? t = some parts) : parts.body.text <:+: t := by
  obtain ⟨-, -, -, source, -, -, -, body⟩ := insertParts?_eq_slices found
  by_cases there : parts.body = .missing
  · rw [there]
    exact List.nil_infix
  · rw [← body] at there ⊢
    obtain ⟨b, e, -, -, -, text⟩ := insertBody_eq_slice there
    rw [text]
    exact (infix_slice ..).trans (infix_slice ..)

theorem alike_readInsert (woven : Woven w {} t u) (nameless : w.Nameless t u) (names : w.Names .insert t u) :
    Reading.Alike 0 w.Clauses (readInsert t) (readInsert u) := by
  have parts := rel_filter (p := (decide <| ·.table.head? ≠ some '(')) (q := (decide <| ·.table.head? ≠ some '('))
    (rel_insertParts? woven) fun a b same => by simp only [ne_eq, same.table.head_iff (x := '(') (by decide)]
  dsimp only [readInsert]
  rw [woven.hasKeyword (by decide)]
  refine .guard Iff.rfl rfl fun _ => .bind (.require parts rfl) fun parts parts' p p₁ start given related => ?_
  obtain ⟨-, rfl⟩ := gives_require given
  obtain ⟨left, right, related⟩ := related
  have found := (Option.filter_eq_some_iff.mp left).1
  have found' := (Option.filter_eq_some_iff.mp right).1
  have written := names.written
  rw [writtenNames, writtenNames, found, found', Option.toList_some, Option.toList_some, List.flatMap_singleton,
    List.flatMap_singleton] at written
  obtain ⟨name, listed⟩ := List.forall₂_cons.mp written
  have table : w.Table { table := plainName parts.table } { table := plainName parts'.table } := ⟨name.plainName, .none, rfl⟩
  have columns : Option.Rel (fun list list' => List.Forall₂ w.Bare (splitTop ',' (groupBody list))
      (splitTop ',' (groupBody list'))) parts.columns parts'.columns := by
    have lists := related.columns
    generalize parts.columns = o at lists listed
    generalize parts'.columns = o' at lists listed
    cases lists with
    | none => exact .none
    | some _ => exact .some (by simpa using listed)
  have inside := nameless.within (insertBody_within found) (insertBody_within found')
  refine .bind (alike_readInsertSource related.body inside table columns ?_) fun _ _ _ _ _ _ source => ?_
  · intro list list' set set'
    have pairs := names.columns
    rw [assignmentText?, assignmentText?, found, found', Option.bind_some, Option.bind_some, set, set', Option.toList_some,
      Option.toList_some, List.flatMap_singleton, List.flatMap_singleton] at pairs
    rwa [start]
  · exact .pure ⟨rfl, rfl, .nil, .some table, .nil, .nil, .nil, .nil, .none, .nil, rfl, rfl, .nil, .some source⟩

theorem alike_readStatement {kind : StatementKind} {reserved : ReservedWords} (woven : Woven w {} t u)
    (normal : w.quiet → IsNormal t) (nameless : w.Nameless t u) (names : w.Names kind t u) :
    Reading.Alike 0 w.Clauses (readStatement reserved kind t) (readStatement reserved kind u) := by
  cases kind with
  | select => exact alike_readSelect woven normal nameless names
  | insert => exact alike_readInsert woven nameless names
  | update => exact alike_readUpdate woven normal nameless names
  | delete => exact alike_readDelete woven normal nameless names

end Insertion
section Statements

variable {w : Weave} {s : ScanState} {t u : Text} {f : Char → Bool}

theorem isAlpha_of_sameLetter {c d : Char} (same : sameLetter c d) : c.isAlpha = d.isAlpha := by
  rcases sameLetter_cases same with rfl | ⟨alpha, alpha'⟩
  · rfl
  · rw [alpha, alpha']

theorem Woven.takeWhile (folds : Folds f) (quote : f '\'' = false) (woven : Woven w s t u) :
    w.Bare (t.takeWhile f) (u.takeWhile f) := by
  induction woven with
  | nil => exact .nil
  | @char s c d t u same _ _ ih =>
    rw [List.takeWhile_cons, List.takeWhile_cons, folds c d (w.letter same)]
    split
    · exact .cons same ih
    · exact .nil
  | literal =>
    rw [QueryChain.literal, QueryChain.literal, List.cons_append, List.cons_append,
      List.takeWhile_cons_of_neg (by simp [quote]), List.takeWhile_cons_of_neg (by simp [quote])]
    exact .nil

theorem Woven.leadingWord_eq (woven : Woven w {} t u) : leadingWord t = leadingWord u := by
  have first : Woven w {} ((QueryChain.tokens t).headD []) ((QueryChain.tokens u).headD []) := by
    have words := woven.tokens
    generalize QueryChain.tokens t = ts at words
    generalize QueryChain.tokens u = us at words
    cases words with
    | nil => exact .nil {}
    | cons word _ => exact word
  have folds : Folds fun c => c.isAlpha || c == '_' :=
    Folds.or (fun c d same => isAlpha_of_sameLetter same) (folds_beq (by decide))
  exact (first.takeWhile folds (by decide)).upper_eq

theorem agree_classify (woven : Woven w {} t u) : Agree Eq (classify t) (classify u) := by
  rw [classify, classify, woven.leadingWord_eq, woven.hasKeyword (by decide)]
  split
  · exact .error rfl
  · split
    · exact .error rfl
    · split
      · exact .error rfl
      · exact .ok rfl

theorem Progress.Alike.outcome {p p' : Progress} (alike : p.Alike p') : p.outcome.Alike p'.outcome := by
  have none : p.issues = [] ↔ p'.issues = [] := by
    rw [← List.length_eq_zero_iff, alike.issues.length_eq, List.length_eq_zero_iff]
  rw [QueryChain.Progress.outcome, QueryChain.Progress.outcome]
  simp only [none]
  split
  · exact .success
  · exact .partialSuccess alike.issues

theorem agree_convert (reserved : ReservedWords) (woven : Woven w {} t u) (steady : w.quiet → Steady t)
    (nameless : w.Nameless t u)
    (names : ∀ kind, classify (normalize t) = .ok kind →
      List.Forall₂ w.Bare (statementNames kind (normalize t)) (statementNames kind (normalize u))) :
    Agree (Conversion.Alike w.Alike) (convert reserved t) (convert reserved u) := by
  have normal := woven.normalize steady
  have nameless' : w.Nameless (normalize t) (normalize u) :=
    nameless.imp id fun both => ⟨both.1.normalize, both.2.normalize⟩
  have balanced : fault? t = none ↔ fault? u = none := woven.balanced_iff
  have kinds := agree_classify normal
  have count := woven.placeholders_eq
  rw [convert, convert]
  generalize fault? t = x at balanced
  generalize fault? u = y at balanced
  cases x with
  | some fault =>
    cases y with
    | some fault' => exact .error rfl
    | none => exact absurd (balanced.mpr rfl) (by simp)
  | none =>
    obtain rfl := balanced.mp rfl
    dsimp only
    generalize classify (normalize t) = k at kinds names
    generalize classify (normalize u) = k' at kinds
    cases kinds with
    | error same => exact .error same
    | @ok kind kind' same =>
      subst same
      have steps : Reading.Alike 0 w.Clauses (readStatement reserved kind (normalize t))
        (readStatement reserved kind (normalize u)) :=
        alike_readStatement normal (fun _ => isNormal_normalize t) nameless' (normal.names (names kind rfl))
      have read := steps {} {} rfl ⟨rfl, .nil⟩
      simp only [bind, Except.bind]
      generalize (readStatement reserved kind (normalize t)).run {} = r at read
      generalize (readStatement reserved kind (normalize u)).run {} = r' at read
      obtain ⟨e, p⟩ := r
      obtain ⟨e', p'⟩ := r'
      obtain ⟨answers, progress⟩ := read
      dsimp only at answers progress
      cases answers with
      | error same => exact .error same
      | @ok c c' clauses =>
        dsimp only
        rw [← progress.issued, ← count]
        split
        · exact .error rfl
        · exact .ok ⟨rfl, rfl, clauses.distinct, clauses.limit, clauses.offset,
            map_eq_of_forall₂ clauses.joins fun _ _ join => join.kind,
            map_eq_of_forall₂ clauses.conditions fun _ _ condition => condition.connective,
            map_eq_of_forall₂ clauses.orderBy fun _ _ item => item.direction, clauses.calls, progress.outcome⟩

end Statements
end QueryChain
