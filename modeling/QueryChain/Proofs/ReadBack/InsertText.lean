import QueryChain.Proofs.ReadBack.Grouped
import QueryChain.Proofs.ReadBack.UpdateText

namespace QueryChain

inductive InsertContent where
  | values (pairs : List (Text × Text))
  | set (assignments : List AssignmentText)

namespace InsertContent

def text : InsertContent → Text
  | .values pairs => grouped (joinWith ", " (pairs.map Prod.fst)) ++
      ' ' :: ("VALUES".toList ++ ' ' :: grouped (joinWith ", " (pairs.map Prod.snd)))
  | .set assignments => "SET".toList ++ ' ' :: AssignmentText.listText assignments

def read : InsertContent → List Assignment
  | .values pairs => List.zipWith Assignment.mk (pairs.map Prod.fst) (numberedAll 0 (pairs.map Prod.snd))
  | .set assignments => AssignmentText.read 0 assignments

end InsertContent

structure InsertText where
  table : Text
  content : InsertContent

def insertKeywords : List Keyword := [["UNION"], ["ON", "DUPLICATE", "KEY", "UPDATE"]]

inductive InsertContent.Fits (reserved : ReservedWords) (table : Text) : InsertContent → Prop where
  | values {pairs : List (Text × Text)} (nonempty : pairs ≠ []) (columns : ∀ p ∈ pairs, Identifier reserved p.1)
      (values : ∀ p ∈ pairs, Atom [] p.2) : Fits reserved table (.values pairs)
  | set {assignments : List AssignmentText} (nonempty : assignments ≠ [])
      (each : ∀ a ∈ assignments, a.Fits reserved insertKeywords { table }) : Fits reserved table (.set assignments)

namespace InsertText

def text (d : InsertText) : Text :=
  "INSERT".toList ++ ' ' :: ("INTO".toList ++ ' ' :: (d.table ++ ' ' :: d.content.text))

-- Unlike an equation of the definition, this one takes no decoding of the words.
theorem text_written (d : InsertText) :
    d.text = "INSERT".toList ++ ' ' :: ("INTO".toList ++ ' ' :: (d.table ++ ' ' :: d.content.text)) := rfl

def clauses (d : InsertText) : Clauses where
  kind := .insert
  table := some { table := d.table }
  source := some (.assignments d.content.read)

structure Fits (reserved : ReservedWords) (d : InsertText) : Prop where
  table : Identifier reserved d.table
  content : d.content.Fits reserved d.table

section Parts

variable {reserved : ReservedWords} {table u : Text}

theorem areKeywords : ∀ k ∈ insertKeywords, IsKeyword k := by decide

theorem allReserved : AllReserved insertKeywords := by decide +kernel

theorem neat_insert : Neat "INSERT" := .of_plain (by decide) (by decide)

theorem neat_into : Neat "INTO" := .of_plain (by decide) (by decide)

theorem neat_values : Neat "VALUES" := .of_plain (by decide) (by decide)

theorem firstWord_grouped (t v : Text) : firstWord (grouped t ++ v) = [] := by
  have stop : isWordChar '(' = false := by decide
  simp [firstWord, grouped, stop, upper]

theorem body_grouped {t : Text} (neat : Neat t) : Body insertKeywords (grouped t) :=
  ⟨neat.group, lacks_group neat.solid areKeywords⟩

theorem insertParts?_target (name : Identifier reserved table)
    (first : ∀ c ∈ u.head?, isBlank c = false) :
    insertParts? ("INSERT".toList ++ ' ' :: ("INTO".toList ++ ' ' :: (table ++ ' ' :: u))) =
      if u.head? == some '(' && !opensQuery u then
        (leadingGroup? u).map fun p => ⟨table, some p.1, insertBody (trimStart p.2)⟩
      else some ⟨table, none, insertBody u⟩ := by
  have modifiers : ∀ k ∈ ([["LOW_PRIORITY"], ["DELAYED"], ["HIGH_PRIORITY"], ["IGNORE"]] : List Keyword), IsKeyword k := by
    decide
  have other : ∀ k ∈ ([["LOW_PRIORITY"], ["DELAYED"], ["HIGH_PRIORITY"], ["IGNORE"]] : List Keyword),
      firstWord ("INTO".toList ++ ' ' :: (table ++ ' ' :: u)) ≠ k.headD [] := by
    rw [firstWord_glue]
    decide
  have into : firstWord (table ++ ' ' :: u) ≠ "INTO".toList := by
    rw [firstWord_glue, name.firstWord_eq]
    exact fun same => name.notStandard (same ▸ by decide)
  have full : ∀ c ∈ (table ++ ' ' :: u).head?, isBlank c = false := by
    rw [List.head?_append_of_ne_nil _ name.full]
    exact name.neat.head
  have starts : ∀ c ∈ ("INTO".toList ++ ' ' :: (table ++ ' ' :: u)).head?, isBlank c = false := by
    rintro c ⟨⟩
    decide
  have rest : (((Cursor.mk "INSERT".toList.getLast? (scan (' ' :: ("INTO".toList ++ ' ' :: (table ++ ' ' :: u))))).skipAny
      [["LOW_PRIORITY"], ["DELAYED"], ["HIGH_PRIORITY"], ["IGNORE"]]).skipAny [["INTO"]]).text =
        ' ' :: (table ++ ' ' :: u) := by
    have skipped := skipAny_text (k := ["INTO"]) (u := table ++ ' ' :: u) (by decide) full into "INSERT".toList.getLast?
    rw [Keyword.text_word] at skipped
    rw [skipAny_eq modifiers starts other, skipped, Cursor.text_mk, markText_scan]
  have kept : ∀ m ∈ scan table, (!endsTable m) = true := by
    intro m member
    have inText : m.char ∈ markText (scan table) := List.mem_map_of_mem member
    rw [markText_scan] at inText
    have bare := name.bare _ inText
    have opening : m.char ≠ '(' := fun same => name.not_mem (by decide) (same ▸ inText)
    have closing : m.char ≠ ')' := fun same => name.not_mem (by decide) (same ▸ inText)
    simp [endsTable, bare, opening, closing]
  have space : endsTable ⟨' ', 0, .code⟩ = true := by decide
  have before : markText ((scan (table ++ ' ' :: u)).takeWhile (!endsTable ·)) = table := by
    rw [name.neat.solid.scan_glue, List.takeWhile_append_of_pos kept, List.takeWhile_cons_of_neg (by simp [space]),
      List.append_nil, markText_scan]
  have behind : trimStart (markText ((scan (table ++ ' ' :: u)).dropWhile (!endsTable ·))) = u := by
    rw [name.neat.solid.scan_glue, List.dropWhile_append_of_pos kept, List.dropWhile_cons_of_neg (by simp [space])]
    have cons : markText (⟨' ', 0, .code⟩ :: scan u) = ' ' :: u := congrArg (' ' :: ·) (markText_scan u)
    rw [cons, trimStart_space first]
  rw [insertParts?, Cursor.find?_word (by decide)]
  simp only [Option.bind_eq_bind, Option.bind_some, rest, trimStart_space full, before, behind]
  have passed : (guard (table ≠ []) : Option Unit) = some () := if_pos name.full
  rw [passed, Option.bind_some]
  split
  · cases leadingGroup? u <;> rfl
  · rfl

theorem insertBody_values (t : Text) : insertBody ("VALUES".toList ++ ' ' :: grouped t) = .values (grouped t) := by
  have after := afterKeyword?_text (k := ["VALUES"]) (u := grouped t) (by decide)
  rw [Keyword.text_word] at after
  rw [insertBody, after]
  dsimp only [Option.some_or]
  rw [trim_space (trim_grouped t)]

theorem insertBody_set {t : Text} (trimmed : trim t = t) : insertBody ("SET".toList ++ ' ' :: t) = .set t := by
  have after := afterKeyword?_text (k := ["SET"]) (u := t) (by decide)
  rw [Keyword.text_word] at after
  have first : firstWord ("SET".toList ++ ' ' :: t) = "SET".toList := by
    rw [firstWord_glue]
    decide
  rw [insertBody, after, afterKeyword?_eq_none (k := ["VALUES"]) (by decide) (by rw [first]; decide),
    afterKeyword?_eq_none (k := ["VALUE"]) (by decide) (by rw [first]; decide)]
  dsimp only [Option.none_or]
  rw [trim_space trimmed]

end Parts
section Contents

variable {reserved : ReservedWords} {table : Text} {pairs : List (Text × Text)} {assignments : List AssignmentText}

theorem neat_columns (nonempty : pairs ≠ []) (columns : ∀ p ∈ pairs, Identifier reserved p.1) :
    Neat (joinWith ", " (pairs.map Prod.fst)) := by
  refine neat_list ?_ (by simpa using nonempty)
  intro t member
  obtain ⟨p, inList, rfl⟩ := List.mem_map.mp member
  exact (columns p inList).neat

theorem neat_pairs (nonempty : pairs ≠ []) (values : ∀ p ∈ pairs, Atom [] p.2) :
    Neat (joinWith ", " (pairs.map Prod.snd)) := by
  refine neat_list ?_ (by simpa using nonempty)
  intro t member
  obtain ⟨p, inList, rfl⟩ := List.mem_map.mp member
  exact (values p inList).neat

theorem items_pairs (values : ∀ p ∈ pairs, Atom [] p.2) : ∀ t ∈ pairs.map Prod.snd, Item t := by
  intro t member
  obtain ⟨p, inList, rfl⟩ := List.mem_map.mp member
  exact (values p inList).item

theorem body_content {content : InsertContent} (fits : content.Fits reserved table) :
    Body insertKeywords content.text ∧ firstWord content.text ∈ [[], "SET".toList] := by
  cases fits with
  | values nonempty columns values =>
    have first := body_grouped (neat_columns nonempty columns)
    have second := (body_grouped (neat_pairs nonempty values)).behind neat_values areKeywords (by decide) (by decide)
    rw [InsertContent.text, firstWord_grouped]
    refine ⟨first.glue second areKeywords ?_, by simp⟩
    rw [firstWord_glue]
    decide
  | set nonempty each =>
    have list := AssignmentText.body_listText each allReserved nonempty
    rw [InsertContent.text, firstWord_glue]
    exact ⟨list.behind UpdateText.neat_set areKeywords (by decide) (by decide), by decide⟩

theorem opensQuery_columns (nonempty : pairs ≠ []) (columns : ∀ p ∈ pairs, Identifier reserved p.1) (v : Text) :
    opensQuery (grouped (joinWith ", " (pairs.map Prod.fst)) ++ ' ' :: v) = false := by
  have neat := neat_columns nonempty columns
  have shape : grouped (joinWith ", " (pairs.map Prod.fst)) ++ ' ' :: v =
      '(' :: (joinWith ", " (pairs.map Prod.fst) ++ ')' :: ' ' :: v) := by simp [grouped]
  have inner : trimStart (joinWith ", " (pairs.map Prod.fst) ++ ')' :: ' ' :: v) =
      joinWith ", " (pairs.map Prod.fst) ++ ')' :: ' ' :: v := by
    apply trimStart_of_head
    rw [List.head?_append_of_ne_nil _ neat.ne_nil]
    exact neat.head
  have first : firstWord (joinWith ", " (pairs.map Prod.fst) ++ ')' :: ' ' :: v) ≠ "SELECT".toList := by
    obtain ⟨p, ps, rfl⟩ := List.exists_cons_of_ne_nil nonempty
    have name := columns p (by simp)
    rw [firstWord_append (by simp; decide), List.map_cons, firstWord_list, name.firstWord_eq]
    exact fun same => name.notStandard (same ▸ by decide)
  rw [shape, opensQuery, inner, startsWithKeyword, afterKeyword?_eq_none (k := ["SELECT"]) (by decide) first]
  rfl

end Contents
section Reading

variable {reserved : ReservedWords} {d : InsertText} {pairs : List (Text × Text)}

theorem body (fits : d.Fits reserved) : Body insertKeywords d.text := by
  obtain ⟨content, first⟩ := body_content fits.content
  have table : Body insertKeywords d.table := ⟨fits.table.neat, fits.table.lacks allReserved⟩
  have other : ∀ w ∈ ([[], "SET".toList] : List Text), ∀ k ∈ insertKeywords ++ seamKeywords, w ∉ k.tail := by decide
  have target := table.glue content areKeywords (other _ first)
  exact (target.behind neat_into areKeywords (by decide) (by decide)).behind neat_insert areKeywords (by decide) (by decide)

def columns? (d : InsertText) : Option Text :=
  match d.content with
  | .values pairs => some (grouped (joinWith ", " (pairs.map Prod.fst)))
  | .set _ => none

def given (d : InsertText) : InsertBody :=
  match d.content with
  | .values pairs => .values (grouped (joinWith ", " (pairs.map Prod.snd)))
  | .set assignments => .set (AssignmentText.listText assignments)

theorem insertParts?_eq (fits : d.Fits reserved) : insertParts? d.text = some ⟨d.table, d.columns?, d.given⟩ := by
  have content := fits.content
  have starts := (body_content content).1.neat.head
  rw [text_written, insertParts?_target fits.table starts, columns?, given]
  cases kind : d.content with
  | values pairs =>
    rw [kind] at content
    cases content with
    | values nonempty columns values =>
      have neat := neat_columns nonempty columns
      have opening : ((grouped (joinWith ", " (pairs.map Prod.fst)) ++
          ' ' :: ("VALUES".toList ++ ' ' :: grouped (joinWith ", " (pairs.map Prod.snd)))).head? == some '(') = true := rfl
      rw [InsertContent.text, opening, opensQuery_columns nonempty columns, leadingGroup?_grouped neat.solid (loose_space _)]
      dsimp only [Option.map_some]
      rw [trimStart_space (by rintro c ⟨⟩; decide), insertBody_values]
      rfl
  | set assignments =>
    rw [kind] at content
    cases content with
    | set nonempty each =>
      have list := (AssignmentText.body_listText each allReserved nonempty).neat
      have closed : ((InsertContent.set assignments).text.head? == some '(') = false := rfl
      rw [closed, InsertContent.text, insertBody_set list.trim]
      rfl

theorem columnList_eq (nonempty : pairs ≠ []) (columns : ∀ p ∈ pairs, Identifier reserved p.1) :
    columnList (grouped (joinWith ", " (pairs.map Prod.fst))) = pairs.map Prod.fst := by
  have neat := neat_columns nonempty columns
  have items : ∀ t ∈ pairs.map Prod.fst, Item t := by
    intro t member
    obtain ⟨p, inList, rfl⟩ := List.mem_map.mp member
    exact (columns p inList).item
  have names : ∀ t ∈ pairs.map Prod.fst, columnName t = t := by
    intro t member
    obtain ⟨p, inList, rfl⟩ := List.mem_map.mp member
    exact (columns p inList).columnName_eq
  rw [columnList, groupBody_grouped neat.solid neat.trim, splitTop_list items, List.map_congr_left names, List.map_id']

theorem numbered_grouped {t : Text} (solid : Solid t) (issued : Nat) :
    numbered issued (grouped t) = grouped (numbered issued t) := solid.numbered_group issued

theorem yields_readValues (nonempty : pairs ≠ []) (columns : ∀ p ∈ pairs, Identifier reserved p.1)
    (values : ∀ p ∈ pairs, Atom [] p.2) :
    Yields (readValues (some (grouped (joinWith ", " (pairs.map Prod.fst))))
      (grouped (joinWith ", " (pairs.map Prod.snd)))) 0
      (.assignments (InsertContent.values pairs).read) (placeholders (grouped (joinWith ", " (pairs.map Prod.snd)))) := by
  have items := items_pairs values
  have neat := neat_pairs nonempty values
  have named : numbered 0 (grouped (joinWith ", " (pairs.map Prod.snd))) =
      grouped (joinWith ", " (numberedAll 0 (pairs.map Prod.snd))) := by
    rw [numbered_grouped neat.solid, numbered_list fun t member => (items t member).solid]
  have each := items_named items 0
  have solid : Solid (joinWith ", " (numberedAll 0 (pairs.map Prod.snd))) := solid_list fun t member => (each t member).solid
  have trimmed : trim (joinWith ", " (numberedAll 0 (pairs.map Prod.snd))) =
      joinWith ", " (numberedAll 0 (pairs.map Prod.snd)) := by
    rw [← numbered_list fun t member => (items t member).solid]
    exact trim_numbered neat.trim 0
  have list : valueList (grouped (joinWith ", " (numberedAll 0 (pairs.map Prod.snd)))) =
      numberedAll 0 (pairs.map Prod.snd) := by
    rw [valueList, groupBody_grouped solid trimmed, splitTop_list each]
  rw [readValues]
  refine ((answers_nameParams _ 0).lift).bind ?_
  rw [named, Nat.zero_add, splitTop_grouped solid, Option.map_some, columnList_eq nonempty columns, list,
    isGroup_grouped solid]
  refine Yields.unless (by simp) ?_
  refine Yields.unless (by simp) ?_
  refine Yields.unless (by simp) ?_
  exact yields_pure _ _

def valueText (d : InsertText) : Text :=
  match d.content with
  | .values pairs => grouped (joinWith ", " (pairs.map Prod.snd))
  | .set assignments => AssignmentText.listText assignments

theorem placeholders_columns (nonempty : pairs ≠ []) (columns : ∀ p ∈ pairs, Identifier reserved p.1) :
    placeholders (grouped (joinWith ", " (pairs.map Prod.fst))) = 0 := by
  have none : (pairs.map Prod.fst).map placeholders = pairs.map fun _ => 0 := by
    rw [List.map_map]
    exact List.map_congr_left fun p member => placeholders_of_free (columns p member).noMark
  have solid : ∀ t ∈ pairs.map Prod.fst, Solid t := by
    intro t member
    obtain ⟨p, inList, rfl⟩ := List.mem_map.mp member
    exact (columns p inList).neat.solid
  have inner := (neat_columns nonempty columns).solid.placeholders_group
  rw [placeholders_list solid, none] at inner
  rw [grouped, inner]
  simp

theorem placeholders_content {content : InsertContent} (fits : content.Fits reserved d.table) (kind : d.content = content) :
    placeholders content.text = placeholders d.valueText := by
  rw [valueText, kind]
  cases fits with
  | values nonempty columns values =>
    have solid := solid_grouped (neat_columns nonempty columns).solid
    rw [InsertContent.text, solid.placeholders_glue, placeholders_columns nonempty columns,
      neat_values.solid.placeholders_glue, placeholders_of_free (by decide), Nat.zero_add, Nat.zero_add]
  | set nonempty each =>
    rw [InsertContent.text, UpdateText.neat_set.solid.placeholders_glue, placeholders_of_free (by decide), Nat.zero_add]

theorem placeholders_text (fits : d.Fits reserved) : placeholders d.text = placeholders d.valueText := by
  rw [text_written, neat_insert.solid.placeholders_glue, neat_into.solid.placeholders_glue,
    fits.table.neat.solid.placeholders_glue, placeholders_of_free (by decide), placeholders_of_free (by decide),
    placeholders_of_free fits.table.noMark, placeholders_content fits.content rfl]
  simp

theorem yields_source (fits : d.Fits reserved) : Yields (readInsertSource d.text { table := d.table } d.columns? d.given) 0
    (.assignments d.content.read) (placeholders d.valueText) := by
  have content := fits.content
  rw [columns?, given, valueText]
  cases kind : d.content with
  | values pairs =>
    rw [kind] at content
    cases content with
    | values nonempty columns values => exact yields_readValues nonempty columns values
  | set assignments =>
    rw [kind] at content
    cases content with
    | set nonempty each =>
      have read := AssignmentText.answers_readAssignments each 0
      rw [Nat.zero_add] at read
      have full : AssignmentText.read 0 assignments ≠ [] := by
        obtain ⟨a, as, rfl⟩ := List.exists_cons_of_ne_nil nonempty
        exact List.cons_ne_nil _ _
      rw [readInsertSource]
      refine Yields.unless (by simp) ?_
      refine read.lift.bind ?_
      exact Yields.unless full (yields_pure _ _)

/-- A written statement with a new row is read as what it says. -/
theorem yields_readInsert (fits : d.Fits reserved) : Yields (readInsert d.text) 0 d.clauses (placeholders d.text) := by
  have noDuplicate : ¬hasKeyword ["ON", "DUPLICATE", "KEY", "UPDATE"] d.text = true := by
    rw [(body fits).lacks _ (by simp [insertKeywords])]
    decide
  have parts : (insertParts? d.text).filter (·.table.head? ≠ some '(') = some ⟨d.table, d.columns?, d.given⟩ := by
    rw [insertParts?_eq fits]
    refine Option.filter_eq_some_iff.mpr ⟨rfl, ?_⟩
    have closed : d.table.head? ≠ some '(' := fun first =>
      fits.table.not_mem (d := '(') (by decide) (List.mem_of_mem_head? first)
    simpa using closed
  rw [readInsert]
  refine Yields.unless noDuplicate ?_
  refine (yields_require parts _ 0).bind ?_
  dsimp only
  rw [fits.table.plainName_eq, placeholders_text fits]
  exact (yields_source fits).bind (yields_pure d.clauses _)

end Reading
end InsertText
end QueryChain
