import QueryChain.Proofs.Statement.Attribution
import QueryChain.Proofs.Naming.Lists
import QueryChain.Proofs.Params.Passed

namespace QueryChain

section Parenthesis

variable {c : Char} {t : Text}

theorem mem_splitOnP {α : Type} {p : α → Bool} {l : List α} {a : α} (member : a ∈ l) (other : p a = false) :
    ∃ piece ∈ l.splitOnP p, a ∈ piece := by
  induction l with
  | nil => cases member
  | cons b l ih =>
    obtain ⟨first, rest, pieces⟩ := List.exists_cons_of_ne_nil (List.splitOnP_ne_nil p l)
    rw [List.splitOnP_cons_eq_if_modifyHead, pieces]
    rw [pieces] at ih
    rcases List.mem_cons.mp member with rfl | later
    · rw [other]
      exact ⟨a :: first, by simp, by simp⟩
    · obtain ⟨piece, inside, there⟩ := ih later
      by_cases cut : p b
      · rw [if_pos cut]
        exact ⟨piece, List.mem_cons_of_mem _ inside, there⟩
      · rw [if_neg cut]
        rcases List.mem_cons.mp inside with rfl | inside
        · exact ⟨b :: piece, by simp, List.mem_cons_of_mem _ there⟩
        · exact ⟨piece, by simp [inside], there⟩

theorem mem_trim (member : c ∈ t) (full : isBlank c = false) : c ∈ trim t := by
  obtain ⟨front, back, parts, blankFront, blankBack⟩ := trim_spec t
  rw [parts] at member
  rcases List.mem_append.mp member with inside | inside
  · rcases List.mem_append.mp inside with inside | inside
    · exact absurd (blankFront c inside) (by simp [full])
    · exact inside
  · exact absurd (blankBack c inside) (by simp [full])

theorem exists_mark (member : c ∈ t) : ∃ m ∈ scan t, m.char = c := by
  rwa [← markText_scan t, markText, List.mem_map] at member

theorem paren_tokens (member : '(' ∈ t) : ∃ token ∈ tokens t, '(' ∈ token := by
  obtain ⟨m, there, char⟩ := exists_mark member
  have other : m.isTopBlank = false := by
    rw [Mark.isTopBlank, char]
    rfl
  obtain ⟨piece, inside, mark⟩ := mem_splitOnP there other
  refine ⟨markText piece, List.mem_map.mpr ⟨piece, List.mem_filter.mpr ⟨inside, ?_⟩, rfl⟩, List.mem_map.mpr ⟨m, mark, char⟩⟩
  simpa using List.ne_nil_of_mem mark

theorem paren_splitTop {d : Char} (noParen : d ≠ '(') (member : '(' ∈ t) : ∃ piece ∈ splitTop d t, '(' ∈ piece := by
  obtain ⟨m, there, char⟩ := exists_mark member
  have other : m.isTopOf d = false := by simp [Mark.isTopOf, char, Ne.symm noParen]
  obtain ⟨piece, inside, mark⟩ := mem_splitOnP there other
  have paren : '(' ∈ trim (markText piece) := mem_trim (List.mem_map.mpr ⟨m, mark, char⟩) (by decide)
  have listed : trim (markText piece) ∈ ((scan t).splitOnP (·.isTopOf d)).map (trim <| markText ·) :=
    List.mem_map_of_mem inside
  rw [← dropEndWhile_append_takeWhile List.isEmpty ((((scan t).splitOnP (·.isTopOf d))).map (trim <| markText ·))] at listed
  rcases List.mem_append.mp listed with kept | dropped
  · exact ⟨_, kept, paren⟩
  · have empty := List.mem_takeWhile_imp (List.mem_reverse.mp dropped)
    rw [List.isEmpty_iff.mp empty] at paren
    cases paren

theorem paren_unquoted (member : '(' ∈ t) : '(' ∈ unquoted t := by
  have inner := mem_trim member (by decide)
  dsimp only [unquoted]
  split
  · rename_i quoted
    obtain ⟨long, ends⟩ := quoted
    rcases ends with ⟨first, last⟩ | ⟨first, last⟩
    all_goals
      rw [eq_of_ends long first last] at inner
      simpa using inner
  · exact inner

theorem mem_joinWith {separator part : Text} {parts : List Text} (listed : part ∈ parts) (member : c ∈ part) :
    c ∈ joinWith separator parts := by
  induction parts with
  | nil => cases listed
  | cons first parts ih =>
    cases parts with
    | nil =>
      obtain rfl := List.mem_singleton.mp listed
      rwa [joinWith_one]
    | cons second parts =>
      have step : joinWith separator (first :: second :: parts) =
          first ++ (separator ++ joinWith separator (second :: parts)) := by
        simp [joinWith, List.intercalate]
      rw [step]
      rcases List.mem_cons.mp listed with rfl | later
      · exact List.mem_append_left _ member
      · exact List.mem_append_right _ (List.mem_append_right _ (ih later))

theorem paren_plainName (member : '(' ∈ t) : '(' ∈ plainName t := by
  obtain ⟨piece, inside, paren⟩ := paren_splitTop (d := '.') (by decide) (mem_trim member (by decide))
  have segment : unquoted piece ∈ segments t := List.mem_map_of_mem inside
  exact mem_joinWith segment (paren_unquoted paren)

theorem isBlank_of_mem_paramName {n : Nat} (member : c ∈ paramName n) : isBlank c = false := by
  rcases List.mem_append.mp member with marker | digit
  · have all : ∀ c ∈ paramMarker, isBlank c = false := by decide
    exact all c marker
  · exact isBlank_of_isDigit (isDigit_of_mem_decimal digit)

/-- A parenthesis in front of the first blank stays there when the placeholders are named. -/
theorem paren_first_numbered (issued : Nat) (member : '(' ∈ t.takeWhile (!isBlank ·)) :
    '(' ∈ (numbered issued t).takeWhile (!isBlank ·) := by
  rw [← markText_scan t] at member
  rw [numbered]
  generalize scan t = ms at member
  induction ms generalizing issued with
  | nil => cases member
  | cons m ms ih =>
    rw [markText, List.map_cons, ← markText] at member
    rw [numberMarks]
    by_cases placeholder : m.isPlaceholder
    · rw [if_pos placeholder, List.takeWhile_append_of_pos fun c inside => by
        simp [isBlank_of_mem_paramName inside]]
      rw [(char_of_placeholder placeholder).2] at member
      have later : '(' ∈ (markText ms).takeWhile (!isBlank ·) := by
        simpa [show isBlank '?' = false by decide] using member
      exact List.mem_append_right _ (ih _ later)
    · rw [if_neg placeholder]
      by_cases blank : isBlank m.char
      · simp [blank] at member
      · rw [List.takeWhile_cons_of_pos (by simpa using blank)] at member ⊢
        rcases List.mem_cons.mp member with paren | later
        · exact paren ▸ List.mem_cons_self
        · exact List.mem_cons_of_mem _ (ih _ later)

theorem tokens_first (full : t.takeWhile (!isBlank ·) ≠ []) :
    ∃ name rest, tokens t = name :: rest ∧ t.takeWhile (!isBlank ·) ⊆ name := by
  have whole := List.takeWhile_append_dropWhile (p := fun m : Mark => !m.isTopBlank) (l := scan t)
  have inside : t.takeWhile (!isBlank ·) ⊆ markText ((scan t).takeWhile (!·.isTopBlank)) := by
    conv_lhs => rw [← markText_scan t]
    generalize scan t = ms
    induction ms with
    | nil => simp [markText]
    | cons m ms ih =>
      by_cases blank : isBlank m.char
      · simp [markText, blank]
      · rw [markText, List.map_cons, List.takeWhile_cons_of_pos (by simpa using blank),
          List.takeWhile_cons_of_pos (by simp [Mark.isTopBlank, blank]), markText, List.map_cons]
        exact List.cons_subset_cons _ ih
  have nonempty : (scan t).takeWhile (!·.isTopBlank) ≠ [] := by
    intro empty
    rw [empty] at inside
    exact full (List.eq_nil_of_subset_nil inside)
  refine ⟨markText ((scan t).takeWhile (!·.isTopBlank)), ?_⟩
  cases rest : (scan t).dropWhile (!·.isTopBlank) with
  | nil =>
    rw [rest, List.append_nil] at whole
    have none : ∀ m ∈ scan t, m.isTopBlank = false := by simpa using List.dropWhile_eq_nil_iff.mp rest
    refine ⟨[], ?_, inside⟩
    rw [tokens, List.splitOnP_eq_singleton none, whole]
    simp [whole ▸ nonempty]
  | cons m after =>
    have stop : m.isTopBlank := by
      have head := List.head?_dropWhile_not (p := fun m : Mark => !m.isTopBlank) (scan t)
      rw [rest] at head
      simpa using head
    have front : ∀ m ∈ (scan t).takeWhile (!·.isTopBlank), m.isTopBlank = false := fun m member => by
      simpa using List.mem_takeWhile_imp member
    refine ⟨((after.splitOnP Mark.isTopBlank).filter (· ≠ [])).map markText, ?_, inside⟩
    rw [rest] at whole
    conv_lhs => rw [tokens, ← whole, List.splitOnP_append_cons _ _ stop, List.splitOnP_eq_singleton front]
    simp [nonempty]

theorem paren_numbered (issued : Nat) (member : '(' ∈ t) : '(' ∈ numbered issued t := by
  obtain ⟨m, there, char⟩ := exists_mark member
  rw [numbered]
  generalize scan t = ms at there
  induction ms generalizing issued with
  | nil => cases there
  | cons first ms ih =>
    rw [numberMarks]
    rcases List.mem_cons.mp there with rfl | later
    · rw [if_neg (by simp [Mark.isPlaceholder, char])]
      simp [char]
    · split
      · exact List.mem_append_right _ (ih _ later)
      · exact List.mem_cons_of_mem _ (ih _ later)

end Parenthesis
section Reported

variable {reserved : ReservedWords} {clause t place : Text} {p p' : Progress}

/-- The text of a table place was reported from some token on, and no token before it has a
    parenthesis. -/
def ReportedGroup (issues : List Issue) (place : Text) : Prop :=
  ∃ clause front trailing, tokens place = front ++ trailing ∧ front ≠ [] ∧ (∀ token ∈ front, '(' ∉ token) ∧
    .malformedClause clause (joinWith " " trailing) "unexpected text after table reference" ∈ issues

inductive AliasTokens : List Text → Option Text → Prop
  | none : AliasTokens [] none
  | bare {token : Text} (other : isAs token = false) : AliasTokens [token] (some token)
  | behindAs {word token : Text} (as : isAs word) : AliasTokens [word, token] (some token)

theorem aliasTokens_of_candidate {rest more : List Text} {token : Text} (found : aliasCandidate? rest = some (token, more)) :
    ∃ front, rest = front ++ more ∧ AliasTokens front (some token) := by
  cases rest with
  | nil => cases found
  | cons first rest =>
    dsimp only [aliasCandidate?] at found
    by_cases as : isAs first
    · rw [if_pos as] at found
      cases rest with
      | nil => cases found
      | cons second rest =>
        cases found
        exact ⟨[first, token], rfl, .behindAs as⟩
    · rw [if_neg as] at found
      cases found
      exact ⟨[token], rfl, .bare (by simpa using as)⟩

/-- A table's tokens are its name, those of its alias and what trails. -/
theorem tokens_of_ofText? {f : TableFragment} (read : TableFragment.ofText? reserved t = some f) :
    ∃ name front alias_, tokens t = name :: front ++ f.trailing ∧ AliasTokens front alias_ ∧
      '(' ∉ name ∧ f.table.table = plainName name ∧ f.table.aliasName = alias_.map plainName ∧
      ∀ name ∈ f.table.aliasName, name ≠ [] ∧ reserved.contains name = false ∧ '(' ∉ name := by
  rw [TableFragment.ofText?] at read
  cases split : tokens t with
  | nil =>
    rw [split] at read
    cases read
  | cons name rest =>
    rw [split] at read
    dsimp only at read
    split_ifs at read with taken
    have noParen : '(' ∉ name := by
      intro member
      simp [member] at taken
    -- without an alias all that follows the name trails
    have alone : ∃ shown front alias_, name :: rest = shown :: front ++ rest ∧ AliasTokens front alias_ ∧
        '(' ∉ shown ∧ plainName name = plainName shown ∧ none = alias_.map plainName ∧
        ∀ name ∈ (none : Option Text), name ≠ [] ∧ reserved.contains name = false ∧ '(' ∉ name :=
      ⟨name, [], none, rfl, .none, noParen, rfl, rfl, by simp⟩
    cases candidate : aliasCandidate? rest with
    | none =>
      rw [candidate] at read
      obtain rfl := Option.some.inj read
      dsimp only
      exact alone
    | some found =>
      obtain ⟨token, more⟩ := found
      rw [candidate] at read
      dsimp only at read
      split_ifs at read with accepted
      · obtain rfl := Option.some.inj read
        obtain ⟨front, rfl, tokens⟩ := aliasTokens_of_candidate candidate
        dsimp only
        refine ⟨name, front, some token, rfl, tokens, noParen, rfl, rfl, fun kept same => ?_⟩
        obtain rfl := Option.some.inj same
        simp only [acceptsAlias, Bool.and_eq_true, decide_eq_true_eq, Bool.not_eq_true', List.contains_eq_mem,
          decide_eq_false_iff_not] at accepted
        exact ⟨accepted.1.1, accepted.1.2, accepted.2⟩
      · obtain rfl := Option.some.inj read
        dsimp only
        exact alone

theorem paren_not_mem_as {first : Text} (as : isAs first) : '(' ∉ first := by
  intro member
  have same : upper first = upper "AS" := sameLetters_iff.mp as
  have inside : '(' ∈ upper first := List.mem_map.mpr ⟨'(', member, by decide⟩
  rw [same] at inside
  revert inside
  decide

theorem front_of_ofText? {parsed : TableFragment} (read : TableFragment.ofText? reserved t = some parsed) :
    ∃ front, tokens t = front ++ parsed.trailing ∧ front ≠ [] ∧ ∀ token ∈ front, '(' ∉ token := by
  obtain ⟨name, front, alias_, parts, isAlias, noParen, -, named, accepted⟩ := tokens_of_ofText? read
  have bare {token : Text} (shown : alias_ = some token) : '(' ∉ token := fun member =>
    (accepted (plainName token) (by simp [named, shown])).2.2 (paren_plainName member)
  refine ⟨name :: front, parts, by simp, List.forall_mem_cons.mpr ⟨noParen, ?_⟩⟩
  cases isAlias with
  | none => simp
  | bare => simpa using bare rfl
  | behindAs as => simpa using ⟨paren_not_mem_as as, bare rfl⟩

theorem reported_of_read {parsed : TableFragment} {issue : Option Issue} {issues : List Issue}
    (read : TableFragment.ofText? reserved place = some parsed) (checked : parsed.checkTrailing clause = .ok issue)
    (noted : issue.toList ⊆ issues) (group : '(' ∈ place) : ReportedGroup issues place := by
  obtain ⟨front, parts, full, bare⟩ := front_of_ofText? read
  refine ⟨clause, front, parsed.trailing, parts, full, bare, noted ?_⟩
  obtain ⟨token, member, paren⟩ := paren_tokens group
  rw [parts] at member
  have trails : token ∈ parsed.trailing :=
    (List.mem_append.mp member).resolve_left fun inFront => bare token inFront paren
  obtain ⟨first, rest, shape⟩ := List.exists_cons_of_ne_nil (List.ne_nil_of_mem trails)
  rw [TableFragment.checkTrailing, shape] at checked
  dsimp only at checked
  split_ifs at checked with hint selection
  obtain rfl := Except.ok.inj checked
  simp [shape]

theorem readTables_each {fragments : List Text} {tables : List TableRef}
    (ok : Gives (readTables reserved clause fragments) p tables p') :
    ∀ t ∈ fragments, ∃ parsed issue, TableFragment.ofText? reserved t = some parsed ∧
      parsed.checkTrailing clause = .ok issue ∧ issue.toList ⊆ p'.issues := by
  induction fragments generalizing p tables with
  | nil => simp
  | cons fragment fragments ih =>
    rw [readTables] at ok
    obtain ⟨table, p₁, first, ok⟩ := gives_bind ok
    obtain ⟨more, p₂, rest, ok⟩ := gives_bind ok
    obtain ⟨-, rfl⟩ := gives_pure ok
    intro t member
    rcases List.mem_cons.mp member with rfl | later
    · obtain ⟨parsed, issue, read, -, checked, rfl⟩ := readTable_ok first
      refine ⟨parsed, issue, read, checked, fun i inside => ?_⟩
      exact (advance_readTables rest).issues.subset (List.mem_append_right _ inside)
    · exact ih rest t later

theorem exists_of_mem_mapM {α β ε : Type} {f : α → Except ε β} {xs : List α} {ys : List β} {x : α}
    (ok : xs.mapM f = .ok ys) (member : x ∈ xs) : ∃ y ∈ ys, f x = .ok y := by
  obtain ⟨⟨i, bound⟩, rfl⟩ := List.mem_iff_get.mp member
  have inside : i < ys.length := (mapM_ok ok).length_eq ▸ bound
  exact ⟨ys[i], List.getElem_mem inside, (mapM_ok ok).get bound inside⟩

theorem resolveJoins_each {joins : List Join} {issues : List Issue} (ok : resolveJoins reserved t = .ok (joins, issues)) :
    ∀ s ∈ joinSegments t, ∃ parsed issue, TableFragment.ofText? reserved s.table = some parsed ∧
      parsed.checkTrailing "JOIN" = .ok issue ∧ issue.toList ⊆ issues := by
  rw [resolveJoins] at ok
  cases resolved : (joinSegments t).mapM (·.resolve reserved) with
  | error issue =>
    rw [resolved] at ok
    cases ok
  | ok pairs =>
    rw [resolved] at ok
    obtain ⟨-, rfl⟩ := Prod.mk.inj (Except.ok.inj ok)
    intro s member
    obtain ⟨⟨join, issue⟩, inside, each⟩ := exists_of_mem_mapM resolved member
    obtain ⟨-, parsed, read, checked, -, -⟩ := resolve_ok each
    refine ⟨parsed, issue, read, checked, fun i noted => ?_⟩
    exact List.mem_filterMap.mpr ⟨(join, issue), inside, Option.mem_toList.mp noted⟩

/-- The texts in which one table each is referred to. -/
def tablePlaces (t : Text) : List Text := splitTop ',' (mainTables t) ++ (joinSegments t).map (·.table)

theorem exists_mem_numberedAll {ts : List Text} (member : t ∈ ts) (issued : Nat) :
    ∃ n, numbered n t ∈ numberedAll issued ts := by
  induction ts generalizing issued with
  | nil => cases member
  | cons first ts ih =>
    rcases List.mem_cons.mp member with rfl | later
    · exact ⟨issued, by simp [numberedAll]⟩
    · obtain ⟨n, there⟩ := ih later (issued + placeholders first)
      exact ⟨n, List.mem_cons_of_mem _ there⟩

theorem exists_mem_namedSegments {js : List JoinText} {j : JoinText} (member : j ∈ js) (issued : Nat) :
    ∃ n, j.namedSegment n ∈ namedSegments issued js := by
  induction js generalizing issued with
  | nil => cases member
  | cons first js ih =>
    rcases List.mem_cons.mp member with rfl | later
    · exact ⟨issued, by simp [namedSegments]⟩
    · obtain ⟨n, there⟩ := ih later (issued + placeholders first.body)
      exact ⟨n, List.mem_cons_of_mem _ there⟩

theorem exists_tablePlaces_numbered (dashes : DashesOnly {} t) (kept : KeepsJoins t) (member : place ∈ tablePlaces t)
    (issued : Nat) : ∃ n, numbered n place ∈ tablePlaces (numbered issued t) := by
  obtain ⟨main, joined⟩ := joins_named dashes kept issued
  rw [tablePlaces, main, joined, splitTop_named (by decide)]
  rcases List.mem_append.mp member with inMain | inJoins
  · obtain ⟨n, there⟩ := exists_mem_numberedAll inMain issued
    exact ⟨n, List.mem_append_left _ there⟩
  · obtain ⟨s, inside, rfl⟩ := List.mem_map.mp inJoins
    obtain ⟨j, written, rfl⟩ := List.mem_map.mp inside
    obtain ⟨n, there⟩ := exists_mem_namedSegments written (issued + placeholders (mainTables t))
    exact ⟨n, List.mem_append_right _ (List.mem_map.mpr ⟨_, there, rfl⟩)⟩

/-- Where a statement's tables are read, a group stands behind a blank of its place and was reported. -/
theorem readSources_reported {many : Bool} {sources : Sources} (dashes : DashesOnly {} t) (kept : KeepsJoins t)
    (ok : Gives (readSources reserved clause many t) p sources p') (member : place ∈ tablePlaces t) (group : '(' ∈ place) :
    '(' ∉ place.takeWhile (!isBlank ·) ∧ ∃ n, ReportedGroup p'.issues (numbered n place) := by
  obtain ⟨p₁, issues, -, read, resolved, -, rfl⟩ := readSources_ok ok
  obtain ⟨n, there⟩ := exists_tablePlaces_numbered dashes kept member p.issued
  have reported : ReportedGroup (noteAll issues p₁).2.issues (numbered n place) := by
    rcases List.mem_append.mp there with inMain | inJoins
    · obtain ⟨parsed, issue, read, checked, noted⟩ := readTables_each read _ inMain
      exact reported_of_read read checked (List.Subset.trans noted (List.subset_append_left _ _)) (paren_numbered n group)
    · obtain ⟨s, written, same⟩ := List.mem_map.mp inJoins
      obtain ⟨parsed, issue, read, checked, noted⟩ := resolveJoins_each resolved s written
      rw [same] at read
      exact reported_of_read read checked (List.Subset.trans noted (List.subset_append_right _ _)) (paren_numbered n group)
  refine ⟨fun early => ?_, n, reported⟩
  have named := paren_first_numbered n early
  obtain ⟨name, rest, split, inside⟩ := tokens_first (List.ne_nil_of_mem named)
  obtain ⟨_, front, trailing, parts, full, bare, -⟩ := reported
  obtain ⟨first, more, rfl⟩ := List.exists_cons_of_ne_nil full
  rw [split, List.cons_append] at parts
  obtain ⟨rfl, -⟩ := List.cons.inj parts
  exact bare name List.mem_cons_self (inside named)

end Reported
section Statement

variable {reserved : ReservedWords} {sql t place : Text} {kind : StatementKind}

def tableText? : StatementKind → Text → Option Text
  | .select, sql => fromSection? sql
  | .insert, _ => none
  | .update, sql => updateTarget? sql
  | .delete, sql => fromSection? sql

/-- A group in the text's code begins with the word `SELECT`. -/
def HoldsQuery (t : Text) : Prop := ∃ n m, (scan t)[n]? = some m ∧ m.isCode ∧ opensQuery (t.drop n)

theorem HoldsQuery.paren (holds : HoldsQuery t) : '(' ∈ t := by
  obtain ⟨n, m, -, -, opens⟩ := holds
  unfold opensQuery at opens
  split at opens
  case h_1 inner rest => exact List.mem_of_mem_drop (rest ▸ List.mem_cons_self)
  case h_2 => cases opens

theorem dashes_tableText (normal : IsNormal sql) (found : tableText? kind sql = some t) : DashesOnly {} t := by
  cases kind with
  | select | delete => exact (takenFrom_section (by decide) (by decide) found).dashes normal
  | insert => cases found
  | update =>
    obtain ⟨_, _, b, e, -, le, bound, start, rfl, -⟩ := updateTarget?_eq_slice found
    exact dashes_slice normal le bound start

/-- The tables of a statement are read at one point, and what was noted there stays noted. -/
theorem readStatement_sources {c : Clauses} {p : Progress} (found : tableText? kind sql = some t)
    (read : Gives (readStatement reserved kind sql) {} c p) : ∃ clause many sources p₀ p₁,
      Gives (readSources reserved clause many t) p₀ sources p₁ ∧ p₁.issues <+: p.issues := by
  cases kind with
  | select =>
    obtain ⟨_, list, _, _, _, _, _, _, _, p₁, p₂, p₃, p₄, p₅, -, -, -, from_, where_, group, have_, order, bounds, -⟩ :=
      readSelect_ok read
    have first := (advance_readWhere sql p₁).issues
    have second := (advance_readGroupBy sql p₂).issues
    have third := (advance_readHaving sql p₃).issues
    have fourth := (advance_readOrderBy sql p₄).issues
    have fifth := (advance_readLimitAndOffset sql p₅).issues
    rw [where_] at first
    rw [group] at second
    rw [have_] at third
    rw [order] at fourth
    rw [bounds] at fifth
    rcases readFrom_ok from_ with ⟨missing, -, -⟩ | ⟨body, s, there, -, ok⟩
    · rw [tableText?, missing] at found
      cases found
    · obtain rfl : body = t := Option.some.inj (there.symm.trans found)
      exact ⟨_, _, s, _, p₁, ok, (((first.trans second).trans third).trans fourth).trans fifth⟩
  | insert => cases found
  | update =>
    obtain ⟨target, list, s, _, _, _, _, p₁, p₂, p₃, p₄, there, -, ok, -, pairs, -, where_, order, count, -⟩ :=
      readUpdate_ok read
    have first := (advance_readAssignments s.table list p₁).issues
    have second := (advance_readWhere sql p₂).issues
    have third := (advance_readOrderBy sql p₃).issues
    have fourth := (advance_readRowCount sql p₄).issues
    rw [pairs] at first
    rw [where_] at second
    rw [order] at third
    rw [count] at fourth
    obtain rfl : target = t := Option.some.inj (there.symm.trans found)
    exact ⟨_, _, s, _, p₁, ok, ((first.trans second).trans third).trans fourth⟩
  | delete =>
    obtain ⟨parts, body, s, _, _, _, p₁, p₂, p₃, there, source, -, -, -, ok, where_, order, count, -⟩ := readDelete_ok read
    have first := (advance_readWhere sql p₁).issues
    have second := (advance_readOrderBy sql p₂).issues
    have third := (advance_readRowCount sql p₃).issues
    rw [where_] at first
    rw [order] at second
    rw [count] at third
    obtain rfl : body = t := Option.some.inj ((source_of_deleteParts? there source).symm.trans found)
    exact ⟨_, _, s, _, p₁, ok, (first.trans second).trans third⟩

/-- A statement with a query for a table is declined, or the query stands behind other words of its place
    and is reported together with what follows it. -/
theorem derived_table_declined_or_reported (classified : classify (normalize sql) = .ok kind)
    (found : tableText? kind (normalize sql) = some t) (kept : KeepsJoins t) (member : place ∈ tablePlaces t)
    (holds : HoldsQuery place) :
    (∃ issue, convert reserved sql = .error issue) ∨
    ∃ c, convert reserved sql = .ok c ∧ '(' ∉ place.takeWhile (!isBlank ·) ∧
      ∃ n, ReportedGroup c.issues (numbered n place) := by
  cases ok : convert reserved sql with
  | error issue => exact .inl ⟨issue, rfl⟩
  | ok c =>
    obtain ⟨p, converted⟩ := convert_ok ok
    obtain rfl : c.kind = kind := Except.ok.inj (converted.kind.symm.trans classified)
    obtain ⟨clause, many, sources, p₀, p₁, read, kept_⟩ := readStatement_sources found converted.read
    have dashes := dashes_tableText (isNormal_normalize sql) found
    obtain ⟨behind, n, clause, front, trailing, parts, full, bare, noted⟩ :=
      readSources_reported dashes kept read member holds.paren
    refine .inr ⟨c, rfl, behind, n, clause, front, trailing, parts, full, bare, ?_⟩
    rw [converted.issues_eq]
    exact kept_.subset noted

def lateralJoin : Text := "SELECT a FROM t JOIN LATERAL (SELECT b FROM u WHERE c = ?) v ON v.b = a"

def lateralPlace : Text := "LATERAL (SELECT b FROM u WHERE c = ?) v"

/-- The word in front of the query is taken for the table. -/
theorem derived_table_declined_or_reported_lateralJoin : HoldsQuery lateralPlace ∧
    ∃ c n, convert default lateralJoin = .ok c ∧ c.clauses.joins.map (·.table.table) = ["LATERAL"] ∧
      '(' ∉ lateralPlace.takeWhile (!isBlank ·) ∧ ReportedGroup c.issues (numbered n lateralPlace) := by
  have chars : lateralJoin = _ := String.toList_ofList
  have tables : ("t JOIN LATERAL (SELECT b FROM u WHERE c = ?) v ON v.b = a" : Text) = _ := String.toList_ofList
  have joined : (convert default lateralJoin).map (fun c => c.clauses.joins.map (·.table.table)) = .ok ["LATERAL"] := by
    rw [chars]
    decide +kernel
  have found : tableText? .select (normalize lateralJoin) =
      some ("t JOIN LATERAL (SELECT b FROM u WHERE c = ?) v ON v.b = a" : Text) := by
    rw [chars, tables]
    decide +kernel
  have kept : KeepsJoins "t JOIN LATERAL (SELECT b FROM u WHERE c = ?) v ON v.b = a" := by
    rw [tables]
    exact ⟨by decide +kernel, by decide +kernel⟩
  have member : lateralPlace ∈ tablePlaces "t JOIN LATERAL (SELECT b FROM u WHERE c = ?) v ON v.b = a" := by
    rw [tables]
    decide +kernel
  have classified : classify (normalize lateralJoin) = .ok .select := by
    rw [chars]
    decide +kernel
  have holds : HoldsQuery lateralPlace := ⟨8, ⟨'(', 0, .code⟩, by decide, by decide, by decide +kernel⟩
  refine ⟨holds, ?_⟩
  have result : (∃ issue, convert default lateralJoin = .error issue) ∨ _ :=
    derived_table_declined_or_reported classified found kept member holds
  obtain ⟨issue, declined⟩ | ⟨c, ok, behind, n, reported⟩ := result
  · rw [declined] at joined
    cases joined
  · rw [ok] at joined
    exact ⟨c, n, ok, Except.ok.inj joined, behind, reported⟩

end Statement
end QueryChain
