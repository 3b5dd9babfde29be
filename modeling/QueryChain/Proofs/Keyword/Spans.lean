import Mathlib.Data.List.DropRight
import QueryChain.Proofs.Params.Positional

namespace QueryChain

def clauseLayout : StatementKind → List (Keyword × List Keyword)
  | .select => selectLayout
  | .insert => [(["INSERT"], [])]
  | .update => (["UPDATE"], [["SET"]]) :: updateLayout
  | .delete => (["DELETE"], [["FROM"]]) :: deleteLayout

def span? (sql : Text) (s : Keyword × List Keyword) : Option (Nat × Nat) :=
  ((Cursor.start sql).find? [s.1]).map fun (passed, body) =>
    (passed.length, sql.length - body.text.length + (body.upTo s.2).length)

def leadingTable (t : Text) : Text := markText ((scan t).takeWhile (!endsTable ·))

def leadingColumns (t : Text) : Text :=
  if t.head? == some '(' && !opensQuery t then ((leadingGroup? t).map Prod.fst).getD [] else []

def behindInto (c : Cursor) : Cursor :=
  (c.skipAny [["LOW_PRIORITY"], ["DELAYED"], ["HIGH_PRIORITY"], ["IGNORE"]]).skipAny [["INTO"]]

def insertSpans (sql : Text) : List (Nat × Nat) :=
  match (Cursor.start sql).find? [["INSERT"]] with
  | none => []
  | some (passed, behindVerb) =>
    let behind := (behindInto behindVerb).text
    let target := trimStart behind
    let rest := trimStart (target.drop (leadingTable target).length)
    let source := trimStart (rest.drop (leadingColumns rest).length)
    let place (t : Text) := sql.length - t.length
    [(passed.length, place behind), (place target, place target + (leadingTable target).length),
      (place rest, place rest + (leadingColumns rest).length), (place source, sql.length)]

def spans (kind : StatementKind) (sql : Text) : List (Nat × Nat) :=
  match kind with
  | .insert => insertSpans sql
  | kind => (clauseLayout kind).filterMap (span? sql)

def ReadAt (kind : StatementKind) (sql : Text) (x : Nat) : Prop :=
  ∃ s ∈ spans kind sql, s.1 ≤ x ∧ x < s.2

instance (kind : StatementKind) (sql : Text) (x : Nat) : Decidable (ReadAt kind sql x) :=
  inferInstanceAs (Decidable (∃ s ∈ spans kind sql, s.1 ≤ x ∧ x < s.2))

section Insertion

variable {sql t : Text}

theorem suffix_behindInto (c : Cursor) : (behindInto c).text <:+ c.text :=
  (suffix_skipAny ..).trans (suffix_skipAny ..)

theorem drop_leadingTable (t : Text) :
    t.drop (leadingTable t).length = markText ((scan t).dropWhile (!endsTable ·)) := by
  rw [← drop_length_takeWhile, markText_drop_scan, leadingTable, markText, List.length_map]

theorem prefix_leadingTable (t : Text) : leadingTable t <+: t := by
  have start := (List.takeWhile_prefix (l := scan t) (!endsTable ·)).map Mark.char
  rwa [← markText, ← markText, markText_scan] at start

theorem prefix_leadingColumns (t : Text) : leadingColumns t <+: t := by
  rw [leadingColumns]
  by_cases columns : t.head? == some '(' && !opensQuery t
  · rw [if_pos columns]
    cases grouped : leadingGroup? t with
    | none => exact List.nil_prefix
    | some parts => exact ⟨_, leadingGroup?_append grouped⟩
  · rw [if_neg columns]
    exact List.nil_prefix

theorem trimStart_suffix (t : Text) : trimStart t <:+ t := List.dropWhile_suffix _

/-- The spans of an insertion hold its table, its columns and what is inserted. -/
theorem insertParts?_eq_slices {parts : InsertParts} (found : insertParts? sql = some parts) :
    ∃ verb table columns source, insertSpans sql = [verb, table, columns, source] ∧
      slice table.1 table.2 sql = parts.table ∧
      slice columns.1 columns.2 sql = parts.columns.getD [] ∧
      insertBody (slice source.1 source.2 sql) = parts.body := by
  rw [insertParts?] at found
  simp only [Option.bind_eq_bind, Option.bind_eq_some_iff] at found
  obtain ⟨⟨passed, behindVerb⟩, verb, -, -, found⟩ := found
  have suffix : trimStart (behindInto behindVerb).text <:+ sql := by
    have whole : (Cursor.start sql).text = sql := markText_scan sql
    rw [← whole]
    exact ((trimStart_suffix _).trans (suffix_behindInto _)).trans (suffix_of_find? verb)
  rw [insertSpans, verb]
  dsimp only at found ⊢
  rw [← behindInto] at found
  generalize trimStart (behindInto behindVerb).text = target at suffix found ⊢
  rw [← drop_leadingTable, ← leadingTable] at found
  have rest := ((trimStart_suffix _).trans (List.drop_suffix (leadingTable target).length target)).trans suffix
  have trimmed : trimStart (trimStart (target.drop (leadingTable target).length)) =
      trimStart (target.drop (leadingTable target).length) := List.dropWhile_idempotent _ _
  generalize trimStart (target.drop (leadingTable target).length) = rest_ at rest trimmed found ⊢
  have source := (trimStart_suffix _).trans
    ((List.drop_suffix (leadingColumns rest_).length rest_).trans rest)
  refine ⟨_, _, _, _, rfl, ?_⟩
  have table := slice_of_suffix suffix (prefix_leadingTable target)
  have columns := slice_of_suffix rest (prefix_leadingColumns rest_)
  have body := slice_of_suffix source (List.prefix_refl _)
  rw [Nat.sub_add_cancel source.length_le] at body
  dsimp only
  rw [table, columns, body]
  by_cases written : rest_.head? == some '(' && !opensQuery rest_
  · rw [if_pos written] at found
    obtain ⟨⟨group, behind⟩, grouped, eq⟩ := Option.bind_eq_some_iff.mp found
    cases eq
    have group_ : leadingColumns rest_ = group := by
      rw [leadingColumns, if_pos written, grouped]
      rfl
    refine ⟨rfl, group_, ?_⟩
    rw [group_, ← leadingGroup?_append grouped, List.drop_left]
  · rw [if_neg written] at found
    cases found
    have none : leadingColumns rest_ = [] := by rw [leadingColumns, if_neg written]
    refine ⟨rfl, none, ?_⟩
    rw [none, List.length_nil, List.drop_zero, trimmed]

end Insertion
section Sections

variable {sql : Text} {k : Keyword} {ends : List Keyword} {p e : Nat}

theorem stands_of_find? {passed : Text} {after : Cursor} (isKeyword : IsKeyword k)
    (found : (Cursor.start sql).find? [k] = some (passed, after)) :
    ∃ b, Stands sql k passed.length b ∧ (∀ i < passed.length, ∀ q, ¬Stands sql k i q) ∧
      after = cursorAt sql b := by
  rw [← cursorAt_zero] at found
  obtain ⟨p, -, rfl, none, k', member, b, opens, rfl⟩ :=
    find?_cursorAt (by simpa using isKeyword) (Nat.zero_le _) found
  obtain rfl := List.mem_singleton.mp member
  have length : (slice 0 p sql).length = p := length_slice (opens.le.trans opens.bound)
  rw [length]
  refine ⟨b, opens, ?_, rfl⟩
  intro i below q stands
  exact none i (Nat.zero_le _) below ⟨k', member, q, stands⟩

theorem sectionAt_of_span? (isKeyword : IsKeyword k) (areKeywords : ∀ k ∈ ends, IsKeyword k)
    (found : span? sql (k, ends) = some (p, e)) : ∃ b, SectionAt sql k ends p b e := by
  obtain ⟨⟨passed, after⟩, here, eq⟩ := Option.map_eq_some_iff.mp found
  obtain ⟨b, opens, first, rfl⟩ := stands_of_find? isKeyword here
  obtain ⟨e', le, bound, body, inside, stop⟩ := upTo_cursorAt areKeywords opens.bound
  have inText := opens.bound
  dsimp only at eq
  rw [body, text_cursorAt, List.length_drop, length_slice bound] at eq
  obtain ⟨rfl, last⟩ := Prod.mk.inj eq
  obtain rfl : e' = e := by omega
  exact ⟨b, opens, first, le, bound, inside, stop⟩

theorem span?_of_stands {q : Nat} (isKeyword : IsKeyword k) (areKeywords : ∀ k ∈ ends, IsKeyword k)
    (stands : Stands sql k p q) : ∃ p' e, span? sql (k, ends) = some (p', e) ∧ p' ≤ p := by
  cases found : (Cursor.start sql).find? [k] with
  | none =>
    have missed : section? k ends sql = none := by rw [section?, found]; rfl
    exact absurd stands (section?_eq_none isKeyword missed p q)
  | some parts =>
    obtain ⟨passed, body⟩ := parts
    have span : span? sql (k, ends) =
        some (passed.length, sql.length - body.text.length + (body.upTo ends).length) := by
      rw [span?, found]
      rfl
    obtain ⟨b, sec⟩ := sectionAt_of_span? isKeyword areKeywords span
    refine ⟨_, _, span, ?_⟩
    by_contra later
    exact sec.first p (by omega) q stands

end Sections
section Coverage

variable {sql : Text} {kind : StatementKind} {x : Nat}

theorem areKeywords_clauseLayout : ∀ kind, ∀ s ∈ clauseLayout kind, IsKeyword s.1 ∧ ∀ k ∈ s.2, IsKeyword k := by
  intro kind
  cases kind <;> decide

theorem spans_of_sections (other : kind ≠ .insert) :
    spans kind sql = (clauseLayout kind).filterMap (span? sql) := by
  cases kind with
  | insert => exact absurd rfl other
  | select => rfl
  | update => rfl
  | delete => rfl

theorem sectionAt_of_readAt (other : kind ≠ .insert) (read : ReadAt kind sql x) :
    ∃ s ∈ clauseLayout kind, ∃ p b e, SectionAt sql s.1 s.2 p b e ∧ (p, e) ∈ spans kind sql ∧
      p ≤ x ∧ x < e := by
  obtain ⟨⟨p, e⟩, member, from_, upTo⟩ := read
  have listed := member
  rw [spans_of_sections other] at listed
  obtain ⟨s, inLayout, span⟩ := List.mem_filterMap.mp listed
  obtain ⟨isKeyword, areKeywords⟩ := areKeywords_clauseLayout kind s inLayout
  obtain ⟨b, sec⟩ := sectionAt_of_span? isKeyword areKeywords span
  exact ⟨s, inLayout, p, b, e, sec, member, from_, upTo⟩

theorem readAt_of_first {s : Keyword × List Keyword} {q : Nat} (other : kind ≠ .insert)
    (member : s ∈ clauseLayout kind) (stands : Stands sql s.1 x q) (first : ∀ i < x, ∀ q, ¬Stands sql s.1 i q) :
    ReadAt kind sql x := by
  obtain ⟨isKeyword, areKeywords⟩ := areKeywords_clauseLayout kind s member
  obtain ⟨p, e, span, le⟩ := span?_of_stands isKeyword areKeywords stands
  obtain ⟨b, sec⟩ := sectionAt_of_span? isKeyword areKeywords span
  obtain rfl : p = x := by
    by_contra before
    exact first p (by omega) b sec.opens
  have opens := sec.opens.lt isKeyword
  have inside := sec.le
  refine ⟨(p, e), ?_, le, by omega⟩
  rw [spans_of_sections other]
  exact List.mem_filterMap.mpr ⟨s, member, span⟩

/-- Each place is read if the first one is and each keyword that ends a section is read, too. -/
theorem readAt_of_ends (other : kind ≠ .insert) (first : ReadAt kind sql 0)
    (ends : ∀ s ∈ clauseLayout kind, ∀ p, StandsOne sql s.2 p → ReadAt kind sql p) (inText : x < sql.length) :
    ReadAt kind sql x := by
  induction x with
  | zero => exact first
  | succ x ih =>
    obtain ⟨s, member, p, b, e, sec, listed, from_, upTo⟩ := sectionAt_of_readAt other (ih (by omega))
    by_cases inside : x + 1 < e
    · exact ⟨(p, e), listed, by dsimp only; omega, inside⟩
    · obtain rfl : e = x + 1 := by omega
      rcases sec.stop with atEnd | stands
      · omega
      · exact ends s member _ stands

theorem place_trimStart {t : Text} (suffix : t <:+ sql) (inText : x < sql.length)
    (full : isBlank sql[x] = false) (behind : sql.length - t.length ≤ x) :
    sql.length - (trimStart t).length ≤ x := by
  by_contra before
  obtain ⟨front, rfl⟩ := suffix
  have parts := List.takeWhile_append_dropWhile (p := isBlank) (l := t)
  have lengths := congrArg List.length parts
  rw [List.length_append, ← trimStart] at lengths
  rw [List.length_append] at behind before inText
  have inBlanks : x - front.length < (t.takeWhile isBlank).length := by omega
  have inRest : x - front.length < t.length := by omega
  have here : (t.takeWhile isBlank)[x - front.length] = t[x - front.length] :=
    (List.prefix_iff_getElem.mp (List.takeWhile_prefix isBlank)).2 _ inBlanks
  have blank := List.mem_takeWhile_imp (List.getElem_mem inBlanks)
  rw [here] at blank
  rw [List.getElem_append_right (by omega), blank] at full
  cases full

theorem readAt_of_insert {q : Nat} {passed : Text}
    (found : (Cursor.start sql).find? [["INSERT"]] = some (passed, cursorAt sql q))
    (from_ : passed.length ≤ x) (inText : x < sql.length) (full : isBlank sql[x] = false) :
    ReadAt .insert sql x := by
  rw [ReadAt, spans, insertSpans, found]
  dsimp only
  have suffix : (behindInto (cursorAt sql q)).text <:+ sql := by
    have start : (cursorAt sql q).text <:+ sql := by
      rw [text_cursorAt]
      exact List.drop_suffix q sql
    exact (suffix_behindInto _).trans start
  generalize (behindInto (cursorAt sql q)).text = behind at suffix ⊢
  have target := place_trimStart suffix inText full
  have suffixTarget := (trimStart_suffix behind).trans suffix
  generalize trimStart behind = target_ at target suffixTarget ⊢
  have suffixBehindTable := (List.drop_suffix (leadingTable target_).length target_).trans suffixTarget
  have rest := place_trimStart suffixBehindTable inText full
  have suffixRest := (trimStart_suffix _).trans suffixBehindTable
  have table := (prefix_leadingTable target_).length_le
  rw [List.length_drop] at rest
  generalize trimStart (target_.drop (leadingTable target_).length) = rest_ at rest suffixRest ⊢
  have suffixBehindColumns := (List.drop_suffix (leadingColumns rest_).length rest_).trans suffixRest
  have source := place_trimStart suffixBehindColumns inText full
  have columns := (prefix_leadingColumns rest_).length_le
  rw [List.length_drop] at source
  have lengths := suffix.length_le
  have lengthTarget := suffixTarget.length_le
  have lengthRest := suffixRest.length_le
  simp only [List.exists_mem_cons_iff, List.not_mem_nil, false_and, exists_false, or_false]
  omega

theorem insert_of_readAt (read : ReadAt .insert sql 0) : ∃ q, Stands sql ["INSERT"] 0 q := by
  rw [ReadAt, spans, insertSpans] at read
  cases found : (Cursor.start sql).find? [["INSERT"]] with
  | none =>
    rw [found] at read
    simp at read
  | some parts =>
    obtain ⟨passed, behindVerb⟩ := parts
    obtain ⟨q, stands, -, rfl⟩ := stands_of_find? (by decide) found
    have lt := stands.lt (by decide)
    have bound := stands.bound
    rw [found] at read
    dsimp only at read
    have short := (suffix_behindInto (cursorAt sql q)).length_le
    rw [text_cursorAt, List.length_drop] at short
    generalize (behindInto (cursorAt sql q)).text = behind at short read
    have target := (trimStart_suffix behind).length_le
    generalize trimStart behind = target_ at target read
    have rest := (trimStart_suffix (target_.drop (leadingTable target_).length)).length_le
    generalize trimStart (target_.drop (leadingTable target_).length) = rest_ at rest read
    have source := (trimStart_suffix (rest_.drop (leadingColumns rest_).length)).length_le
    rw [List.length_drop] at rest source
    simp only [List.exists_mem_cons_iff, List.not_mem_nil, false_and, exists_false, or_false] at read
    obtain none : passed.length = 0 := by omega
    exact ⟨q, none ▸ stands⟩

theorem IsNormal.first_full {c : Char} {rest : Text} (normal : IsNormal sql) (text : sql = c :: rest) :
    isBlank c = false := by
  have spaced := normal.spaced
  rw [Bool.eq_false_iff]
  intro blank
  rw [scan, text, ScanState.marks, Spaced, ScanState.mark_plain {} rfl c rest (isPlain_of_isBlank c blank),
    if_pos (by simp [Mark.isGap, blank])] at spaced
  exact absurd spaced.1 (by decide)

theorem Stands.full {k : Keyword} {p q : Nat} (stands : Stands sql k p q) (isKeyword : IsKeyword k) :
    ∃ inText : p < sql.length, isBlank sql[p] = false := by
  obtain ⟨c, first, letter⟩ := stands.spells.head? isKeyword
  have less := stands.lt isKeyword
  have bound := stands.bound
  rw [slice_eq_take_drop, List.head?_take, if_neg (by omega), List.head?_drop] at first
  obtain ⟨inText, rfl⟩ := List.getElem?_eq_some_iff.mp first
  exact ⟨inText, isBlank_of_isKeywordChar _ letter⟩

/-- All that is written in a statement is read just if it starts with a keyword it is read by, and
    what ends a section is read, too. -/
theorem all_read_iff (kind : StatementKind) (normal : IsNormal sql) (some_ : sql ≠ []) :
    (∀ x, ∀ inText : x < sql.length, isBlank sql[x] = false → ReadAt kind sql x) ↔
      (∃ s ∈ clauseLayout kind, ∃ q, Stands sql s.1 0 q) ∧
        ∀ s ∈ clauseLayout kind, ∀ p, StandsOne sql s.2 p → ReadAt kind sql p := by
  constructor
  · intro all
    refine ⟨?_, ?_⟩
    · obtain ⟨c, rest, text⟩ := List.exists_cons_of_ne_nil some_
      have read : ReadAt kind sql 0 := by
        apply all 0 (List.length_pos_iff.mpr some_)
        simp only [text, List.getElem_cons_zero]
        exact normal.first_full text
      by_cases insert : kind = .insert
      · subst insert
        obtain ⟨q, stands⟩ := insert_of_readAt read
        exact ⟨(["INSERT"], []), List.mem_singleton_self _, q, stands⟩
      · obtain ⟨s, member, p, b, e, sec, -, from_, -⟩ := sectionAt_of_readAt insert read
        obtain rfl := Nat.le_zero.mp from_
        exact ⟨s, member, b, sec.opens⟩
    · rintro s member p ⟨k, ends, q, stands⟩
      obtain ⟨inText, full⟩ := stands.full ((areKeywords_clauseLayout kind s member).2 k ends)
      exact all p inText full
  · rintro ⟨⟨s, member, q, stands⟩, ends⟩ x inText full
    by_cases insert : kind = .insert
    · subst insert
      obtain rfl := List.mem_singleton.mp member
      cases found : (Cursor.start sql).find? [["INSERT"]] with
      | none =>
        have missed : section? ["INSERT"] [] sql = none := by rw [section?, found]; rfl
        exact absurd stands (section?_eq_none (by decide) missed 0 q)
      | some parts =>
        obtain ⟨passed, behindVerb⟩ := parts
        obtain ⟨b, -, first, rfl⟩ := stands_of_find? (by decide) found
        have start : passed.length = 0 := by
          by_contra later
          exact first 0 (by omega) q stands
        exact readAt_of_insert found (by omega) inText full
    · exact readAt_of_ends insert (readAt_of_first insert member stands (by simp)) ends inText

end Coverage
end QueryChain
