import QueryChain.Proofs.Join.TableTokens

namespace QueryChain

inductive Stretch where
  | verbatim (t : Text)
  | word (w : Text)
  deriving DecidableEq, Repr

def Stretch.ReadsAs : Stretch → Text → Prop
  | .verbatim t, s => s = t
  | .word w, s => upper s = w

/-- The text is the stretches one after the other, with blanks at most before, between and behind them. -/
inductive Tiles : List Stretch → Text → Prop
  | done {blanks : Text} (blank : ∀ c ∈ blanks, isBlank c) : Tiles [] blanks
  | next {x : Stretch} {xs : List Stretch} {blanks s rest : Text} (blank : ∀ c ∈ blanks, isBlank c) (reads : x.ReadsAs s)
      (later : Tiles xs rest) : Tiles (x :: xs) (blanks ++ (s ++ rest))

namespace Tiles

variable {x : Stretch} {xs ys : List Stretch} {s t u : Text}

theorem behind_blank (blank : ∀ c ∈ s, isBlank c) (tiles : Tiles xs t) : Tiles xs (s ++ t) := by
  have both {b : Text} (blank' : ∀ c ∈ b, isBlank c) : ∀ c ∈ s ++ b, isBlank c := fun c member =>
    (List.mem_append.mp member).elim (blank c) (blank' c)
  cases tiles with
  | done blank' => exact .done (both blank')
  | next blank' reads later =>
    rw [← List.append_assoc]
    exact .next (both blank') reads later

theorem append (first : Tiles xs t) (second : Tiles ys u) : Tiles (xs ++ ys) (t ++ u) := by
  induction first with
  | done blank => exact second.behind_blank blank
  | next blank reads later ih =>
    rw [List.append_assoc, List.append_assoc]
    exact .next blank reads ih

theorem one (reads : x.ReadsAs s) (blank : ∀ c ∈ t, isBlank c) : Tiles [x] (s ++ t) := by
  have tiles : Tiles [x] ([] ++ (s ++ t)) := .next (by simp) reads (.done blank)
  exact tiles

theorem trim (t : Text) : Tiles [.verbatim (QueryChain.trim t)] t := by
  obtain ⟨front, back, parts, blankFront, blankBack⟩ := trim_spec t
  have tiles := (one (x := .verbatim (QueryChain.trim t)) rfl blankBack).behind_blank blankFront
  rwa [← List.append_assoc, ← parts] at tiles

end Tiles

section Pieces

variable {t : Text} {a n q : Nat} {w : JoinWord}

def JoinSegment.stretches (s : JoinSegment) (w : JoinWord) : List Stretch :=
  s.qualifiers.map .word ++ .word w.word :: .verbatim s.table :: s.condition.elim [] fun c => [.word "ON", .verbatim c]

/-- The tables in front of the joins, and each join with its own keyword. -/
def joinStretches (t : Text) : List Stretch :=
  .verbatim (mainTables t) :: ((joinPlaces t).zip (joinSegments t)).flatMap fun p => p.2.stretches p.1.2

theorem tiles_dropQualifiers (n : Nat) (t : Text) (found : List Text) :
    ∃ ws u, (dropQualifiers n t found).2 = ws ++ found ∧ t = (dropQualifiers n t found).1 ++ u ∧
      Tiles (ws.map .word) u := by
  induction n generalizing t found with
  | zero => exact ⟨[], [], rfl, by simp [dropQualifiers], .done (by simp)⟩
  | succ n ih =>
    rw [dropQualifiers]
    cases last : lastQualifier? t with
    | none => exact ⟨[], [], rfl, by simp, .done (by simp)⟩
    | some p =>
      obtain ⟨front, qualifier⟩ := p
      obtain ⟨word, back, parts, letters, -, -, blank⟩ := lastQualifier?_eq_some_iff.mp last
      obtain ⟨ws, u, words, text, tiles⟩ := ih front (qualifier :: found)
      refine ⟨ws ++ [qualifier], u ++ (word ++ back), ?_, ?_, ?_⟩
      · rw [words, List.append_assoc]
        rfl
      · rw [← List.append_assoc, ← text]
        exact parts
      · rw [List.map_append]
        exact tiles.append (.one letters blank)

theorem tiles_introducer (t : Text) (n : Nat) (w : JoinWord) :
    Tiles ((qualifiersAt t n w).map .word) (slice (frontEnd t n w) n t) := by
  cases w with
  | straightJoin =>
    rw [frontEnd, slice_self]
    exact .done (by simp)
  | join =>
    obtain ⟨ws, u, words, text, tiles⟩ := tiles_dropQualifiers (t.take n).length (t.take n) []
    rw [← trailingQualifiers] at words text
    rw [List.append_nil] at words
    have behind : slice (frontEnd t n .join) n t = u := by
      have dropped := congrArg (List.drop (trailingQualifiers (t.take n)).1.length) text
      rwa [List.drop_left] at dropped
    rwa [qualifiersAt, words, behind]

/-- Without `USING` the table of a join ends with its text, or at the `ON` in front of its condition. -/
theorem exists_tableEnd (j : JoinText) (plain : j.segment.usesUsing = false) : ∃ e ≤ j.body.length,
    j.segment.table = trim (slice 0 e j.body) ∧
    (e = j.body.length ∧ j.segment.condition = none ∨
      ∃ q, Stands j.body ["ON"] e q ∧ j.segment.condition = some (trim (j.body.drop q))) := by
  have areKeywords : ∀ k ∈ ([["ON"], ["USING"]] : List Keyword), IsKeyword k := by decide
  have noUsing (n q : Nat) : ¬Stands j.body ["USING"] n q := fun stands => by
    have has : hasKeyword ["USING"] j.body := (hasKeyword_iff_stands (by decide)).mpr ⟨n, q, stands⟩
    rw [show hasKeyword ["USING"] j.body = false from plain] at has
    cases has
  obtain ⟨e, -, bound, table, missed, stop⟩ := upTo_cursorAt areKeywords (Nat.zero_le j.body.length)
  rw [cursorAt_zero] at table
  have stopsAtOn : e = j.body.length ∨ ∃ q, Stands j.body ["ON"] e q := by
    refine stop.imp_right ?_
    rintro ⟨k, member, q, stands⟩
    rcases List.mem_pair.mp member with rfl | rfl
    · exact ⟨q, stands⟩
    · exact absurd stands (noUsing e q)
  refine ⟨e, bound, congrArg trim table, ?_⟩
  rw [JoinText.segment, ← cursorAt_zero]
  cases on : (cursorAt j.body 0).find? [["ON"]] with
  | none =>
    have never := find?_cursorAt_eq_none (by decide) on
    refine .inl ⟨stopsAtOn.resolve_right ?_, rfl⟩
    rintro ⟨q, stands⟩
    exact never e (Nat.zero_le e) ((stands.lt isKeyword_on).trans_le stands.bound) ⟨_, by simp, q, stands⟩
  | some found =>
    obtain ⟨passed, after⟩ := found
    obtain ⟨p, q, -, -, -, stands, rfl, first⟩ := Bytewise.find?_one isKeyword_on (Nat.zero_le _) on
    have less := (stands.lt isKeyword_on).trans_le stands.bound
    -- the first of both keywords is the first `ON`
    obtain rfl : e = p := by
      rcases Nat.lt_trichotomy e p with before | same | behind
      · obtain ⟨q', stands'⟩ := stopsAtOn.resolve_left (by omega)
        exact absurd ⟨_, by simp, q', stands'⟩ (first e (Nat.zero_le e) before)
      · exact same
      · exact absurd ⟨_, by simp, q, stands⟩ (missed p (Nat.zero_le p) behind)
    exact .inr ⟨q, stands, congrArg (some <| trim ·) text_cursorAt⟩

theorem tiles_word {v : Text} (stands : Stands t [v] n q) (capital : ∀ c ∈ v, isCapital c) :
    Tiles [.word v] (slice n q t) := by
  have reads : (Stretch.word v).ReadsAs (slice n q t) := by
    cases stands.spells with
    | word letters => exact letters.symm.trans (upper_of_isCapital capital)
  have tiles := Tiles.one reads (t := []) (by simp)
  rwa [List.append_nil] at tiles

theorem tiles_body (j : JoinText) (plain : j.segment.usesUsing = false) : Tiles
    (.verbatim j.segment.table :: j.segment.condition.elim [] fun c => [.word "ON", .verbatim c]) j.body := by
  obtain ⟨e, bound, table, ⟨rfl, none⟩ | ⟨q, stands, condition⟩⟩ := exists_tableEnd j plain
  · have whole : slice 0 j.body.length j.body = j.body := by simp [slice]
    rw [none, table, whole]
    exact .trim j.body
  · have parts : slice 0 e j.body ++ (slice e q j.body ++ j.body.drop q) = j.body := by
      rw [slice_append_drop stands.le stands.bound, slice_append_drop (Nat.zero_le e) bound, List.drop_zero]
    have tiles := (Tiles.trim (slice 0 e j.body)).append
      ((tiles_word stands (by decide)).append (.trim (j.body.drop q)))
    rw [parts] at tiles
    rw [condition, table]
    exact tiles

theorem tiles_joined {places : List (Nat × JoinWord)} {front : Text} {joins : List JoinText}
    (joined : JoinedFrom t a places front joins) (plain : ∀ j ∈ joins, j.segment.usesUsing = false) :
    ∃ u, t.drop a = front ++ u ∧
      Tiles ((places.zip (joins.map JoinText.segment)).flatMap fun p => p.2.stretches p.1.2) u := by
  induction joined with
  | last => exact ⟨[], by simp, .done (by simp)⟩
  | @join a n q w places body joins le stands rest ih =>
    obtain ⟨u, behind, tiles⟩ := ih fun j member => plain j (by simp [member])
    have inText := stands.le.trans stands.bound
    have short := frontEnd_le t n w
    have qualifiers := tiles_introducer t n w
    have keyword : Tiles [.word w.word] (slice n q t) := tiles_word stands (by cases w <;> decide)
    have inBody := tiles_body ⟨qualifiersAt t n w, body⟩ (plain _ (by simp))
    refine ⟨slice (frontEnd t n w) n t ++ (slice n q t ++ (body ++ u)), ?_, ?_⟩
    · rw [← behind, slice_append_drop stands.le stands.bound, slice_append_drop short inText,
        slice_append_drop le (short.trans inText)]
    · have written := qualifiers.append (keyword.append (inBody.append tiles))
      rw [List.map_cons, List.zip_cons_cons, List.flatMap_cons, JoinSegment.stretches, List.append_assoc]
      exact written

theorem tiles_joinStretches (plain : ∀ s ∈ joinSegments t, s.usesUsing = false) : Tiles (joinStretches t) t := by
  obtain ⟨u, text, tiles⟩ := tiles_joined (joined_cutJoins t) fun j member => plain _ (List.mem_map_of_mem member)
  have whole := (Tiles.trim (cutJoins t).1).append tiles
  rw [← text, List.drop_zero] at whole
  exact whole

end Pieces

section Introducers

variable {t : Text} {a : Nat} {places : List (Nat × JoinWord)} {front : Text} {joins : List JoinText}
  {found : List Bytewise.Introducer}

theorem Introduces.inText {at_ : Nat × JoinWord} {i : Bytewise.Introducer} (introduces : Introduces t at_ i) :
    i.start < i.body ∧ i.body ≤ byteSize t := by
  obtain ⟨q, stands, rfl⟩ := introduces
  have less := stands.lt (isKeyword_joinWord at_.2)
  rw [← place_length]
  exact ⟨place_lt ((frontEnd_le t at_.1 at_.2).trans_lt less) stands.bound, place_le stands.bound⟩

/-- Each introducer starts behind the keyword of the join before it. -/
theorem JoinedFrom.introduced (joined : JoinedFrom t a places front joins)
    (introduced : List.Forall₂ (Introduces t) places found) :
    (∀ i ∈ found.head?, place t a ≤ i.start) ∧ found.IsChain (·.body ≤ ·.start) ∧
      (∀ i ∈ found, i.start < i.body ∧ i.body ≤ byteSize t) ∧
      found.map (·.qualifiers) = joins.map (·.qualifiers) := by
  induction joined generalizing found with
  | last =>
    cases introduced
    exact ⟨by simp, .nil, by simp, rfl⟩
  | @join a n q w places body joins le stands rest ih =>
    obtain ⟨i, found, introduces, later, rfl⟩ := List.forall₂_cons_left_iff.mp introduced
    have here := introduces.inText
    obtain ⟨q', stands', rfl⟩ := introduces
    obtain rfl := stands.end_unique stands'
    obtain ⟨first, chain, inText, same⟩ := ih later
    refine ⟨?_, ?_, ?_, ?_⟩
    · rintro i ⟨⟩
      exact place_le le
    · exact List.isChain_cons.mpr ⟨first, chain⟩
    · exact List.forall_mem_cons.mpr ⟨here, inText⟩
    · rw [List.map_cons, List.map_cons, same]

theorem joinPlaces_increasing (t : Text) : (joinPlaces t).Pairwise (·.1 < ·.1) := by
  refine List.Pairwise.filterMap _ (fun n m less p here q there => ?_) List.pairwise_lt_range
  obtain ⟨w, -, rfl⟩ := Option.map_eq_some_iff.mp here
  obtain ⟨v, -, rfl⟩ := Option.map_eq_some_iff.mp there
  exact less

/-- The joins of a text, each found from its keyword, never cross, and without `USING` they make up the text. -/
theorem joins_tile_text (t : Text) :
    ((∀ n w, (n, w) ∈ joinPlaces t ↔ ∃ q, Stands t [w.word] n q) ∧ (joinPlaces t).Pairwise (·.1 < ·.1) ∧
      (joinSegments t).length = (joinPlaces t).length) ∧
    (∃ found, Bytewise.introducers? t = some found ∧ List.Forall₂ (Introduces t) (joinPlaces t) found ∧
      found.map (·.qualifiers) = (joinSegments t).map (·.qualifiers) ∧
      (∀ i ∈ found, i.start < i.body ∧ i.body ≤ byteSize t) ∧ found.IsChain (·.body ≤ ·.start)) ∧
    Bytewise.mainTables? t = some (mainTables t) ∧ Bytewise.joinSegments? t = some (joinSegments t) ∧
    ((∀ s ∈ joinSegments t, s.usesUsing = false) → Tiles (joinStretches t) t) := by
  obtain ⟨found, introduced, each, -, -⟩ := Bytewise.introducers?_eq t
  obtain ⟨-, chain, inText, qualifiers⟩ := (joined_cutJoins t).introduced each
  have same : found.map (·.qualifiers) = (joinSegments t).map (·.qualifiers) := by
    rw [qualifiers, joinSegments, List.map_map]
    rfl
  refine ⟨⟨fun n w => mem_joinPlaces, joinPlaces_increasing t, ?_⟩, ⟨found, introduced, each, same, inText, chain⟩,
    Bytewise.mainTables?_eq t, Bytewise.joinSegments?_eq t, tiles_joinStretches⟩
  rw [each.length_eq]
  simpa using congrArg List.length same.symm

def qualifiedJoins : Text := "a left\n outer Join b on (a.x = 'JOIN')STRAIGHT_JOIN c Natural INNER join d"

theorem joins_tile_text_qualified :
    (joinPlaces qualifiedJoins).map Prod.snd = [.join, .straightJoin, .join] ∧
    (∃ found, Bytewise.introducers? qualifiedJoins = some found ∧ found.IsChain (·.body ≤ ·.start)) ∧
    Tiles [.verbatim "a", .word "LEFT", .word "OUTER", .word "JOIN", .verbatim "b", .word "ON", .verbatim "(a.x = 'JOIN')",
      .word "STRAIGHT_JOIN", .verbatim "c", .word "NATURAL", .word "INNER", .word "JOIN", .verbatim "d"] qualifiedJoins := by
  obtain ⟨-, ⟨found, introduced, -, -, -, chain⟩, -, -, tiles⟩ := joins_tile_text qualifiedJoins
  have chars : qualifiedJoins = _ := String.toList_ofList
  have places : (joinPlaces qualifiedJoins).map Prod.snd = [.join, .straightJoin, .join] := by
    rw [chars]
    decide +kernel
  have stretches : joinStretches qualifiedJoins = [.verbatim "a", .word "LEFT", .word "OUTER", .word "JOIN", .verbatim "b",
      .word "ON", .verbatim "(a.x = 'JOIN')", .word "STRAIGHT_JOIN", .verbatim "c", .word "NATURAL", .word "INNER",
      .word "JOIN", .verbatim "d"] := by
    rw [chars]
    decide +kernel
  rw [stretches] at tiles
  refine ⟨places, ⟨found, introduced, chain⟩, tiles ?_⟩
  rw [chars]
  decide +kernel

end Introducers
end QueryChain
