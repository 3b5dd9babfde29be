import QueryChain.Proofs.Keyword.Spans
import QueryChain.Proofs.Statement.Spelled

namespace QueryChain

def textsBeforeWhere : StatementKind → Text → List Text
  | .select, sql => ((selectSection? sql).map Prod.snd).toList ++ (fromSection? sql).toList
  | .insert, _ => []
  | .update, sql => (updateTarget? sql).toList ++ (setSection? sql).toList
  | .delete, sql => (fromSection? sql).toList

def namedInWhere (kind : StatementKind) (sql : Text) (t : Text) : Text :=
  numbered ((textsBeforeWhere kind sql).map placeholders).sum t

def whereBody? (kind : StatementKind) (sql : Text) : Option Text :=
  if kind = .insert then none else whereSection? sql

section Semicolons

variable {sql t : Text} {b e : Nat}

theorem getLast?_dropSemicolons {c : Char} (last : (dropSemicolons t).getLast? = some c) :
    (c == ';' || isBlank c) = false := by
  have stop := List.head?_dropWhile_not (fun c => c == ';' || isBlank c) t.reverse
  rw [dropSemicolons, dropEndWhile, List.getLast?_reverse] at last
  rw [last] at stop
  simpa using stop

/-- What is left when no more can be dropped is no more than what is left without the semicolons. -/
theorem end_le_dropSemicolons {e₂ e₃ : Nat} (region : Region sql b e) (le₂ : e₂ ≤ e)
    (region₃ : Region sql b e₃) (le₃ : e₃ ≤ e) (kept : dropSemicolons (slice b e₂ sql) = slice b e₂ sql)
    (dropped : dropSemicolons (slice b e sql) = slice b e₃ sql) : e₂ ≤ e₃ := by
  by_contra longer
  have bound := region.bound
  have start := region₃.le
  have parts := dropEndWhile_append_takeWhile (fun c => c == ';' || isBlank c) (slice b e sql)
  rw [← dropSemicolons, dropped, ← slice_append start le₃ bound] at parts
  have rest := List.append_cancel_left parts
  have some_ : slice e₃ e₂ sql ≠ [] := by
    rw [← List.length_pos_iff, length_slice (by omega)]
    omega
  obtain ⟨c, last⟩ := Option.ne_none_iff_exists'.mp (List.getLast?_eq_none_iff.not.mpr some_)
  have whole : (dropSemicolons (slice b e₂ sql)).getLast? = some c := by
    rw [kept, ← slice_append start (by omega) (by omega), getLast?_append_of_ne_nil some_, last]
  have stays := getLast?_dropSemicolons whole
  have member : c ∈ slice e₃ e sql := by
    rw [← slice_append (m := e₂) (by omega) le₂ bound]
    exact List.mem_append_left _ (List.mem_of_getLast? last)
  rw [← rest, List.mem_reverse] at member
  have goes := List.mem_takeWhile_imp member
  rw [stays] at goes
  cases goes

theorem ink_numberMarks_ne_nil (issued : Nat) {ms : Marks} {m : Mark} (member : m ∈ ms)
    (full : isBlank m.char = false) : ink (numberMarks issued ms) ≠ [] := by
  induction ms generalizing issued with
  | nil => cases member
  | cons n ms ih =>
    rw [numberMarks]
    by_cases placeholder : n.isPlaceholder
    · rw [if_pos placeholder]
      have colon : ':' ∈ paramName (issued + 1) := List.mem_append_left _ (by decide)
      exact ink_ne_nil (List.mem_append_left _ colon) (by decide)
    · rw [if_neg placeholder]
      rcases List.mem_cons.mp member with rfl | later
      · exact ink_ne_nil List.mem_cons_self full
      · have rest := ih issued later
        rw [← List.singleton_append, ink_append]
        simp [rest]

theorem length_ink_lt {e₂ e₃ : Nat} (issued : Nat) (free : CommentFree sql) (region₂ : Region sql b e₂)
    (region₃ : Region sql b e₃) (less : e₂ < e₃)
    (full : ∀ c ∈ (slice b e₃ sql).getLast?, isBlank c = false) :
    (ink (numbered issued (slice b e₂ sql))).length < (ink (numbered issued (slice b e₃ sql))).length := by
  have bound := region₃.bound
  rw [numbered_slice issued free region₂.le region₂.bound region₂.start,
    numbered_slice issued free region₃.le bound region₃.start,
    ← slice_append (l := scan sql) region₂.le less.le (by rwa [length_scan]), numberMarks_append,
    ink_append, List.length_append]
  have some_ : slice e₂ e₃ sql ≠ [] := by
    rw [← List.length_pos_iff, length_slice bound]
    omega
  obtain ⟨c, last⟩ := Option.ne_none_iff_exists'.mp (List.getLast?_eq_none_iff.not.mpr some_)
  have written := full c (by
    rw [← slice_append region₂.le less.le bound, getLast?_append_of_ne_nil some_, last]
    rfl)
  have chars : (slice e₂ e₃ (scan sql)).map Mark.char = slice e₂ e₃ sql := by
    rw [map_slice, ← markText, markText_scan]
  obtain ⟨m, member, rfl⟩ := List.mem_map.mp (chars ▸ List.mem_of_getLast? last)
  have more := List.length_pos_iff.mpr (ink_numberMarks_ne_nil
    (issued + (slice b e₂ (scan sql)).countP Mark.isPlaceholder) member written)
  omega

end Semicolons
section Where

variable {reserved : ReservedWords} {sql body : Text} {kind : StatementKind} {c : Clauses} {p : Progress}

/-- The conditions of a `WHERE` section are all that is written in it just if its clean-up takes no more
    than the semicolons and it splits whole. -/
theorem ink_conditions_iff (normal : IsNormal sql) (found : whereSection? sql = some body) (issued : Nat) :
    (splitConditions (numbered issued (normalize body))).flatMap Condition.ink =
        ink (numbered issued (dropSemicolons body)) ↔
      normalize body = dropSemicolons body ∧ SplitsWhole (numbered issued (dropSemicolons body)) := by
  have kept := (isNormal_normalize body).noSemicolon
  obtain ⟨_, _, _, sec, rfl⟩ := section?_eq_some (by decide) (by decide) found
  obtain ⟨b, e, -, -, region, trimmed⟩ := sec.region (by decide)
  rw [trimmed] at kept ⊢
  obtain ⟨e₂, le₂, region₂, cleaned⟩ := region.normalize_eq normal
  obtain ⟨e₃, le₃, region₃, dropped⟩ := region.dropSemicolons_eq
  rw [cleaned] at kept ⊢
  have last : ∀ c ∈ (slice b e₃ sql).getLast?, isBlank c = false := by
    intro c member
    rw [← dropped] at member
    exact (Bool.or_eq_false_iff.mp (getLast?_dropSemicolons member)).2
  have le := end_le_dropSemicolons region le₂ region₃ le₃ kept dropped
  rw [dropped]
  by_cases same : e₂ = e₃
  · rw [same, ink_splitConditions_iff]
    simp
  · constructor
    · intro all
      have part := (ink_splitConditions_sublist (numbered issued (slice b e₂ sql))).length_le
      have less := length_ink_lt issued normal.commentFree region₂ region₃ (by omega) last
      rw [all] at part
      omega
    · rintro ⟨uncut, -⟩
      have lengths := congrArg List.length uncut
      rw [length_slice region₂.bound, length_slice region₃.bound] at lengths
      have order := region₂.le
      omega

theorem readWhere_fst : (readWhere sql p).1 =
    ((whereSection? sql).map fun body => splitConditions (numbered p.issued (normalize body))).getD [] := by
  cases found : whereSection? sql with
  | none => rw [readWhere_eq_none sql p found]; rfl
  | some body => rw [readWhere_eq_some sql p found]; rfl

theorem conditions_of_read (other : kind ≠ .insert) (read : Gives (readStatement reserved kind sql) {} c p) :
    c.conditions = ((whereBody? kind sql).map fun body =>
      splitConditions (namedInWhere kind sql (normalize body))).getD [] := by
  suffices counted : ∃ p₁, Advance (textsBeforeWhere kind sql) {} p₁ ∧ c.conditions = (readWhere sql p₁).1 by
    obtain ⟨p₁, advance, conditions⟩ := counted
    have issued := advance.issued
    rw [Nat.zero_add] at issued
    rw [conditions, readWhere_fst, issued, whereBody?, if_neg other]
    rfl
  cases kind with
  | insert => exact absurd rfl other
  | select =>
    obtain ⟨distinct, list, sources, conditions, _, _, _, _, _, p₁, _, _, _, _, -, found, -, from_, where_,
      -, -, -, -, rfl⟩ := readSelect_ok read
    refine ⟨p₁, ?_, by rw [where_]⟩
    have advance := (Advance.nameParams list {}).trans (advance_readFrom from_)
    rwa [textsBeforeWhere, found]
  | update =>
    obtain ⟨target, list, sources, assignments, conditions, _, _, p₁, p₂, _, _, found, -, sources_,
      foundSet, pairs, -, where_, -, -, rfl⟩ := readUpdate_ok read
    refine ⟨p₂, ?_, by rw [where_]⟩
    have second := advance_readAssignments sources.table list p₁
    rw [pairs] at second
    have advance := (advance_readSources sources_).trans second
    rwa [textsBeforeWhere, found, foundSet]
  | delete =>
    obtain ⟨parts, body, sources, conditions, _, _, p₁, _, _, found, foundBody, -, -, -, sources_, where_,
      -, -, rfl⟩ := readDelete_ok read
    refine ⟨p₁, ?_, by rw [where_]⟩
    rw [textsBeforeWhere, source_of_deleteParts? found foundBody]
    exact advance_readSources sources_

end Where

/-- Nothing of a statement is dropped: all that is written in it is read, and all that is written in its
    `WHERE` section gets into the calls for its conditions, but semicolons at the end. -/
structure ReadWhole (kind : StatementKind) (sql : Text) (calls : List Call) : Prop where
  places : ∀ x, ∀ inText : x < sql.length, isBlank sql[x] = false → ReadAt kind sql x
  conditions : ∀ body ∈ whereBody? kind sql,
    calls.flatMap Call.conditionInk = ink (namedInWhere kind sql (dropSemicolons body))

/-- What keeps a statement whole: it starts with a keyword it is read by, each keyword that ends a
    section is read, too, and its `WHERE` section loses neither an end nor a connective. -/
structure HoldsTogether (kind : StatementKind) (sql : Text) : Prop where
  starts : ∃ s ∈ clauseLayout kind, ∃ q, Stands sql s.1 0 q
  ends : ∀ s ∈ clauseLayout kind, ∀ p, StandsOne sql s.2 p → ReadAt kind sql p
  uncut : ∀ body ∈ whereBody? kind sql, normalize body = dropSemicolons body
  split : ∀ body ∈ whereBody? kind sql, SplitsWhole (namedInWhere kind sql (dropSemicolons body))

section Conversion

variable {reserved : ReservedWords} {raw : Text} {c : Conversion}

theorem full_of_classify {sql : Text} {kind : StatementKind} (ok : classify sql = .ok kind) : sql ≠ [] := by
  rintro rfl
  revert ok
  cases kind <;> decide

/-- A converted statement is read whole if and only if it holds together. -/
theorem read_whole_iff (ok : convert reserved raw = .ok c) :
    ReadWhole c.kind (normalize raw) c.calls ↔ HoldsTogether c.kind (normalize raw) := by
  obtain ⟨p, converted⟩ := convert_ok ok
  have normal := isNormal_normalize raw
  have places := all_read_iff c.kind normal (full_of_classify converted.kind)
  have calls : ∀ body ∈ whereBody? c.kind (normalize raw),
      (c.calls.flatMap Call.conditionInk =
          ink (namedInWhere c.kind (normalize raw) (dropSemicolons body)) ↔
        normalize body = dropSemicolons body ∧
          SplitsWhole (namedInWhere c.kind (normalize raw) (dropSemicolons body))) := by
    intro body member
    have other : c.kind ≠ .insert := by
      intro insert
      rw [whereBody?, if_pos insert] at member
      cases member
    have conditions := conditions_of_read other converted.read
    rw [Option.mem_def.mp member] at conditions
    have found := Option.mem_def.mp member
    rw [whereBody?, if_neg other] at found
    rw [converted.calls, conditionInk_calls (by rwa [kind_of_read converted.read]), conditions]
    rw [Option.map_some, Option.getD_some, conditionInk_conditionCalls (chained_splitConditions _)]
    exact ink_conditions_iff normal found _
  constructor
  · rintro ⟨all, conditions⟩
    obtain ⟨starts, ends⟩ := places.mp all
    refine ⟨starts, ends, ?_, ?_⟩
    · exact fun body member => ((calls body member).mp (conditions body member)).1
    · exact fun body member => ((calls body member).mp (conditions body member)).2
  · rintro ⟨starts, ends, uncut, split⟩
    refine ⟨places.mpr ⟨starts, ends⟩, ?_⟩
    exact fun body member => (calls body member).mpr ⟨uncut body member, split body member⟩

def groupedDeletion : Text := "DELETE FROM t GROUP BY x"

theorem read_whole_iff_groupedDeletion :
    ∃ c, convert default groupedDeletion = .ok c ∧ c.outcome = .success ∧
      ¬ReadWhole c.kind (normalize groupedDeletion) c.calls := by
  have facts : (convert default groupedDeletion).map (fun c => (c.outcome, c.kind)) =
      .ok (.success, .delete) := by decide +kernel
  cases ok : convert default groupedDeletion with
  | error issue =>
    rw [ok] at facts
    cases facts
  | ok c =>
    rw [ok] at facts
    obtain ⟨success, kind⟩ : c.outcome = .success ∧ c.kind = .delete := by simpa [Except.map] using facts
    refine ⟨c, rfl, success, ?_⟩
    rw [read_whole_iff ok, kind]
    intro whole
    have grouped : StandsOne (normalize groupedDeletion) (["WHERE"] :: bodyEnds) 14 :=
      (Stands.standsOne_iff (by decide) (by decide +kernel)).mp (by decide +kernel)
    exact absurd (whole.ends (["FROM"], ["WHERE"] :: bodyEnds) (by decide) 14 grouped) (by decide +kernel)

end Conversion
end QueryChain
