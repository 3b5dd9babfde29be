import QueryChain.Proofs.Params.Passed

namespace QueryChain

theorem le_largestNumber {t : Text} {n : Nat} (member : n ∈ namesIn t) : n ≤ largestNumber := by
  induction t with
  | nil => cases member
  | cons c t ih =>
    rcases List.mem_append.mp member with here | there
    · obtain ⟨rest, -, read⟩ := Option.bind_eq_some_iff.mp (Option.mem_toList.mp here)
      dsimp only [number?] at read
      split_ifs at read with digits fits
      cases read
      exact fits
    · exact ih there

section Statement

variable {reserved : ReservedWords} {sql t : Text} {kind : StatementKind} {p : Progress} {c : Clauses}

theorem advance_clauseTexts (read : Gives (readStatement reserved kind sql) {} c p) :
    Advance (clauseTexts kind sql) {} p := by
  cases kind with
  | select =>
    obtain ⟨distinct, list, found, advance⟩ := advance_readSelect read
    simpa [clauseTexts, found] using advance
  | insert =>
    obtain ⟨parts, found, -, advance⟩ := advance_readInsert read
    simpa [clauseTexts, found] using advance
  | update =>
    obtain ⟨target, list, found, foundSet, advance⟩ := advance_readUpdate read
    simpa [clauseTexts, found, foundSet] using advance
  | delete => exact advance_readDelete read

theorem fresh_clauseTexts (normal : IsNormal sql) (free : ¬paramMarker <:+: sql)
    (read : Gives (readStatement reserved kind sql) {} c p) : ∀ t ∈ clauseTexts kind sql, Fresh t := by
  have fresh {k : Keyword} {ends : List Keyword} (isKeyword : IsKeyword k)
      (areKeywords : ∀ k ∈ ends, IsKeyword k) : ∀ t ∈ section? k ends sql, Fresh t := fun t found =>
    (takenFrom_section isKeyword areKeywords found).fresh normal free
  have freshWhere : ∀ t ∈ (whereSection? sql).map normalize, Fresh t := fun t member =>
    (takenFrom_whereSection? normal t member).fresh normal free
  intro t member
  cases kind with
  | select =>
    simp only [clauseTexts, List.mem_flatMap, List.mem_cons, Option.mem_toList, List.not_mem_nil, or_false] at member
    obtain ⟨text, rfl | rfl | rfl | rfl | rfl | rfl | rfl | rfl, found⟩ := member
    · obtain ⟨⟨distinct, list⟩, parts, rfl⟩ := Option.map_eq_some_iff.mp found
      exact (takenFrom_selectSection? parts).fresh normal free
    · exact fresh (by decide) (by decide) t found
    · exact freshWhere t found
    all_goals exact fresh (by decide) (by decide) t found
  | insert =>
    obtain ⟨parts, found, there, -⟩ := advance_readInsert read
    obtain ⟨b, e, le, bound, start, text⟩ := insertParts?_eq_slice normal.commentFree found there
    simp only [clauseTexts, found, Option.toList_some, List.map_singleton, List.mem_singleton] at member
    rw [member, text]
    exact fresh_slice normal free le bound start
  | update =>
    simp only [clauseTexts, List.mem_flatMap, List.mem_cons, Option.mem_toList, List.not_mem_nil, or_false] at member
    obtain ⟨text, rfl | rfl | rfl | rfl | rfl, found⟩ := member
    · obtain ⟨_, _, b, e, -, le, bound, start, rfl, -⟩ := updateTarget?_eq_slice found
      exact fresh_slice normal free le bound start
    · exact fresh (by decide) (by decide) t found
    · exact freshWhere t found
    all_goals exact fresh (by decide) (by decide) t found
  | delete =>
    simp only [clauseTexts, List.mem_flatMap, List.mem_cons, Option.mem_toList, List.not_mem_nil, or_false] at member
    obtain ⟨text, rfl | rfl | rfl | rfl, found⟩ := member
    · exact fresh (by decide) (by decide) t found
    · exact freshWhere t found
    all_goals exact fresh (by decide) (by decide) t found

theorem passes_readStatement (normal : IsNormal sql) (free : ¬paramMarker <:+: sql)
    (read : Gives (readStatement reserved kind sql) {} c p) (clean : p.issues = []) :
    ∃ rowOffset : Prop, Passes {} p (c.calls.flatMap Call.params)
      (((∀ named ∈ sourceText? kind sql, ∀ n ∈ sourceNames named,
          paramsIn (plainName n) = paramsIn n) ∧
        ∀ named ∈ assignmentText? kind sql, ∀ n ∈ columnTexts named,
          paramsIn (columnName n) = paramsIn n) ∧ rowOffset)
      ((c.joins ≠ [] → ∀ reference ∈ c.mainReference?, paramsIn reference = []) ∧
        ∀ j ∈ c.joins, j.table.writtenAlias? = none → paramsIn j.table.table = []) ∧
      ((∀ t ∈ clauseTexts kind sql, DigitFree t) → p.issued ≤ largestNumber →
        (rowOffset ↔ (kind = .select → (offsetSection? sql).isSome → ∀ body ∈ limitSection? sql,
          (boundParams c.limit).length = placeholders body))) := by
  have same := kind_of_read read
  rw [Clauses.calls, same]
  cases kind with
  | select =>
    obtain ⟨rowOffset, passes, iff⟩ := passes_readSelect normal free read clean
    refine ⟨rowOffset, passes.of_iff (by simp [assignmentText?]) Iff.rfl, ?_⟩
    simpa using iff
  | insert =>
    obtain ⟨_, _, -, -, -, -, rfl⟩ := readInsert_ok read
    have passes := passes_readInsert normal free read clean
    refine ⟨True, passes.of_iff (by simp [sourceText?]) (by simp), ?_⟩
    simp
  | update =>
    refine ⟨True, (passes_readUpdate normal free read clean).of_iff (by simp) Iff.rfl, ?_⟩
    simp
  | delete =>
    have passes := passes_readDelete normal free read clean
    refine ⟨True, passes.of_iff (by simp [assignmentText?]) Iff.rfl, ?_⟩
    simp

end Statement
section Conversion

variable {reserved : ReservedWords} {raw : Text} {c : Conversion}

/-- A complete conversion passes each parameter on exactly once if and only if the statement does
    none of what loses or repeats one. -/
theorem params_passed_once_iff (free : ¬paramMarker <:+: raw) (ok : convert reserved raw = .ok c)
    (success : c.outcome = .success) :
    (c.calls.flatMap Call.params).Perm (List.range' 1 c.paramCount) ↔
      c.paramCount ≤ largestNumber ∧ PassesEach c.kind (normalize raw) c.clauses := by
  obtain ⟨p, converted⟩ := convert_ok ok
  have normal := isNormal_normalize raw
  have freeNormal : ¬paramMarker <:+: normalize raw := fun inside =>
    free (infix_of_normalize (by decide) (by decide) (by decide) raw inside)
  have read := converted.read
  have freshTexts := fresh_clauseTexts normal freeNormal read
  have freeTexts : ∀ t ∈ clauseTexts c.kind (normalize raw), ¬paramMarker <:+: t := fun t member =>
    (freshTexts t member).free
  have advance := advance_clauseTexts read
  obtain ⟨rowOffset, ⟨entries, named, account⟩, sameOffset⟩ :=
    passes_readStatement normal freeNormal read (converted.clean success)
  -- what was named is what the texts of the statement hold
  have names : entries.flatMap (fun e => namesIn e.2) =
      (numberedAll 0 (clauseTexts c.kind (normalize raw))).flatMap namesIn := by
    have texts := advance.named
    rw [named, List.nil_append, List.nil_append] at texts
    rw [texts, ← List.flatMap_map Prod.snd namesIn, List.map_snd_zip (by simp)]
  have issued : p.issued = ((clauseTexts c.kind (normalize raw)).map placeholders).sum := by
    simpa using advance.issued
  have count : c.paramCount = ((clauseTexts c.kind (normalize raw)).map placeholders).sum := by
    rw [converted.paramCount, ← converted.issued, issued]
  have most := length_names_numberedAll (k := 0) freeTexts
  rw [names] at account
  rw [converted.calls, account.perm_iff (List.nodup_range' ..) (by rw [List.length_range', count]; exact most),
    count, ← issued]
  -- every placeholder has its number if and only if no digit follows it
  have numbers : ((numberedAll 0 (clauseTexts c.kind (normalize raw))).flatMap namesIn).Perm
      (List.range' 1 p.issued) ↔
        p.issued ≤ largestNumber ∧ ∀ t ∈ clauseTexts c.kind (normalize raw), DigitFree t := by
    constructor
    · intro perm
      refine ⟨?_, digitFree_of_perm freeTexts (by rwa [← issued, Nat.zero_add])⟩
      by_contra tooMany
      have last : p.issued ∈ List.range' 1 p.issued := by
        rw [List.mem_range'_1]
        omega
      obtain ⟨t, -, inText⟩ := List.mem_flatMap.mp (perm.mem_iff.mpr last)
      exact tooMany (le_largestNumber inText)
    · rintro ⟨fits, digitFree⟩
      rw [names_numberedAll freeTexts digitFree (by omega), ← issued]
  rw [numbers]
  constructor
  · rintro ⟨⟨fits, digits⟩, ⟨⟨names, columns⟩, offset⟩, main, joined⟩
    exact ⟨fits, digits, names, columns, (sameOffset digits fits).mp offset, main, joined⟩
  · rintro ⟨fits, digits, names, columns, offset, main, joined⟩
    exact ⟨⟨fits, digits⟩, ⟨⟨names, columns⟩, (sameOffset digits fits).mpr offset⟩, main, joined⟩

def pagedTwice : Text := "SELECT a FROM t LIMIT ?, 5 OFFSET 7"

theorem params_passed_once_iff_pagedTwice :
    ∃ c, convert default pagedTwice = .ok c ∧ c.outcome = .success ∧
      ¬(c.calls.flatMap Call.params).Perm (List.range' 1 c.paramCount) := by
  have chars : pagedTwice = _ := String.toList_ofList
  have facts : (convert default pagedTwice).map (fun c => (c.outcome, c.kind, c.clauses.limit)) =
      .ok (.success, .select, some (.literal 5)) := by
    rw [chars]
    decide +kernel
  cases ok : convert default pagedTwice with
  | error issue =>
    rw [ok] at facts
    cases facts
  | ok c =>
    rw [ok] at facts
    obtain ⟨success, kind, limit⟩ : c.outcome = .success ∧ c.kind = .select ∧
        c.clauses.limit = some (.literal 5) := by simpa [Except.map] using facts
    refine ⟨c, rfl, success, ?_⟩
    rw [params_passed_once_iff (by decide +kernel) ok success]
    rintro ⟨-, passes⟩
    have lost := passes.rowOffset kind (by decide +kernel) "?, 5" (by decide +kernel)
    rw [limit] at lost
    exact absurd lost (by decide +kernel)

end Conversion
end QueryChain
