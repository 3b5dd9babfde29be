import QueryChain.Proofs.Join.Clauses

namespace QueryChain

section Pad

variable {ks : List Keyword} {t gap : Text}

theorem lacks_nil (ks : List Keyword) : Lacks ks [] := by
  rw [← find?_eq_none_iff]
  rfl

theorem Lacks.pad (lacks : Lacks ks t) (areKeywords : ∀ k ∈ ks, IsKeyword k) (solid : Solid t)
    (blank : gap = [] ∨ gap = [' ']) : Lacks ks (t ++ gap) := by
  rcases blank with rfl | rfl
  · rwa [List.append_nil]
  · refine lacks.append areKeywords solid (loose_space []) (by simp; decide) ?_ ((lacks_nil ks).space areKeywords)
    rintro k member ⟨front, back, rest, more, -, behind, -, full, spells, -⟩
    obtain ⟨c, rest, rfl⟩ := List.exists_cons_of_ne_nil full
    obtain ⟨rfl, nothing⟩ := List.cons.inj behind
    obtain ⟨rfl, rfl⟩ := List.append_eq_nil_iff.mp nothing.symm
    obtain ⟨d, last, letter⟩ := spells.getLast (areKeywords k member)
    rw [getLast?_append_of_ne_nil (by simp)] at last
    obtain rfl : ' ' = d := by simpa using last
    exact absurd letter (by decide)

theorem trim_space_pad (trimmed : trim t = t) (blank : gap = [] ∨ gap = [' ']) : trim (' ' :: (t ++ gap)) = t := by
  have allBlank : ∀ c ∈ gap, isBlank c := by
    rcases blank with rfl | rfl <;> decide
  exact trim_pad (f := [' ']) (by decide) allBlank trimmed

end Pad
namespace JoinClause

variable {reserved : ReservedWords} {j : JoinClause} {js : List JoinClause} {front pad : Text}

theorem padOf_cases (js : List JoinClause) : padOf js = [] ∨ padOf js = [' '] := by
  cases js with
  | nil => exact .inl rfl
  | cons j js => exact .inr rfl

theorem lastBlankWord_table {t : TableText} (named : t.Named reserved) :
    upper (lastBlankWord t.text) ∉ joinQualifiers := by
  have standard : ∀ q ∈ joinQualifiers, q ∈ ReservedWords.standard := by decide
  have word {a : Text} (name : Identifier reserved a) : lastBlankWord a = a := by
    have whole : lastBlankWord ([] ++ a) = a := lastBlankWord_append name.bare rfl
    rwa [List.nil_append] at whole
  have other {a : Text} (name : Identifier reserved a) : upper a ∉ joinQualifiers := fun member =>
    name.notStandard (standard _ member)
  obtain ⟨name, aliasName⟩ := t
  match aliasName, named.aliasName with
  | none, _ =>
    rw [TableText.text, word named.name]
    exact other named.name
  | some (false, a), second =>
    simp only [TableText.text]
    rw [lastBlankWord_glue, word (second _ rfl)]
    exact other (second _ rfl)
  | some (true, a), second =>
    simp only [TableText.text]
    rw [lastBlankWord_glue, lastBlankWord_glue, word (second _ rfl)]
    exact other (second _ rfl)

theorem trimEnd_body (readable : j.Readable reserved) : trimEnd (' ' :: j.body) = ' ' :: j.body := by
  have table := TableText.neat readable.table
  have last : ∀ {t : Text}, t ≠ [] → trim t = t → trimEnd (' ' :: t) = ' ' :: t := by
    intro t full trimmed
    obtain ⟨c, rest, ending⟩ := List.exists_cons_of_ne_nil (mt List.reverse_eq_nil_iff.mp full)
    have kept : isBlank c = false := by
      apply getLast?_trim (t := t)
      rw [trimmed, ← List.head?_reverse, ending]
      rfl
    rw [trimEnd, dropEndWhile, List.reverse_cons, ending, List.cons_append,
      List.dropWhile_cons_of_neg (by simp [kept]), ← List.cons_append, ← ending, ← List.reverse_cons,
      List.reverse_reverse]
  rw [body]
  split
  · exact last table.ne_nil table.trim
  · rename_i c condition
    have item := (readable.condition c condition).item
    exact last (by simp) (trim_glue table.ne_nil (by simp) table.trim
      (trim_glue (by simp) item.full (by decide) item.trimmed))

theorem lastQualifier?_body (readable : j.Readable reserved) : lastQualifier? (' ' :: j.body) = none := by
  rw [lastQualifier?_eq_none_iff (trimEnd_body readable), ← List.nil_append (' ' :: j.body), lastBlankWord_glue]
  rw [body]
  split
  · exact lastBlankWord_table readable.table
  · rename_i c condition
    have clause := readable.condition c condition
    rw [lastBlankWord_glue, lastBlankWord_glue, ← lastQualifier?_eq_none_iff (trimEnd_eq clause.item.trimmed)]
    exact clause.ends

theorem assign_joins (readable : ∀ j ∈ js, j.Readable reserved) (none : lastQualifier? front = none) :
    assignQualifiers (front ++ leadOf js) (parts js) = (front ++ padOf js, texts js) := by
  induction js generalizing front with
  | nil => rfl
  | cons j js ih =>
    have rest := ih (fun k member => readable k (List.mem_cons_of_mem _ member))
      (lastQualifier?_body (readable j (by simp)))
    rw [List.cons_append] at rest
    rw [leadOf, parts, padOf, texts]
    cases word : j.form.word with
    | join =>
      rw [assignQualifiers, rest, trailingQualifiers_lead j.form none]
      rfl
    | straightJoin =>
      have bare : j.form.lead = [] ∧ j.form.qualifiers = [] := by
        revert word
        cases j.form <;> decide
      rw [assignQualifiers, rest, bare.1, bare.2]
      rfl

/-- The text of the tables and of each join, with the space in front of the next join. -/
theorem cutJoins_eq (readable : ∀ j ∈ js, j.Readable reserved) (solid : Solid front) (lacks : Lacks joinStarts front)
    (none : lastQualifier? front = none) : cutJoins (front ++ restText js) = (front ++ padOf js, texts js) := by
  have cut := cut_joins readable solid lacks
  rw [joinMarks] at cut
  rw [cutJoins, cut]
  exact assign_joins readable none

theorem mainTables_eq (readable : ∀ j ∈ js, j.Readable reserved) (solid : Solid front) (lacks : Lacks joinStarts front)
    (none : lastQualifier? front = none) (trimmed : trim front = front) :
    mainTables (front ++ restText js) = front := by
  have blank : ∀ c ∈ padOf js, isBlank c := by
    rcases padOf_cases js with empty | space
    · simp [empty]
    · rw [space]
      decide
  rw [mainTables, cutJoins_eq readable solid lacks none]
  exact trim_pad (f := []) (by simp) blank trimmed

theorem segment_eq (readable : j.Readable reserved) (padding : pad = [] ∨ pad = [' ']) :
    JoinText.segment ⟨j.form.qualifiers, ' ' :: (j.body ++ pad)⟩ =
      ⟨j.form.qualifiers, j.table.text, j.condition, false⟩ := by
  have areKeywords : ∀ k ∈ ([["ON"], ["USING"]] : List Keyword), IsKeyword k := by decide
  have isOn : ∀ k ∈ ([["ON"]] : List Keyword), IsKeyword k := by decide
  have single : ∀ k ∈ ([["ON"], ["USING"]] : List Keyword), ∃ w, k = [w] := by simp
  have table := TableText.neat readable.table
  have tableLacks : Lacks [["ON"], ["USING"]] j.table.text := TableText.lacks readable.table (by decide) (by decide)
  have noUsing : Lacks [["USING"]] (' ' :: (j.body ++ pad)) := by
    refine Lacks.space ?_ (by decide)
    refine Lacks.pad ?_ (by decide) (solid_body readable) padding
    have word : Solid "ON" := Solid.plain (by decide)
    have one : ∀ k ∈ ([["USING"]] : List Keyword), ∃ w, k = [w] := by simp
    have first : Lacks [["USING"]] j.table.text := tableLacks.mono (by decide)
    rw [body]
    split
    · exact first
    · rename_i c condition
      have last : Lacks [["USING"]] c := (readable.condition c condition).lacks.mono (by decide)
      exact lacks_append one (by decide) table.solid first (lacks_append one (by decide) word (by decide) last)
  have using_ : hasKeyword ["USING"] (' ' :: (j.body ++ pad)) = false := noUsing _ (by simp)
  rw [JoinText.segment]
  simp only [using_]
  cases condition : j.condition with
  | none =>
    have text : j.body = j.table.text := by rw [body, condition]
    have lacks := (tableLacks.pad areKeywords table.solid padding).space areKeywords
    have noOn : (Cursor.start (' ' :: (j.table.text ++ pad))).find? [["ON"]] = none :=
      find?_eq_none_iff.mpr (lacks.mono (by decide))
    rw [text, upTo_lacks lacks, noOn, trim_space_pad table.trim padding]
    rfl
  | some c =>
    have item := (readable.condition c condition).item
    have text : j.body ++ pad = j.table.text ++ ' ' :: (Keyword.text ["ON"] ++ ' ' :: (c ++ pad)) := by
      rw [body, condition, show Keyword.text ["ON"] = "ON".toList by decide]
      simp
    have uncrossed (ks : List Keyword) (sub : ks ⊆ [["ON"], ["USING"]]) (v : Text) :
        ∀ k ∈ ks, ¬Crosses k j.table.text (' ' :: v) := by
      intro k member
      obtain ⟨w, rfl⟩ := single k (sub member)
      exact not_crosses_word (areKeywords _ (sub member))
    have stop (v : Text) : (' ' :: v).head?.any isWordChar = false := by
      simp
      decide
    have upTo : (Cursor.start (' ' :: (j.body ++ pad))).upTo [["ON"], ["USING"]] = ' ' :: (j.table.text ++ [' ']) := by
      rw [text, Cursor.start, Cursor.upTo_space areKeywords, Cursor.upTo_append areKeywords table.solid
        (loose_space _) (stop _) (find?_eq_none_iff.mpr tableLacks) (uncrossed _ (by simp) _), Cursor.start,
        Cursor.upTo_space areKeywords, Cursor.upTo_text (by decide) (stop _) (by simp)]
    have find : (Cursor.start (' ' :: (j.body ++ pad))).find? [["ON"]] =
        some (' ' :: (j.table.text ++ [' ']), ⟨some 'N', scan (' ' :: (c ++ pad))⟩) := by
      rw [text, Cursor.start, Cursor.find?_space isOn, Cursor.find?_append isOn table.solid
        (loose_space _) (stop _) (find?_eq_none_iff.mpr (tableLacks.mono (by decide))) (uncrossed _ (by decide) _),
        Cursor.start, Cursor.find?_space isOn, Cursor.find?_text (by decide) (stop _)]
      rfl
    rw [upTo, find, Option.map_some, Cursor.text_mk, markText_scan, trim_space_pad table.trim (.inr rfl),
      trim_space_pad item.trimmed padding]

theorem resolve_eq (readable : j.Readable reserved) :
    JoinSegment.resolve ⟨j.form.qualifiers, j.table.text, j.condition, false⟩ reserved = .ok (j.join, none) := by
  have natural : JoinSegment.isNatural ⟨j.form.qualifiers, j.table.text, j.condition, false⟩ = false :=
    j.form.notNatural
  have noGroup : (j.table.text.head? == some '(') = false := by
    rw [beq_eq_false_iff_ne]
    exact TableText.head_ne readable.table (by decide) (by decide)
  have whole : (hasTop ',' j.table.text || j.condition.any (hasTop ',')) = false := by
    rw [TableText.hasTop_eq readable.table (by decide) (by decide), Bool.false_or]
    cases condition : j.condition with
    | none => rfl
    | some c => exact (readable.condition c condition).item.whole
  have kept : j.condition.filter (· ≠ []) = j.condition := by
    cases condition : j.condition with
    | none => rfl
    | some c =>
      have full := (readable.condition c condition).item.full
      simp [Option.filter, full]
  simp only [JoinSegment.resolve, natural, noGroup, whole, TableText.ofText?_eq readable.table,
    j.form.kind_ofQualifiers, kept, Bool.false_eq_true, if_false]
  rfl

theorem segments_eq (readable : ∀ j ∈ js, j.Readable reserved) :
    (texts js).map JoinText.segment = js.map fun j => ⟨j.form.qualifiers, j.table.text, j.condition, false⟩ := by
  induction js with
  | nil => rfl
  | cons j js ih =>
    rw [texts, List.map_cons, List.map_cons, ih fun k member => readable k (List.mem_cons_of_mem _ member),
      segment_eq (readable j (by simp)) (padOf_cases js)]

/-- Written joins are read as what they stand for, with nothing to note. -/
theorem resolveJoins_eq (readable : ∀ j ∈ js, j.Readable reserved) (solid : Solid front)
    (lacks : Lacks joinStarts front) (none : lastQualifier? front = none) :
    resolveJoins reserved (front ++ restText js) = .ok (js.map join, []) := by
  have resolved : ((js.map fun j => (⟨j.form.qualifiers, j.table.text, j.condition, false⟩ : JoinSegment)).mapM
      (·.resolve reserved)) = Except.ok (js.map fun j => (j.join, (Option.none : Option Issue))) := by
    induction js with
    | nil => rfl
    | cons j js ih =>
      rw [List.map_cons, List.mapM_cons, resolve_eq (readable j (by simp)),
        ih fun k member => readable k (List.mem_cons_of_mem _ member)]
      rfl
  rw [resolveJoins, joinSegments, cutJoins_eq readable solid lacks none]
  simp only [segments_eq readable, resolved, bind, Except.bind, pure, Except.pure, List.map_map]
  have noIssue : (js.map fun j => (j.join, (Option.none : Option Issue))).filterMap Prod.snd = [] := by
    rw [List.filterMap_map, List.filterMap_eq_nil_iff]
    exact fun _ _ => rfl
  rw [noIssue]
  rfl

end JoinClause
end QueryChain
