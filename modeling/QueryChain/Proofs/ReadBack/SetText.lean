import QueryChain.Proofs.ReadBack.Printed

namespace QueryChain

structure AssignmentText where
  owner : Option Text := none
  column : Text
  value : Text
  deriving DecidableEq, Repr

namespace AssignmentText

def columnText (a : AssignmentText) : Text :=
  match a.owner with
  | none => a.column
  | some p => p ++ '.' :: a.column

def text (a : AssignmentText) : Text := a.columnText ++ ' ' :: ("=".toList ++ ' ' :: a.value)

def read (issued : Nat) : List AssignmentText → List Assignment
  | [] => []
  | a :: as => ⟨a.column, numbered issued a.value⟩ :: read (issued + placeholders a.value) as

structure Fits (reserved : ReservedWords) (ks : List Keyword) (target : TableRef) (a : AssignmentText) : Prop where
  column : Identifier reserved a.column
  owner : ∀ p ∈ a.owner, Identifier reserved p ∧ target.isReferredBy p
  value : Atom ks a.value

variable {reserved : ReservedWords} {ks : List Keyword} {target : TableRef} {a : AssignmentText}
  {as : List AssignmentText}

instance (a : AssignmentText) : Decidable (a.Fits reserved ks target) :=
  decidable_of_iff (Identifier reserved a.column ∧
      (∀ p ∈ a.owner, Identifier reserved p ∧ target.isReferredBy p) ∧ Atom ks a.value)
    ⟨fun ⟨column, owner, value⟩ => ⟨column, owner, value⟩, fun fits => ⟨fits.column, fits.owner, fits.value⟩⟩

theorem chars (fits : a.Fits reserved ks target) : ∀ c ∈ a.columnText, isIdentifierChar c ∨ c = '.' := by
  intro c member
  rw [columnText] at member
  split at member
  · exact .inl (fits.column.chars c member)
  · rename_i p owner
    rw [List.mem_append, List.mem_cons] at member
    rcases member with inOwner | dot | inColumn
    · exact .inl ((fits.owner p owner).1.chars c inOwner)
    · exact .inr dot
    · exact .inl (fits.column.chars c inColumn)

theorem not_mem (fits : a.Fits reserved ks target) {d : Char} (dot : d ≠ '.') (other : isIdentifierChar d = false) :
    d ∉ a.columnText := by
  intro member
  rcases chars fits d member with name | same
  · rw [name] at other
    cases other
  · exact dot same

theorem neat_column (fits : a.Fits reserved ks target) : Neat a.columnText := by
  refine .of_plain (fun c member => ?_) ?_
  · have semicolon : c ≠ ';' := by
      rintro rfl
      exact not_mem fits (by decide) (by decide) member
    rcases chars fits c member with name | rfl
    · have word := isWordChar_of_isIdentifierChar name
      have full : isBlank c = false := by
        by_contra blank
        rw [isWordChar_of_isBlank c (by simpa using blank)] at word
        cases word
      exact ⟨isPlain_of_isIdentifierChar name, full, semicolon⟩
    · decide
  · rw [columnText]
    split
    · exact fits.column.full
    · simp

theorem lacks_column (fits : a.Fits reserved ks target) (allReserved : AllReserved ks) : Lacks ks a.columnText := by
  cases owner : a.owner with
  | none =>
    rw [columnText, owner]
    exact fits.column.lacks allReserved
  | some p =>
    have plain : ∀ c ∈ a.columnText, isWordChar c ∧ isPlain c := by
      intro c member
      rcases chars fits c member with name | rfl
      · exact ⟨isWordChar_of_isIdentifierChar name, isPlain_of_isIdentifierChar name⟩
      · decide
    have dotted : '.' ∈ upper a.columnText := by
      rw [columnText, owner]
      exact List.mem_map.mpr ⟨'.', by simp, by decide⟩
    obtain ⟨d, w, text⟩ := List.exists_cons_of_ne_nil (neat_column fits).ne_nil
    rw [text] at plain dotted ⊢
    apply lacks_of_words fun k member => (allReserved k member).1
    intro k member inside
    obtain ⟨⟨full, words⟩, -⟩ := allReserved k member
    obtain ⟨v, vs, rfl⟩ := List.exists_cons_of_ne_nil full
    obtain ⟨wordFull, capital⟩ := words v (by simp)
    rw [topWords_word plain, List.map_cons, List.map_map, List.headD_cons, List.mem_cons] at inside
    rcases inside with rfl | empty
    · exact absurd (capital '.' dotted) (by decide)
    · obtain ⟨_, _, same⟩ := List.mem_map.mp empty
      exact wordFull same.symm

theorem neat_equals : Neat "=" := .of_plain (by decide) (by decide)

theorem bare_equals : firstWord "=" = [] ∧ lastWord "=" = [] := by decide

theorem lacks_equals (areKeywords : ∀ k ∈ ks, IsKeyword k) : Lacks ks "=" := by
  apply lacks_of_words areKeywords
  intro k member inside
  obtain ⟨full, words⟩ := areKeywords k member
  obtain ⟨w, ws, rfl⟩ := List.exists_cons_of_ne_nil full
  rw [show (topWords "=").map Prod.snd = [[]] by decide, List.mem_singleton, List.headD_cons] at inside
  exact (words w (by simp)).1 inside

/-- An assignment can be the body of a section. -/
theorem body (fits : a.Fits reserved ks target) (allReserved : AllReserved ks) : Body ks a.text := by
  have areKeywords : ∀ k ∈ ks, IsKeyword k := fun k member => (allReserved k member).1
  have bare : firstWord ("=".toList ++ ' ' :: a.value) = [] := by
    rw [firstWord_glue]
    exact bare_equals.1
  have value := neat_equals.glue fits.value.neat (uncrossed_of_bare isKeyword_seamKeywords bare_equals.2 _)
  have lacksValue := (lacks_equals areKeywords).glue fits.value.lacks areKeywords neat_equals fits.value.neat
    (uncrossed_of_bare areKeywords bare_equals.2 _)
  exact ⟨(neat_column fits).glue value (uncrossed_of_bare_first isKeyword_seamKeywords bare _),
    (lacks_column fits allReserved).glue lacksValue areKeywords (neat_column fits) value
      (uncrossed_of_bare_first areKeywords bare _)⟩

theorem item (fits : a.Fits reserved ks target) : Item a.text := by
  have equals : hasTop ',' "=" = false := by decide
  have column : hasTop ',' a.columnText = false := hasTop_of_not_mem (not_mem fits (by decide) (by decide))
  have fitting : a.Fits reserved [] target := ⟨fits.column, fits.owner, { fits.value with lacks := by simp [Lacks] }⟩
  have neat := (body fitting (by simp [AllReserved])).neat
  exact neat.item (hasTop_glue (neat_column fits).solid (by decide) column
    (hasTop_glue neat_equals.solid (by decide) equals fits.value.whole))

theorem numbered_text (fits : a.Fits reserved ks target) (issued : Nat) :
    numbered issued a.text = a.columnText ++ ' ' :: ("=".toList ++ ' ' :: numbered issued a.value) := by
  have free := not_mem fits (d := '?') (by decide) (by decide)
  rw [text, (neat_column fits).solid.numbered_glue, neat_equals.solid.numbered_glue, numbered_of_free free,
    placeholders_of_free free, numbered_of_free (by decide), placeholders_of_free (by decide)]
  rfl

theorem placeholders_text (fits : a.Fits reserved ks target) : placeholders a.text = placeholders a.value := by
  have free := not_mem fits (d := '?') (by decide) (by decide)
  rw [text, (neat_column fits).solid.placeholders_glue, neat_equals.solid.placeholders_glue,
    placeholders_of_free free, placeholders_of_free (by decide), Nat.zero_add, Nat.zero_add]

theorem segments_column (fits : a.Fits reserved ks target) : segments a.columnText = a.owner.toList ++ [a.column] := by
  have name := fits.column
  cases owner : a.owner with
  | none =>
    rw [columnText, owner]
    exact name.segments_eq
  | some p =>
    have first := (fits.owner p owner).1
    have whole {t : Text} (isName : Identifier reserved t) : topPieces '.' t = [t] := by
      rw [topPieces_of_whole (isName.hasTop_eq (by decide)), isName.neat.trim]
    have pieces : splitTop '.' (p ++ '.' :: a.column) = [p, a.column] := by
      rw [splitTop_eq, topPieces_delimiter first.neat.solid (by decide) (by decide), whole first, whole name]
      simp [dropEndWhile, name.full]
    have trimmed := (neat_column fits).trim
    rw [columnText, owner] at trimmed ⊢
    dsimp only at trimmed ⊢
    rw [segments, trimmed, pieces]
    simp [first.unquoted_eq, name.unquoted_eq]

/-- A written assignment is read as what it stands for. -/
theorem assignment?_eq (fits : a.Fits reserved ks target) (issued : Nat) :
    assignment? target (numbered issued a.text) = .ok ⟨a.column, numbered issued a.value⟩ := by
  have column := neat_column fits
  have value := fits.value.item.named issued
  have cut : cutTop? '=' (numbered issued a.text) = some (a.columnText ++ [' '], ' ' :: numbered issued a.value) := by
    have parts : numbered issued a.text = (a.columnText ++ [' ']) ++ '=' :: (' ' :: numbered issued a.value) := by
      rw [numbered_text fits]
      simp
    have space : hasTop '=' (a.columnText ++ [' ']) = false := by
      apply hasTop_of_not_mem
      have absent := not_mem fits (d := '=') (by decide) (by decide)
      simpa using absent
    rw [parts, cutTop?_append (column.solid.append (Solid.plain (by decide)) (loose_space [])) (by decide) (by decide)
      space]
  have padded : trim (a.columnText ++ [' ']) = a.columnText := trim_pad (f := []) (by simp) (by decide) column.trim
  have names : segments (a.columnText ++ [' ']) = a.owner.toList ++ [a.column] := by
    rw [segments, padded, ← column.trim, ← segments_column fits, segments]
  have owner : (qualifier? (a.columnText ++ [' '])).filter (!target.isReferredBy ·) = none := by
    rw [qualifier?, names, List.dropLast_concat]
    cases here : a.owner with
    | none => rfl
    | some p =>
      have own := (fits.owner p here).2
      simp [joinWith_one, Option.filter, own]
  have last : columnName (a.columnText ++ [' ']) = a.column := by
    rw [columnName, names, List.getLastD_concat]
  rw [assignment?, cut]
  dsimp only
  rw [owner]
  dsimp only
  rw [last, trim_space value.trimmed, if_neg]
  simp [fits.column.full, value.full]

def listText (as : List AssignmentText) : Text := joinWith ", " (as.map text)

theorem items (fits : ∀ a ∈ as, a.Fits reserved ks target) : ∀ t ∈ as.map text, Item t := by
  intro t member
  obtain ⟨a, inList, rfl⟩ := List.mem_map.mp member
  exact item (fits a inList)

theorem body_listText (fits : ∀ a ∈ as, a.Fits reserved ks target) (allReserved : AllReserved ks) (full : as ≠ []) :
    Body ks (listText as) := by
  have bodies : ∀ t ∈ as.map text, Body ks t := by
    intro t member
    obtain ⟨a, inList, rfl⟩ := List.mem_map.mp member
    exact body (fits a inList) allReserved
  refine body_list (fun k member => (allReserved k member).1) bodies _ ?_
  rw [listText?, if_neg (by simpa using full)]
  rfl

theorem answers_readPairs (fits : ∀ a ∈ as, a.Fits reserved ks target) (issued n : Nat) :
    Answers (readPairs target (numberedAll issued (as.map text))) n (read issued as) n := by
  induction as generalizing issued with
  | nil => exact answers_pure _ n
  | cons a as ih =>
    have here := fits a (by simp)
    rw [List.map_cons, numberedAll, readPairs, assignment?_eq here, placeholders_text here]
    exact (ih (fun b member => fits b (List.mem_cons_of_mem _ member)) _).bind (answers_pure _ n)

/-- Written assignments are read as what they stand for, with nothing to note. -/
theorem answers_readAssignments (fits : ∀ a ∈ as, a.Fits reserved ks target) (n : Nat) :
    Answers (readAssignments target (listText as)) n (read n as) (n + placeholders (listText as)) := by
  rw [readAssignments]
  refine (answers_nameParams _ n).bind ?_
  rw [listText, splitTop_numbered (items fits)]
  exact answers_readPairs fits n _

end AssignmentText
end QueryChain
