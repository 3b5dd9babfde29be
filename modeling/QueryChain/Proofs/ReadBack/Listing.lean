import QueryChain.Proofs.Keyword.Lacks
import QueryChain.Proofs.Params.Numbers
import QueryChain.Statement.Assignment

namespace QueryChain

structure Item (t : Text) : Prop where
  solid : Solid t
  trimmed : trim t = t
  full : t ≠ []
  whole : hasTop ',' t = false

section Pieces

variable {d : Char} {s t u : Text}

theorem hasTop_eq_false_iff : hasTop d t = false ↔ ∀ m ∈ scan t, m.isTopOf d = false := by
  have dropped : hasTop d t = false ↔ (scan t).dropWhile (!·.isTopOf d) = [] := by
    rw [hasTop, cutTop?]
    cases (scan t).dropWhile (!·.isTopOf d) <;> simp
  rw [dropped, List.dropWhile_eq_nil_iff]
  simp

theorem Neat.item (neat : Neat t) (whole : hasTop ',' t = false) : Item t := ⟨neat.solid, neat.trim, neat.ne_nil, whole⟩

theorem hasTop_of_not_mem (absent : d ∉ t) : hasTop d t = false := by
  rw [hasTop_eq_false_iff]
  intro m member
  have inText : m.char ∈ markText (scan t) := List.mem_map_of_mem member
  rw [markText_scan] at inText
  have other : m.char ≠ d := fun same => absurd inText (same ▸ absent)
  simp [Mark.isTopOf, other]

/-- A text is cut at the first delimiter behind one that has none. -/
theorem cutTop?_append (solid : Solid s) (plain : isPlain d) (other : d ≠ '*') (whole : hasTop d s = false) (u : Text) :
    cutTop? d (s ++ d :: u) = some (s, u) := by
  have dash : d ≠ '-' := by
    rintro rfl
    cases plain
  have here : (⟨d, 0, .code⟩ : Mark).isTopOf d := by simp [Mark.isTopOf, Mark.isTop, Mark.isCode]
  have kept : ∀ m ∈ scan s, (!m.isTopOf d) = true := by simpa using hasTop_eq_false_iff.mp whole
  rw [cutTop?, solid.scan_append (loose_cons dash other u), scan_plain plain, List.dropWhile_append_of_pos kept,
    List.takeWhile_append_of_pos kept, List.dropWhile_cons_of_neg (by simp [here]),
    List.takeWhile_cons_of_neg (by simp [here])]
  simp [markText_scan]

theorem hasTop_glue (solid : Solid s) (other : d ≠ ' ') (first : hasTop d s = false) (second : hasTop d u = false) :
    hasTop d (s ++ ' ' :: u) = false := by
  rw [hasTop_eq_false_iff] at first second ⊢
  intro m member
  rw [solid.scan_glue, List.mem_append, List.mem_cons] at member
  rcases member with inFirst | rfl | inSecond
  · exact first m inFirst
  · simp [Mark.isTopOf, Ne.symm other]
  · exact second m inSecond

theorem hasTop_numbered (plain : ∀ n, d ∉ paramName n) (whole : hasTop d t = false) (issued : Nat) :
    hasTop d (numbered issued t) = false := by
  rw [hasTop_eq_false_iff] at whole ⊢
  intro m member
  rw [scan_numbered] at member
  rcases mem_nameMarks member with inText | ⟨-, n, inName⟩
  · exact whole m inText
  · have other : m.char ≠ d := by
      rintro rfl
      exact plain n inName
    simp [Mark.isTopOf, other]

theorem not_mem_paramName (letter : d ∉ paramMarker) (digit : d.isDigit = false) (n : Nat) : d ∉ paramName n := by
  intro member
  rcases List.mem_append.mp member with inMarker | figure
  · exact letter inMarker
  · rw [isDigit_of_mem_decimal figure] at digit
    cases digit

theorem Item.named (item : Item t) (issued : Nat) : Item (numbered issued t) where
  solid := item.solid.named issued
  trimmed := trim_numbered item.trimmed issued
  full := fun empty => item.full ((numbered_eq_nil_iff _ _).mp empty)
  whole := hasTop_numbered (not_mem_paramName (by decide) (by decide)) item.whole issued

def topPieces (d : Char) (t : Text) : List Text := ((scan t).splitOnP (·.isTopOf d)).map (trim <| markText ·)

theorem splitTop_eq (d : Char) (t : Text) : splitTop d t = dropEndWhile List.isEmpty (topPieces d t) := rfl

theorem topPieces_of_whole (whole : hasTop d t = false) : topPieces d t = [trim t] := by
  rw [topPieces, List.splitOnP_eq_singleton (hasTop_eq_false_iff.mp whole), List.map_singleton, markText_scan]

theorem topPieces_delimiter (solid : Solid s) (plain : isPlain d) (other : d ≠ '*') (u : Text) :
    topPieces d (s ++ d :: u) = topPieces d s ++ topPieces d u := by
  have dash : d ≠ '-' := by
    rintro rfl
    cases plain
  have here : (⟨d, 0, .code⟩ : Mark).isTopOf d := by simp [Mark.isTopOf, Mark.isTop, Mark.isCode]
  rw [topPieces, solid.scan_append (loose_cons dash other u), scan_plain plain,
    List.splitOnP_append_cons _ _ here, List.map_append]
  rfl

theorem topPieces_space (other : d ≠ ' ') (u : Text) : topPieces d (' ' :: u) = topPieces d u := by
  have space : (⟨' ', 0, .code⟩ : Mark).isTopOf d = false := by simp [Mark.isTopOf, Ne.symm other]
  rw [topPieces, scan_space, List.splitOnP_cons_eq_if_modifyHead, space, if_neg (by decide), topPieces]
  obtain ⟨piece, pieces, parts⟩ := List.exists_cons_of_ne_nil (List.splitOnP_ne_nil (·.isTopOf d) (scan u))
  rw [parts, List.modifyHead_cons, List.map_cons, List.map_cons]
  congr 1
  have blank : isBlank ' ' := by decide
  have cons : markText (⟨' ', 0, .code⟩ :: piece) = ' ' :: markText piece := rfl
  rw [cons]
  obtain ⟨front, back, whole, blankFront, blankBack⟩ := trim_spec (markText piece)
  conv_lhs => rw [whole]
  have blanks : ∀ c ∈ ' ' :: front, isBlank c := by simpa [blank] using blankFront
  have padded := trim_pad blanks blankBack (trim_trim (markText piece))
  simpa using padded

end Pieces
section List

variable {ts : List Text} {t u : Text} {issued : Nat}

theorem joinWith_cons (t u : Text) (ts : List Text) :
    joinWith ", " (t :: u :: ts) = t ++ [','] ++ ' ' :: joinWith ", " (u :: ts) := by
  simp [joinWith, List.intercalate]

theorem joinWith_one (separator t : Text) : joinWith separator [t] = t := by simp [joinWith]

theorem solid_comma (solid : Solid t) : Solid (t ++ [',']) :=
  solid.append (Solid.plain (by decide)) (loose_cons (by decide) (by decide) [])

theorem solid_list (solid : ∀ t ∈ ts, Solid t) : Solid (joinWith ", " ts) := by
  induction ts with
  | nil => exact .nil
  | cons t ts ih =>
    cases ts with
    | nil =>
      rw [joinWith_one]
      exact solid t (by simp)
    | cons u ts =>
      rw [joinWith_cons]
      exact (solid_comma (solid t (by simp))).glue (ih fun v member => solid v (List.mem_cons_of_mem _ member))

theorem lastWord_comma (t : Text) : lastWord (t ++ [',']) = [] := by
  rw [lastWord, List.reverse_append]
  have stop : isWordChar ',' = false := by decide
  simp [stop, upper]

theorem firstWord_list (t : Text) (ts : List Text) : firstWord (joinWith ", " (t :: ts)) = firstWord t := by
  cases ts with
  | nil => rw [joinWith_one]
  | cons u ts => rw [joinWith_cons, firstWord_glue, firstWord_append (by simp; decide)]

theorem uncrossed_of_bare {ks : List Keyword} (areKeywords : ∀ k ∈ ks, IsKeyword k) (bare : lastWord t = [])
    (u : Text) : Uncrossed ks t u := by
  intro k member
  left
  rw [bare]
  intro inside
  exact ((areKeywords k member).2 [] ((List.dropLast_sublist k).subset inside)).1 rfl

theorem uncrossed_of_bare_first {ks : List Keyword} (areKeywords : ∀ k ∈ ks, IsKeyword k) (bare : firstWord u = [])
    (s : Text) : Uncrossed ks s u := by
  intro k member
  right
  rw [bare]
  intro inside
  exact ((areKeywords k member).2 [] ((List.tail_sublist k).subset inside)).1 rfl

theorem neat_list (neat : ∀ t ∈ ts, Neat t) (full : ts ≠ []) : Neat (joinWith ", " ts) := by
  induction ts with
  | nil => exact absurd rfl full
  | cons t ts ih =>
    cases ts with
    | nil =>
      rw [joinWith_one]
      exact neat t (by simp)
    | cons u ts =>
      rw [joinWith_cons]
      exact (neat t (by simp)).comma.glue (ih (fun v member => neat v (List.mem_cons_of_mem _ member)) (by simp))
        (uncrossed_of_bare isKeyword_seamKeywords (lastWord_comma t) _)

theorem lacks_list {ks : List Keyword} (areKeywords : ∀ k ∈ ks, IsKeyword k) (neat : ∀ t ∈ ts, Neat t)
    (lacks : ∀ t ∈ ts, Lacks ks t) (full : ts ≠ []) : Lacks ks (joinWith ", " ts) := by
  induction ts with
  | nil => exact absurd rfl full
  | cons t ts ih =>
    cases ts with
    | nil =>
      rw [joinWith_one]
      exact lacks t (by simp)
    | cons u ts =>
      have rest := ih (fun v member => neat v (List.mem_cons_of_mem _ member))
        (fun v member => lacks v (List.mem_cons_of_mem _ member)) (by simp)
      have neatRest : Neat (joinWith ", " (u :: ts)) :=
        neat_list (fun v member => neat v (List.mem_cons_of_mem _ member)) (by simp)
      rw [joinWith_cons]
      exact ((lacks t (by simp)).comma areKeywords (neat t (by simp)).solid).glue rest areKeywords
        (neat t (by simp)).comma neatRest (uncrossed_of_bare areKeywords (lastWord_comma t) _)

theorem numbered_list (solid : ∀ t ∈ ts, Solid t) (issued : Nat) :
    numbered issued (joinWith ", " ts) = joinWith ", " (numberedAll issued ts) := by
  induction ts generalizing issued with
  | nil => rfl
  | cons t ts ih =>
    have here := solid t (by simp)
    cases ts with
    | nil => rw [numberedAll, numberedAll, joinWith_one, joinWith_one]
    | cons u ts =>
      have rest := ih (fun v member => solid v (List.mem_cons_of_mem _ member)) (issued + placeholders t)
      have comma : Loose [','] := loose_cons (by decide) (by decide) []
      have none : placeholders [','] = 0 := by decide
      rw [joinWith_cons, (solid_comma here).numbered_glue, here.numbered_append comma, here.placeholders_append comma,
        none, Nat.add_zero, rest, numbered_of_none none]
      exact (joinWith_cons _ _ _).symm

theorem placeholders_list (solid : ∀ t ∈ ts, Solid t) :
    placeholders (joinWith ", " ts) = (ts.map placeholders).sum := by
  induction ts with
  | nil => rfl
  | cons t ts ih =>
    have here := solid t (by simp)
    cases ts with
    | nil => simp [joinWith_one]
    | cons u ts =>
      have rest := ih fun v member => solid v (List.mem_cons_of_mem _ member)
      have comma : Loose [','] := loose_cons (by decide) (by decide) []
      have none : placeholders [','] = 0 := by decide
      rw [joinWith_cons, (solid_comma here).placeholders_glue, here.placeholders_append comma, none, rest,
        Nat.add_zero]
      rfl

theorem topPieces_list (items : ∀ t ∈ ts, Item t) (full : ts ≠ []) : topPieces ',' (joinWith ", " ts) = ts := by
  induction ts with
  | nil => exact absurd rfl full
  | cons t ts ih =>
    have here := items t (by simp)
    cases ts with
    | nil => rw [joinWith_one, topPieces_of_whole here.whole, here.trimmed]
    | cons u ts =>
      rw [joinWith_cons, List.append_assoc, List.singleton_append,
        topPieces_delimiter here.solid (by decide) (by decide), topPieces_space (by decide),
        topPieces_of_whole here.whole, here.trimmed,
        ih (fun v member => items v (List.mem_cons_of_mem _ member)) (by simp)]
      rfl

/-- A list falls apart into its items. -/
theorem splitTop_list (items : ∀ t ∈ ts, Item t) : splitTop ',' (joinWith ", " ts) = ts := by
  by_cases empty : ts = []
  · rw [empty]
    decide
  rw [splitTop_eq, topPieces_list items empty, dropEndWhile]
  obtain ⟨t, rest, last⟩ := List.exists_cons_of_ne_nil (mt List.reverse_eq_nil_iff.mp empty)
  have item := items t (List.mem_reverse.mp (by rw [last]; simp))
  rw [last, List.dropWhile_cons_of_neg, ← last, List.reverse_reverse]
  simpa using item.full

theorem items_named (items : ∀ t ∈ ts, Item t) (issued : Nat) : ∀ t ∈ numberedAll issued ts, Item t := by
  intro t member
  obtain ⟨u, inside, n, rfl⟩ := mem_numberedAll member
  exact (items u inside).named n

/-- The items of a list whose placeholders were named. -/
theorem splitTop_numbered (items : ∀ t ∈ ts, Item t) (issued : Nat) :
    splitTop ',' (numbered issued (joinWith ", " ts)) = numberedAll issued ts := by
  rw [numbered_list fun t member => (items t member).solid, splitTop_list (items_named items issued)]

end List
end QueryChain
