import QueryChain.Proofs.Keyword.Words

namespace QueryChain

theorem map_fst_splitPoints (caseDepth : Nat) (between : Bool) (anns : List (Char × Option LogicWord)) :
    (splitPoints caseDepth between anns).map Prod.fst = anns.map Prod.fst := by
  fun_induction splitPoints caseDepth between anns <;> simp_all

/-- Conditions are split at connectives only. -/
theorem connective_of_splitPoints {caseDepth : Nat} {between : Bool}
    {anns : List (Char × Option LogicWord)} {n : Nat} {c : Char} {k : Connective}
    (found : (splitPoints caseDepth between anns)[n]? = some (c, some k)) :
    anns[n]? = some (c, some (.connective k)) := by
  fun_induction splitPoints caseDepth between anns generalizing n <;> cases n <;> simp_all

/-- Whether a text is split at a word depends on that word and on those before it. -/
theorem splitPoints_step (caseDepth : Nat) (between : Bool) (w : Option LogicWord) :
    ∃ k caseDepth' between', ∀ c rest, splitPoints caseDepth between ((c, w) :: rest) =
      (c, k) :: splitPoints caseDepth' between' rest := by
  cases w with
  | none => exact ⟨none, caseDepth, between, fun _ _ => by rw [splitPoints]⟩
  | some w =>
    cases w with
    | caseWord => exact ⟨none, caseDepth + 1, between, fun _ _ => by rw [splitPoints]⟩
    | endWord => exact ⟨none, caseDepth - 1, between, fun _ _ => by rw [splitPoints]⟩
    | between => exact ⟨none, caseDepth, between || caseDepth == 0, fun _ _ => by rw [splitPoints]⟩
    | connective k =>
      by_cases inside : caseDepth ≠ 0
      · exact ⟨none, caseDepth, between, fun _ _ => by rw [splitPoints, if_pos inside]⟩
      · by_cases waiting : k = .and ∧ between
        · exact ⟨none, 0, false, fun _ _ => by rw [splitPoints, if_neg inside, if_pos waiting]⟩
        · exact ⟨some k, 0, between, fun _ _ => by rw [splitPoints, if_neg inside, if_neg waiting]⟩

theorem splitPoints_none (caseDepth : Nat) (between : Bool) (s : Text) (rest : List (Char × Option LogicWord)) :
    splitPoints caseDepth between (s.map (·, none) ++ rest) =
      s.map (·, none) ++ splitPoints caseDepth between rest := by
  induction s with
  | nil => rfl
  | cons c s ih => rw [List.map_cons, List.cons_append, splitPoints, ih, List.map_cons, List.cons_append]

theorem isKeyword_connective (k : Connective) : IsKeyword [k.word] := by cases k <;> decide

theorem cutAt_conditionPieces (t : Text) :
    CutAt Connective.word t 0
      (cutWords (·.word.length) 0
        (splitPoints 0 false (Cursor.annotate logicWordAt? none (scan t)))).1
      (cutWords (·.word.length) 0
        (splitPoints 0 false (Cursor.annotate logicWordAt? none (scan t)))).2 := by
  apply cutAt_cutWords
  · rw [map_fst_splitPoints, map_fst_annotate, markText_scan]
  · exact isKeyword_connective
  · intro n c k found
    have there := connective_of_splitPoints found
    have isKeyword : IsKeyword [LogicWord.word (.connective k)] := isKeyword_connective k
    exact stands_of_annotate (k := LogicWord.connective k) isKeyword (fun _ => rfl) there

section Closed

def Closed (t : Text) : Prop := t.foldl quotingBehind (none, false) = (none, false)

theorem Closed.append {s u : Text} (first : Closed s) (second : Closed u) : Closed (s ++ u) := by
  rw [Closed, List.foldl_append, first, second]

def CanBeOpen (w : Option Char × Bool) : Prop := w = (none, false) ∨ ∃ q b, w = (some q, b) ∧ isQuote q

theorem CanBeOpen.behind {w : Option Char × Bool} (start : CanBeOpen w) (t : Text) :
    CanBeOpen (t.foldl quotingBehind w) := by
  induction t generalizing w with
  | nil => exact start
  | cons c t ih =>
    apply ih
    rcases start with rfl | ⟨q, b, rfl, quote⟩
    · rw [quotingBehind]
      by_cases opens : isQuote c
      · exact .inr ⟨c, false, by rw [if_pos opens], opens⟩
      · exact .inl (by rw [if_neg opens])
    · cases b with
      | true => exact .inr ⟨q, false, rfl, quote⟩
      | false =>
        rw [quotingBehind]
        split_ifs
        · exact .inr ⟨q, true, rfl, quote⟩
        · exact .inl rfl
        · exact .inr ⟨q, false, rfl, quote⟩

theorem noQuote_of_blank {c : Char} (blank : isBlank c) : isQuote c = false := by
  have plain := isPlain_of_isBlank c blank
  by_contra quote
  simp [isPlain, quote] at plain

theorem fold_blank {blanks : Text} {w : Option Char × Bool} (blank : ∀ c ∈ blanks, isBlank c)
    (start : CanBeOpen w) :
    blanks.foldl quotingBehind w = (none, false) ↔ w = (none, false) := by
  induction blanks generalizing w with
  | nil => rfl
  | cons c blanks ih =>
    have noQuote := noQuote_of_blank (blank c (by simp))
    have next : CanBeOpen (quotingBehind w c) := start.behind [c]
    rw [List.foldl_cons, ih (fun d member => blank d (by simp [member])) next]
    rcases start with rfl | ⟨q, b, rfl, quote⟩
    · simp [quotingBehind, noQuote]
    · have other : c ≠ q := by
        rintro rfl
        rw [quote] at noQuote
        cases noQuote
      cases b with
      | true => simp [quotingBehind]
      | false =>
        rw [quotingBehind]
        split_ifs <;> simp

theorem Closed.trim {t : Text} (closed : Closed t) : Closed (trim t) := by
  obtain ⟨front, back, parts, blankFront, blankBack⟩ := trim_spec t
  rw [Closed, parts, List.foldl_append, List.foldl_append,
    (fold_blank blankFront (.inl rfl)).mpr rfl] at closed
  exact (fold_blank blankBack (CanBeOpen.behind (.inl rfl) _)).mp closed

theorem paramsIn_append {s u : Text} (closed : Closed s) (apart : Apart s u) :
    paramsIn (s ++ u) = paramsIn s ++ paramsIn u := by
  rw [← paramsWithin_none, paramsWithin_append _ _ _ apart, closed]
  rfl

def ClosedBefore (us : List Text) : Prop := ∀ u ∈ us.dropLast, Closed u

theorem CutAt.closedBefore {κ : Type} {word : κ → Text} {t : Text} {a : Nat} {head : Text}
    {parts : List (κ × Text)} (cut : CutAt word t a head parts) (isKeyword : ∀ k, IsKeyword [word k])
    (dashes : DashesOnly {} (t.drop a)) (start : stateAt t a = {}) :
    ClosedBefore (head :: parts.map Prod.snd) := by
  induction cut with
  | last => simp [ClosedBefore]
  | @cut a n q k head parts le stands rest ih =>
    have bound := stands.bound
    have order := stands.le
    have later : DashesOnly {} (t.drop q) := by
      intro m member
      have inPlace : (scan (t.drop a)).drop (q - a) = scan (t.drop q) := by
        rw [drop_scan, stateAt_drop start, List.drop_drop, Nat.add_sub_cancel' (by omega),
          stands.state_eq_end (isKeyword k)]
        rfl
      rw [← scan, ← inPlace] at member
      exact dashes m (List.mem_of_mem_drop member)
    have more := ih later (stands.state_eq_end (isKeyword k))
    have here : Closed (slice a n t) := by
      rw [← slice_append_drop le (by omega)] at dashes
      have behind := (quoting_behind rfl dashes).2
      have moved : stateAt t (a + (n - a)) = _ := stateAt_add
      rw [start, Nat.add_sub_cancel' le, ← slice_eq_take_drop, stands.state_eq (isKeyword k)] at moved
      rw [← moved] at behind
      exact behind.symm
    intro u member
    rw [List.map_cons, List.dropLast_cons_of_ne_nil (by simp)] at member
    rcases List.mem_cons.mp member with rfl | rest
    · exact here
    · exact more u rest

end Closed
section Fold

theorem ClosedBefore.trim {us : List Text} (closed : ClosedBefore us) : ClosedBefore (us.map trim) := by
  intro u member
  rw [← List.map_dropLast] at member
  obtain ⟨v, from_, rfl⟩ := List.mem_map.mp member
  exact (closed v from_).trim

theorem ClosedBefore.tail {u : Text} {us : List Text} (closed : ClosedBefore (u :: us)) :
    ClosedBefore us := by
  intro v member
  cases us with
  | nil => cases member
  | cons w us =>
    apply closed v
    rw [List.dropLast_cons_of_ne_nil (by simp)]
    exact List.mem_cons_of_mem _ member

theorem ClosedBefore.head {u v : Text} {us : List Text} (closed : ClosedBefore (u :: v :: us)) :
    Closed u := by
  apply closed
  rw [List.dropLast_cons_of_ne_nil (by simp)]
  exact List.mem_cons_self

theorem ClosedBefore.cons {u : Text} {us : List Text} (here : us ≠ [] → Closed u)
    (closed : ClosedBefore us) : ClosedBefore (u :: us) := by
  intro v member
  by_cases empty : us = []
  · rw [empty] at member
    cases member
  · rw [List.dropLast_cons_of_ne_nil empty] at member
    rcases List.mem_cons.mp member with rfl | later
    · exact here empty
    · exact closed v later

theorem ClosedBefore.filter {us : List Text} (closed : ClosedBefore us) (p : Text → Bool) :
    ClosedBefore (us.filter p) := by
  induction us with
  | nil => exact closed
  | cons u us ih =>
    rw [List.filter_cons]
    by_cases kept : p u
    · rw [if_pos kept]
      apply ClosedBefore.cons _ (ih closed.tail)
      intro more
      cases us with
      | nil => exact absurd rfl more
      | cons v us => exact closed.head
    · rw [if_neg kept]
      exact ih closed.tail

theorem closed_and : Closed " AND ".toList := by
  rw [Closed]
  rfl

theorem paramsIn_and {s u : Text} (closed : Closed s) :
    paramsIn (s ++ " AND ".toList ++ u) = paramsIn s ++ paramsIn u := by
  rw [List.append_assoc, paramsIn_append closed (apart_of_blank_start (by simp; decide)),
    paramsIn_append closed_and (apart_of_blank_end (by simp; decide))]
  rfl

theorem flatMap_foldAnds (afterOr : Bool) (last : Condition) (rest : List Condition)
    (closed : ClosedBefore ((last :: rest).map Condition.text)) :
    (foldAnds afterOr last rest).flatMap (paramsIn ·.text) =
      (last :: rest).flatMap (paramsIn ·.text) := by
  induction rest generalizing afterOr last with
  | nil => rfl
  | cons c rest ih =>
    have here : Closed last.text := closed.head
    rw [foldAnds]
    by_cases joins : afterOr ∧ c.connective = some .and
    · rw [if_pos joins, ih]
      · rw [List.flatMap_cons, List.flatMap_cons, List.flatMap_cons, ← List.append_assoc]
        congr 1
        exact paramsIn_and here
      · apply ClosedBefore.cons _ closed.tail.tail
        intro more
        cases rest with
        | nil => exact absurd rfl more
        | cons d rest => exact (here.append closed_and).append closed.tail.head
    · rw [if_neg joins, List.flatMap_cons, ih _ _ closed.tail]
      rfl

theorem texts_conditionPieces (t : Text) :
    ∃ head parts, CutAt Connective.word t 0 head parts ∧
      (conditionPieces t).map Condition.text =
        ((head :: parts.map Prod.snd).map trim).filter (· ≠ []) := by
  have cut := cutAt_conditionPieces t
  rw [conditionPieces]
  generalize cutWords (·.word.length) 0
    (splitPoints 0 false (Cursor.annotate logicWordAt? none (scan t))) = pieces at cut
  obtain ⟨head, parts⟩ := pieces
  refine ⟨head, parts, cut, ?_⟩
  have all (pieces : List Condition) (texts : pieces.map Condition.text = (head :: parts.map Prod.snd).map trim) :
      (pieces.filter (·.text ≠ [])).map Condition.text =
        ((head :: parts.map Prod.snd).map trim).filter (· ≠ []) := by
    rw [← texts, List.filter_map]
    rfl
  refine Eq.trans ?_ (all (⟨trim head, none⟩ :: parts.map fun part => ⟨trim part.2, some part.1⟩)
    (by simp [Function.comp_def]))
  dsimp only
  split
  · next empty => exact congrArg (List.map Condition.text) empty.symm
  · next first rest full => exact (congrArg (List.map Condition.text) full).symm

theorem paramsIn_splitConditions {t : Text} (clear : Clear t) :
    (splitConditions t).flatMap (paramsIn ·.text) = paramsIn t := by
  rw [splitConditions]
  by_cases empty : t = []
  · rw [if_pos empty, empty]
    rfl
  rw [if_neg empty]
  by_cases group : isGroup t
  · rw [if_pos group]
    simp
  rw [if_neg group]
  by_cases few : (conditionPieces t).length < 2
  · rw [if_pos few]
    simp
  rw [if_neg few]
  obtain ⟨head, parts, cut, texts⟩ := texts_conditionPieces t
  have start : stateAt t 0 = {} := stateAt_zero
  have whole : t.drop 0 = t := List.drop_zero
  have pieces := cut.splits isKeyword_connective (by intro k; cases k <;> decide) (by rwa [whole]) start
  have closed := cut.closedBefore isKeyword_connective (by rw [whole]; exact clear.dashes) start
  rw [whole] at pieces
  have kept := (pieces.map fun u member => splits_trim (pieces.clear u member)).dropEmpty
  have closedKept := closed.trim.filter (· ≠ [])
  rw [← texts] at kept closedKept
  rw [kept.names]
  cases conditions : conditionPieces t with
  | nil => rfl
  | cons first rest =>
    rw [conditions] at closedKept
    rw [foldPrecedence, flatMap_foldAnds _ _ _ closedKept, List.flatMap_map]

end Fold
end QueryChain
