import QueryChain.Proofs.Bytes.Normal
import QueryChain.Proofs.Condition.Chain

namespace QueryChain

namespace Bytewise

/-- What is remembered on the way through a condition: where the piece that is being read starts and
    the connective in front of it, up to where that is still to be passed, how many `CASE`s are
    open, and whether a `BETWEEN` waits for its `AND`. -/
structure Splitting where
  start : Nat := 0
  connective : Option Connective := none
  passed : Nat := 0
  caseDepth : Nat := 0
  between : Bool := false

def pieceOf (connective : Option Connective) (t : Text) : List Condition :=
  if trim t = [] then [] else [⟨trim t, connective⟩]

def connectiveAt? (t : Text) (offset : Nat) : Option (Option (Connective × Nat)) := do
  match ← keyword? t offset ["AND"] with
  | some stop => return some (.and, stop)
  | none => return (← keyword? t offset ["OR"]).map (.or, ·)

def piecesFrom? (t : Text) (s : Splitting) : List (Nat × Mark) → Option (List Condition)
  | [] => do return pieceOf s.connective (← from? t s.start)
  | (offset, m) :: later =>
    if offset < s.passed ∨ ¬m.isTop then piecesFrom? t s later
    else do
      if (← keyword? t offset ["CASE"]).isSome then
        piecesFrom? t { s with caseDepth := s.caseDepth + 1 } later
      else if 0 < s.caseDepth then
        let depth := if (← keyword? t offset ["END"]).isSome then s.caseDepth - 1 else s.caseDepth
        piecesFrom? t { s with caseDepth := depth } later
      else if (← keyword? t offset ["BETWEEN"]).isSome then piecesFrom? t { s with between := true } later
      else
        match ← connectiveAt? t offset with
        | none => piecesFrom? t s later
        | some (k, stop) =>
          if k = .and ∧ s.between then piecesFrom? t { s with between := false } later
          else
            let piece ← part? t s.start offset
            let rest ← piecesFrom? t { s with start := stop, connective := some k, passed := stop } later
            return pieceOf s.connective piece ++ rest

def conditionPieces? (t : Text) : Option (List Condition) := do
  match ← piecesFrom? t {} (← scan? t) with
  | [] => return []
  | first :: rest => return { first with connective := none } :: rest

def splitConditions? (t : Text) : Option (List Condition) := do
  if t = [] then return []
  else if ← isGroup? t then return [⟨t, none⟩]
  else
    let pieces ← conditionPieces? t
    if pieces.length < 2 then return [⟨t, none⟩] else return foldPrecedence pieces

end Bytewise

section Words

variable {t : Text} {n : Nat}

theorem mem_logicWords (w : LogicWord) : w ∈ LogicWord.all := by
  rcases w with _ | _ | _ | ⟨_ | _⟩ <;> decide

theorem startsWith_logicWord {c : Cursor} (top : c.atTop) (w : LogicWord) :
    c.startsWith [w.word] = true ↔ logicWordAt? c = some w := by
  have different : ∀ w ∈ LogicWord.all, ∀ w' ∈ LogicWord.all, w.word = w'.word → w = w' := by decide
  rw [logicWordAt?, if_pos top]
  constructor
  · intro starts
    cases found : LogicWord.all.find? fun w => c.startsWith [w.word] with
    | none => exact absurd starts (by simpa using List.find?_eq_none.mp found w (mem_logicWords w))
    | some w' =>
      have starts' := List.find?_some found
      have word := ((Cursor.startsWith_word (isKeyword_logicWord w)).mp starts).2
      have word' := ((Cursor.startsWith_word (isKeyword_logicWord w')).mp starts').2
      rw [different w (mem_logicWords w) w' (mem_logicWords w') (word.symm.trans word')]
  · intro found
    exact List.find?_some (p := fun w => c.startsWith [LogicWord.word w]) found

theorem logicWordAt?_inside (before : (cursorAt t n).before.any isWordChar) : logicWordAt? (cursorAt t n) = none := by
  rw [logicWordAt?]
  by_cases top : (cursorAt t n).atTop
  · rw [if_pos top, List.find?_eq_none]
    intro w _
    rw [Cursor.startsWith, Cursor.keyword?, if_pos before]
    simp
  · rw [if_neg top]

theorem splitPoints_inside {w : Text} {p q i : Nat} (isKeyword : IsKeyword [w]) (stands : Stands t [w] p q)
    (behind : p < i) (inside : i ≤ q) (depth : Nat) (between : Bool) :
    (splitPoints depth between ((logicMarks t).drop i)).drop (q - i) =
    splitPoints depth between ((logicMarks t).drop q) := by
  have bound := stands.bound
  by_cases last : i = q
  · rw [last, Nat.sub_self, List.drop_zero]
  · have next := splitPoints_inside isKeyword stands (Nat.lt_succ_of_lt behind)
      (Nat.lt_of_le_of_ne inside last) depth between
    have here : (logicMarks t).drop i = _ := annotate_drop logicWordAt? (by omega)
    rw [logicWordAt?_inside (before_of_stands isKeyword stands behind inside)] at here
    rw [here, splitPoints, show q - i = q - (i + 1) + 1 by omega, List.drop_succ_cons]
    exact next
termination_by q - i

end Words

namespace Bytewise

section Pieces

variable {t : Text} {n : Nat}

theorem stands_logicWord {w : LogicWord} (bound : n < t.length) (top : (cursorAt t n).atTop)
    (found : logicWordAt? (cursorAt t n) = some w) : ∃ q, Stands t [w.word] n q ∧ n + w.word.length = q := by
  have starts := (startsWith_logicWord top w).mpr found
  obtain ⟨after, here⟩ := Option.isSome_iff_exists.mp starts
  obtain ⟨q, stands, -⟩ := (keyword?_cursorAt (isKeyword_logicWord w) (Nat.le_of_lt bound)).mp ⟨top, here⟩
  have size := length_of_spells stands.spells
  have le := stands.le
  rw [length_slice stands.bound] at size
  exact ⟨q, stands, by omega⟩

/-- A word stands at a character of the top if it is the word that is found there. -/
theorem keyword?_logicWord (bound : n < t.length) (top : (cursorAt t n).atTop) (w : LogicWord) :
    keyword? t (place t n) [w.word] =
      some (if logicWordAt? (cursorAt t n) = some w then some (place t (n + w.word.length)) else none) := by
  by_cases found : logicWordAt? (cursorAt t n) = some w
  · obtain ⟨q, stands, size⟩ := stands_logicWord bound top found
    rw [keyword?_of_stands (isKeyword_logicWord w) stands, if_pos found, size]
  · rw [if_neg found]
    exact keyword?_eq_none (isKeyword_logicWord w) (Nat.le_of_lt bound)
      (Bool.eq_false_iff.mpr fun starts => found ((startsWith_logicWord top w).mp starts))

theorem connectiveAt?_place (bound : n < t.length) (top : (cursorAt t n).atTop) : connectiveAt? t (place t n) =
    some (match logicWordAt? (cursorAt t n) with
      | some (.connective k) => some (k, place t (n + k.word.length))
      | _ => none) := by
  have and_ : keyword? t (place t n) ["AND"] = _ := keyword?_logicWord bound top (.connective .and)
  have or_ : keyword? t (place t n) ["OR"] = _ := keyword?_logicWord bound top (.connective .or)
  rw [connectiveAt?, and_, or_]
  rcases logicWordAt? (cursorAt t n) with _ | (_ | _ | _ | ⟨_ | _⟩) <;> rfl

def piecesOf (connective : Option Connective) (head : Text) (parts : List (Connective × Text)) : List Condition :=
  pieceOf connective head ++ parts.flatMap fun p => pieceOf (some p.1) p.2

theorem piecesFrom?_passed {s : Splitting} {q i : Nat} (passed : s.passed = place t q) (le : i ≤ q) (bound : q ≤ t.length) :
    piecesFrom? t s (spots (place t i) ((scan t).drop i)) = piecesFrom? t s (spots (place t q) ((scan t).drop q)) := by
  by_cases last : i = q
  · rw [last]
  · have less : place t i < s.passed := by
      rw [passed]
      exact place_lt (by omega) bound
    have inScan : i < (scan t).length := by simp; omega
    rw [spots_drop inScan, piecesFrom?, if_pos (.inl less)]
    exact piecesFrom?_passed passed (by omega) bound
termination_by q - i

theorem piecesFrom?_place (s : Splitting) {a n : Nat} (le : a ≤ n) (inText : n ≤ t.length) (start : s.start = place t a)
    (passed : s.passed ≤ place t n) :
    piecesFrom? t s (spots (place t n) ((scan t).drop n)) = some (piecesOf s.connective
      (slice a n t ++ (cutWords (·.word.length) 0 (splitPoints s.caseDepth s.between ((logicMarks t).drop n))).1)
      (cutWords (·.word.length) 0 (splitPoints s.caseDepth s.between ((logicMarks t).drop n))).2) := by
  have length : (logicMarks t).length = t.length := by
    rw [← List.length_map (f := Prod.fst), logicMarks, map_fst_annotate, markText_scan]
  by_cases bound : n < t.length
  · have inScan : n < (scan t).length := by simpa using bound
    have here : (logicMarks t).drop n = (t[n], logicWordAt? (cursorAt t n)) :: (logicMarks t).drop (n + 1) :=
      annotate_drop logicWordAt? bound
    have onward := Nat.le_of_lt (place_lt (t := t) (Nat.lt_succ_self n) bound)
    -- A character that does not split goes to the piece that is being read.
    have pass (depth : Nat) (between : Bool) (same : splitPoints s.caseDepth s.between ((logicMarks t).drop n) =
          (t[n], none) :: splitPoints depth between ((logicMarks t).drop (n + 1))) :
        piecesFrom? t { s with caseDepth := depth, between := between } (spots (place t (n + 1)) ((scan t).drop (n + 1))) =
          some (piecesOf s.connective
            (slice a n t ++ (cutWords (·.word.length) 0 (splitPoints s.caseDepth s.between ((logicMarks t).drop n))).1)
            (cutWords (·.word.length) 0 (splitPoints s.caseDepth s.between ((logicMarks t).drop n))).2) := by
      have next := piecesFrom?_place { s with caseDepth := depth, between := between } (Nat.le_succ_of_le le) bound start
        (Nat.le_trans passed onward)
      rw [next, same, cutWords, ← slice_concat le bound, List.append_assoc]
      rfl
    have notPassed : ¬place t n < s.passed := Nat.not_lt.mpr passed
    have inTop : (cursorAt t n).atTop = ((scan t)[n]).isTop := by
      rw [Cursor.atTop, marks_cursorAt, List.head?_drop, List.getElem?_eq_getElem inScan]
      rfl
    rw [spots_drop inScan, piecesFrom?]
    by_cases top : ((scan t)[n]).isTop
    · rw [top] at inTop
      have case_ : keyword? t (place t n) ["CASE"] = _ := keyword?_logicWord bound inTop .caseWord
      have end_ : keyword? t (place t n) ["END"] = _ := keyword?_logicWord bound inTop .endWord
      have between_ : keyword? t (place t n) ["BETWEEN"] = _ := keyword?_logicWord bound inTop .between
      rw [if_neg (by simp [notPassed, top])]
      simp only [case_, end_, between_, connectiveAt?_place bound inTop, Option.bind_eq_bind, Option.bind_some]
      rw [here] at pass ⊢
      rcases word : logicWordAt? (cursorAt t n) with _ | (_ | _ | _ | k) <;> rw [word] at pass
      · have same := pass s.caseDepth s.between (by rw [splitPoints])
        by_cases inCase : 0 < s.caseDepth
        · simp [inCase, ← same]
        · simp [inCase, ← same]
      · simp [← pass (s.caseDepth + 1) s.between (by rw [splitPoints])]
      · have same := pass (s.caseDepth - 1) s.between (by rw [splitPoints])
        by_cases inCase : 0 < s.caseDepth
        · simp [inCase, ← same]
        · have flat : s.caseDepth - 1 = s.caseDepth := by omega
          rw [flat] at same
          simp [inCase, ← same]
      · have same := pass s.caseDepth (s.between || s.caseDepth == 0) (by rw [splitPoints])
        by_cases inCase : 0 < s.caseDepth
        · have nested : (s.between || s.caseDepth == 0) = s.between := by
            rw [beq_eq_false_iff_ne.mpr (Nat.pos_iff_ne_zero.mp inCase), Bool.or_false]
          rw [nested] at same
          simp [inCase, ← same]
        · have flat : s.caseDepth = 0 := by omega
          have starts : (s.between || s.caseDepth == 0) = true := by simp [flat]
          rw [starts] at same
          simp [inCase, ← same]
      · by_cases inCase : 0 < s.caseDepth
        · have same := pass s.caseDepth s.between (by rw [splitPoints, if_pos (by omega)])
          simp [inCase, ← same]
        · have flat : s.caseDepth = 0 := by omega
          by_cases waits : k = .and ∧ s.between
          · have same := pass s.caseDepth false (by rw [splitPoints, if_neg (by omega), if_pos waits, flat])
            rw [← same]
            simp [inCase, waits]
          · obtain ⟨q, stands, size⟩ := stands_logicWord bound inTop word
            have size : n + k.word.length = q := size
            have isKeyword : IsKeyword [k.word] := isKeyword_logicWord (.connective k)
            have less : n < q := stands.lt isKeyword
            have later := splitPoints_inside isKeyword stands (Nat.lt_succ_self n) less 0 s.between
            have next := piecesFrom?_place { s with start := place t q, connective := some k, passed := place t q }
              (Nat.le_refl q) stands.bound rfl (Nat.le_refl _)
            rw [slice_self, List.nil_append] at next
            have cut : cutWords (·.word.length) (k.word.length - 1) (splitPoints 0 s.between ((logicMarks t).drop (n + 1))) =
                cutWords (·.word.length) 0 (splitPoints 0 s.between ((logicMarks t).drop q)) := by
              rw [cutWords_skip, ← later]
              congr 2
              omega
            have here : splitPoints s.caseDepth s.between ((t[n], some (.connective k)) :: (logicMarks t).drop (n + 1)) =
                (t[n], some k) :: splitPoints 0 s.between ((logicMarks t).drop (n + 1)) := by
              rw [splitPoints, if_neg (by omega), if_neg waits]
            rw [here, cutWords, cut, List.append_nil]
            simp only [inCase, if_false, waits, start, part?_place le, Option.bind_some, size,
              piecesFrom?_passed (s := { s with start := place t q, connective := some k, passed := place t q }) rfl less
                stands.bound, next]
            simp [flat, piecesOf]
    · have none_ : logicWordAt? (cursorAt t n) = none := by
        rw [logicWordAt?, if_neg (by simp [inTop, top])]
      rw [if_pos (.inr top)]
      exact pass s.caseDepth s.between (by rw [here, none_, splitPoints])
  · obtain rfl : n = t.length := by omega
    have noMarks : (logicMarks t).drop t.length = [] := List.drop_eq_nil_of_le (by omega)
    rw [noMarks, List.drop_eq_nil_of_le (by simp), spots, piecesFrom?, start, from?_place,
      ← slice_end a (Nat.le_refl t.length)]
    simp [splitPoints, cutWords, piecesOf]
termination_by t.length - n

theorem filter_pieceOf (k : Option Connective) (u : Text) :
    [(⟨trim u, k⟩ : Condition)].filter (·.text ≠ []) = pieceOf k u := by
  rw [pieceOf]
  split_ifs with blank
  · simp [blank]
  · simp [blank]

theorem conditionPieces?_eq (t : Text) : conditionPieces? t = some (conditionPieces t) := by
  have whole := piecesFrom?_place (t := t) {} (Nat.le_refl 0) (Nat.zero_le _) rfl (Nat.zero_le _)
  rw [place_zero, List.drop_zero, List.drop_zero, slice_self, List.nil_append] at whole
  have pieces (head : Text) (parts : List (Connective × Text)) :
      ((⟨trim head, none⟩ : Condition) :: parts.map fun p => ⟨trim p.2, some p.1⟩).filter (·.text ≠ []) =
        piecesOf none head parts := by
    rw [piecesOf, ← List.singleton_append, List.filter_append, filter_pieceOf]
    congr 1
    induction parts with
    | nil => rfl
    | cons part parts ih =>
      rw [List.map_cons, ← List.singleton_append, List.filter_append, filter_pieceOf, ih]
      rfl
  simp only [conditionPieces?, scan?_eq, Option.bind_eq_bind, Option.bind_some, whole]
  rw [conditionPieces, ← logicMarks]
  dsimp only
  rw [pieces]
  cases piecesOf none _ _ <;> rfl

theorem splitConditions?_eq (t : Text) : splitConditions? t = some (splitConditions t) := by
  simp only [splitConditions?, splitConditions, isGroup?_eq, conditionPieces?_eq, Option.bind_eq_bind, Option.bind_some]
  split_ifs <;> rfl

end Pieces
end Bytewise
end QueryChain
