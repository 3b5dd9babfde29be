import QueryChain.Proofs.Bytes.Clauses
import QueryChain.Sql.NormalForm

namespace QueryChain

namespace Bytewise

def collapse? (t : Text) : Option Text := do
  return collapseMarks false false ((← scan? t).map Prod.snd)

def endsCondition? (rest : Text) : Option Bool := do
  if rest.isEmpty || rest.head? == some ')' then return true
  else
    let ends : List Keyword := [["GROUP", "BY"], ["HAVING"], ["ORDER", "BY"], ["LIMIT"], ["OFFSET"]]
    return (← ends.findSomeM? (keyword? rest 0)).isSome

def strayAt? (t : Text) (offset : Nat) : Option (Option Text) := do
  match ← keyword? t offset ["AND", "NULL"] with
  | none => return none
  | some stop =>
    let rest := trimStart (← from? t stop)
    if ← endsCondition? rest then return some (trimEnd (← upTo? t offset) ++ spaceBefore rest ++ rest)
    else return none

def strayIn? (t : Text) : Nat × Mark → Option (Option Text)
  | (offset, m) => if m.isCode then strayAt? t offset else return none

def dropStrayNull? (t : Text) : Option (Option Text) := do (← scan? t).findSomeM? (strayIn? t)

def cleanUp? (t : Text) : Option Text := do
  let text := dropSemicolons (← collapse? t)
  return (← dropStrayNull? text).getD text

section Clean

variable {t : Text}

theorem collapse?_eq (t : Text) : collapse? t = some (collapse t) := by
  simp only [collapse?, scan?_eq, Option.bind_eq_bind, Option.bind_some, map_snd_spots]
  rfl

theorem endsCondition?_eq (rest : Text) : endsCondition? rest = some (endsCondition rest) := by
  have whole (k : Keyword) (isKeyword : IsKeyword k) :
      keyword? rest 0 k = some (((Cursor.start rest).keyword? k).map (·.place rest)) := by
    have here := keyword?_place (t := rest) isKeyword (Nat.zero_le _)
    rwa [place_zero, cursorAt_zero] at here
  rw [endsCondition?, endsCondition]
  cases (rest.isEmpty || rest.head? == some ')') with
  | true => rfl
  | false =>
    rw [if_neg Bool.false_ne_true, Bool.false_or]
    simp only
    rw [findSomeM?_some fun k member => whole k (by revert k; decide)]
    simp [List.isSome_findSome?, startsWithKeyword, QueryChain.afterKeyword?]

def strayRest? (c : Cursor) : Option Text := do
  guard c.inCode
  let after ← c.keyword? ["AND", "NULL"]
  guard (endsCondition (trimStart after.text))
  return trimStart after.text

theorem strayAt?_place {n : Nat} (inText : n ≤ t.length) (code : (cursorAt t n).inCode) : strayAt? t (place t n) =
    some ((strayRest? (cursorAt t n)).map fun rest => trimEnd (t.take n) ++ spaceBefore rest ++ rest) := by
  rw [strayAt?, strayRest?, keyword?_place (by decide) inText]
  cases here : (cursorAt t n).keyword? ["AND", "NULL"] with
  | none => simp [code]
  | some after =>
    obtain ⟨j, -, -, -, -, -, rfl⟩ := (keyword?_cursorAt_iff (by decide) inText).mp here
    simp only [Option.bind_eq_bind, Option.bind_some, Option.map_some, place_cursorAt, from?_place, endsCondition?_eq,
      text_cursorAt, upTo?_place, code, guard_true]
    cases endsCondition (trimStart (t.drop j)) <;> rfl

theorem strayIn?_place (j : Nat) (m : Mark) (here : (scan t)[j]? = some m) : strayIn? t (place t j, m) =
    some ((strayRest? (cursorAt t j)).map fun rest => trimEnd (t.take j) ++ spaceBefore rest ++ rest) := by
  have inScan := (List.getElem?_eq_some_iff.mp here).1
  rw [length_scan] at inScan
  have inCode : (cursorAt t j).inCode = m.isCode := by
    rw [Cursor.inCode, marks_cursorAt, List.head?_drop, here]
    rfl
  by_cases code : m.isCode
  · simp only [strayIn?, code, if_true]
    exact strayAt?_place (Nat.le_of_lt inScan) (inCode.trans code)
  · simp [strayIn?, code, strayRest?, inCode]

theorem dropStrayNull?_eq (t : Text) : dropStrayNull? t = some (QueryChain.dropStrayNull? t) := by
  have search := findSomeM?_spots (fun j rest => trimEnd (t.take j) ++ spaceBefore rest ++ rest) 0
    fun j m _ here => strayIn?_place j m here
  rw [place_zero, List.drop_zero] at search
  simp only [dropStrayNull?, scan?_eq, Option.bind_eq_bind, Option.bind_some, search, Nat.zero_add]
  rw [cursorAt_zero]
  congr 1
  refine Option.map_congr fun hit found => ?_
  obtain ⟨n, -, -, -, passed⟩ := Cursor.seek_eq_some_iff.mp found
  have front : t.take hit.1.length = hit.1 := by
    rw [passed, ← cursorAt_zero, text_cursorAt, List.drop_zero, List.length_take, List.take_eq_take_iff]
    omega
  rw [front]

theorem cleanUp?_eq (t : Text) : cleanUp? t = some (cleanUp t) := by
  simp only [cleanUp?, collapse?_eq, dropStrayNull?_eq, Option.bind_eq_bind, Option.bind_some]
  rfl

end Clean

def normalize? (t : Text) : Option Text :=
  match _found : cleanUp? t with
  | none => none
  | some u => if u = t then some t else normalize? u
termination_by weight t
decreasing_by
  obtain ⟨le, eq⟩ := weight_cleanUp t
  rw [cleanUp?_eq] at _found
  cases _found
  rename_i changed
  exact Nat.lt_of_le_of_ne le fun same => changed (eq same)

theorem normalize?_eq (t : Text) : normalize? t = some (normalize t) := by
  rw [normalize?, normalize]
  split
  · rename_i failed
    rw [cleanUp?_eq] at failed
    cases failed
  · rename_i u found
    rw [cleanUp?_eq] at found
    cases found
    by_cases same : cleanUp t = t
    · rw [if_pos same, if_pos same]
    · rw [if_neg same, if_neg same, normalize?_eq]
termination_by weight t
decreasing_by
  obtain ⟨le, eq⟩ := weight_cleanUp t
  exact Nat.lt_of_le_of_ne le fun still => same (eq still)

end Bytewise
end QueryChain
