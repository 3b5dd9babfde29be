import QueryChain.Proofs.Bytes.Search
import QueryChain.Proofs.Keyword.Section
import QueryChain.Sql.Pieces

namespace QueryChain

namespace Bytewise

def pieces? (t : Text) (cuts : Mark → Bool) (start : Nat) : List (Nat × Mark) → Option (List Text)
  | [] => do return [trim (← from? t start)]
  | (offset, m) :: later =>
    if cuts m then do
      let piece ← part? t start offset
      return trim piece :: (← pieces? t cuts (offset + m.char.utf8Size) later)
    else pieces? t cuts start later

def splitTop? (delimiter : Char) (t : Text) : Option (List Text) := do
  return dropEndWhile List.isEmpty (← pieces? t (·.isTopOf delimiter) 0 (← scan? t))

def tokensFrom? (t : Text) (start : Option Nat) : List (Nat × Mark) → Option (List Text)
  | [] => do return (← start.mapM (from? t)).toList
  | (offset, m) :: later =>
    if m.isTopBlank then do
      let token ← start.mapM (part? t · offset)
      return token.toList ++ (← tokensFrom? t none later)
    else tokensFrom? t (start.or (some offset)) later

def tokens? (t : Text) : Option (List Text) := do tokensFrom? t none (← scan? t)

def placeOfTop? (delimiter : Char) (t : Text) : Option (Option Nat) := do
  return ((← scan? t).find? (·.2.isTopOf delimiter)).map Prod.fst

def cutTop? (delimiter : Char) (t : Text) : Option (Option (Text × Text)) := do
  match ← placeOfTop? delimiter t with
  | none => return none
  | some place => return some (← upTo? t place, ← from? t (place + 1))

def isGroup? (t : Text) : Option Bool := do
  if (trim t).head? ≠ some '(' ∨ (trim t).getLast? ≠ some ')' then return false
  let last ← less? (byteSize (trim t)) 1
  if (← scan? (trim t)).any fun (offset, m) => m.isTopOf ')' && offset != last then return false
  return (← fault? (trim t)).isNone

def groupBody? (t : Text) : Option Text := do
  if ← isGroup? (trim t) then
    return trim (← part? (trim t) 1 (← less? (byteSize (trim t)) 1))
  else return trim t

def afterKeyword? (k : Keyword) (t : Text) : Option (Option Text) := do
  match ← keyword? t 0 k with
  | none => return none
  | some stop => return some (← from? t stop)

def hasKeyword? (k : Keyword) (t : Text) : Option Bool := do return (← keywordSpan? t k 0).isSome

end Bytewise

section Marks

variable {t : Text}

theorem markText_slice (i n : Nat) (t : Text) : markText (slice i n (scan t)) = slice i n t := by
  rw [markText, map_slice, ← markText, markText_scan]

theorem slice_concat {α : Type} {l : List α} {i n : Nat} (le : i ≤ n) (bound : n < l.length) :
    slice i n l ++ [l[n]] = slice i (n + 1) l := by
  have one : slice n (n + 1) l = [l[n]] := by
    rw [slice_eq_take_drop, List.drop_eq_getElem_cons bound, Nat.add_sub_cancel_left, List.take_succ_cons, List.take_zero]
  rw [← one, slice_append le (Nat.le_succ n) bound]

theorem slice_end {α : Type} {l : List α} (i : Nat) {n : Nat} (beyond : l.length ≤ n) : slice i n l = l.drop i := by
  rw [slice, List.take_of_length_le beyond]

theorem place_next {n : Nat} (inScan : n < (scan t).length) :
    place t n + ((scan t)[n]).char.utf8Size = place t (n + 1) := by
  have bound : n < t.length := by simpa using inScan
  have chars : (markText (scan t))[n]? = t[n]? := by rw [markText_scan]
  rw [markText, List.getElem?_map, List.getElem?_eq_getElem inScan, List.getElem?_eq_getElem bound] at chars
  have char : ((scan t)[n]).char = t[n] := Option.some.inj chars
  rw [char, place_succ bound]

theorem modifyHead_slice (ls : List Marks) (n : Nat) (ms : Marks) : ls.modifyHead (slice n n ms ++ ·) = ls := by
  cases ls <;> simp [slice_self]

end Marks

namespace Bytewise

section Pieces

variable {t : Text}

theorem pieces?_place (cuts : Mark → Bool) (i n : Nat) (le : i ≤ n) (inText : n ≤ t.length) :
    pieces? t cuts (place t i) (spots (place t n) ((scan t).drop n)) =
      some (((((scan t).drop n).splitOnP cuts).modifyHead (slice i n (scan t) ++ ·)).map (trim <| markText ·)) := by
  by_cases bound : n < t.length
  · have inScan : n < (scan t).length := by simpa using bound
    rw [spots_drop inScan, pieces?, List.drop_eq_getElem_cons inScan, List.splitOnP_cons_eq_if_modifyHead]
    by_cases cut : cuts ((scan t)[n])
    · have next := pieces?_place cuts (n + 1) (n + 1) (Nat.le_refl _) (by omega)
      rw [modifyHead_slice] at next
      rw [if_pos cut, if_pos cut, part?_place le, place_next inScan]
      simp [next, markText_slice]
    · have next := pieces?_place cuts i (n + 1) (by omega) (by omega)
      rw [if_neg cut, if_neg cut, next, List.modifyHead_modifyHead, ← slice_concat le inScan]
      simp [Function.comp_def]
  · have all : t.length ≤ n := by omega
    have none_ : (scan t).drop n = [] := List.drop_eq_nil_of_le (by simpa using all)
    rw [none_, spots, pieces?, from?_place]
    simp [markText_slice, slice_end i all]
termination_by t.length - n

theorem splitTop?_eq (d : Char) (t : Text) : splitTop? d t = some (splitTop d t) := by
  have whole := pieces?_place (t := t) (·.isTopOf d) 0 0 (Nat.le_refl 0) (Nat.zero_le _)
  rw [place_zero, List.drop_zero, modifyHead_slice] at whole
  simp only [splitTop?, scan?_eq, Option.bind_eq_bind, Option.bind_some, whole]
  rfl

theorem tokensFrom?_place (i n : Nat) (le : i ≤ n) (inText : n ≤ t.length) :
    tokensFrom? t (if i = n then none else some (place t i)) (spots (place t n) ((scan t).drop n)) =
      some ((((((scan t).drop n).splitOnP Mark.isTopBlank).modifyHead (slice i n (scan t) ++ ·)).filter (· ≠ [])).map
        markText) := by
  have full (less : i ≠ n) : slice i n (scan t) ≠ [] := by
    rw [← List.length_pos_iff, length_slice (by simpa using inText)]
    omega
  by_cases bound : n < t.length
  · have inScan : n < (scan t).length := by simpa using bound
    rw [spots_drop inScan, tokensFrom?, List.drop_eq_getElem_cons inScan, List.splitOnP_cons_eq_if_modifyHead]
    by_cases cut : ((scan t)[n]).isTopBlank
    · have next := tokensFrom?_place (n + 1) (n + 1) (Nat.le_refl _) (by omega)
      rw [if_pos rfl, modifyHead_slice] at next
      rw [if_pos cut, if_pos cut, next]
      by_cases start : i = n
      · subst start
        simp [slice_self]
      · rw [if_neg start, Option.mapM_some, part?_place le]
        simp [full start, markText_slice]
    · have next := tokensFrom?_place i (n + 1) (by omega) (by omega)
      rw [if_neg (by omega)] at next
      have start : (if i = n then none else some (place t i)).or (some (place t n)) = some (place t i) := by
        by_cases here : i = n
        · rw [if_pos here, here]
          rfl
        · rw [if_neg here]
          rfl
      rw [if_neg cut, if_neg cut, start, next, List.modifyHead_modifyHead, ← slice_concat le inScan]
      simp [Function.comp_def]
  · have all : t.length ≤ n := by omega
    have none_ : (scan t).drop n = [] := List.drop_eq_nil_of_le (by simpa using all)
    rw [none_, spots, tokensFrom?]
    by_cases start : i = n
    · subst start
      simp [slice_self]
    · rw [if_neg start, Option.mapM_some, from?_place, ← slice_end i all]
      simp [full start, markText_slice]
termination_by t.length - n

theorem tokens?_eq (t : Text) : tokens? t = some (tokens t) := by
  have whole := tokensFrom?_place (t := t) 0 0 (Nat.le_refl 0) (Nat.zero_le _)
  rw [if_pos rfl, place_zero, List.drop_zero, modifyHead_slice] at whole
  simp only [tokens?, scan?_eq, Option.bind_eq_bind, Option.bind_some, whole]
  rfl

end Pieces

section Parts

variable {t : Text}

/-- The first character that counts, by its position and by its byte. -/
theorem find?_spots (p : Mark → Bool) (n : Nat) (inText : n ≤ t.length) :
    (((spots (place t n) ((scan t).drop n)).find? fun s => p s.2).map Prod.fst) =
      if ((scan t).drop n).any p then some (place t (n + (((scan t).drop n).takeWhile (!p ·)).length)) else none := by
  by_cases bound : n < t.length
  · have inScan : n < (scan t).length := by simpa using bound
    have next := find?_spots p (n + 1) (by omega)
    rw [spots_drop inScan, List.drop_eq_getElem_cons inScan]
    generalize (scan t)[n] = m
    generalize (scan t).drop (n + 1) = ms at next ⊢
    by_cases here : p m
    · simp [here]
    · simp only [List.find?_cons, List.any_cons, List.takeWhile_cons, here, next, Bool.false_or, Bool.not_false, if_true,
        List.length_cons]
      rw [Nat.add_right_comm, Nat.add_assoc]
  · have none_ : (scan t).drop n = [] := List.drop_eq_nil_of_le (by simp; omega)
    rw [none_]
    rfl
termination_by t.length - n

theorem cutTop?_eq (d : Char) (small : d.utf8Size = 1) (t : Text) : cutTop? d t = some (QueryChain.cutTop? d t) := by
  have found := find?_spots (t := t) (·.isTopOf d) 0 (Nat.zero_le _)
  rw [place_zero, List.drop_zero, Nat.zero_add] at found
  simp only [cutTop?, placeOfTop?, scan?_eq, Option.bind_eq_bind, Option.bind_some, Option.pure_def, found]
  have parts := List.takeWhile_append_dropWhile (p := (!·.isTopOf d)) (l := scan t)
  rw [QueryChain.cutTop?]
  cases behind : (scan t).dropWhile (!·.isTopOf d) with
  | nil =>
    have none_ : (scan t).any (·.isTopOf d) = false := by
      rw [List.any_eq_false]
      simpa using List.dropWhile_eq_nil_iff.mp behind
    rw [none_]
    rfl
  | cons m after =>
    have top : m.isTopOf d := by
      have stop := List.head?_dropWhile_not (!·.isTopOf d) (scan t)
      rw [behind] at stop
      simpa using stop
    have any : (scan t).any (·.isTopOf d) := by
      rw [List.any_eq_true]
      exact ⟨m, by rw [← parts, behind]; simp, top⟩
    rw [behind] at parts
    generalize (scan t).takeWhile (!·.isTopOf d) = before at parts ⊢
    have text := congrArg markText parts
    have char : m.char = d := by
      rw [Mark.isTopOf, Bool.and_eq_true, beq_iff_eq] at top
      exact top.1
    have sum : byteSize (markText before) + 1 = byteSize (markText before ++ [d]) := by
      rw [byteSize_append, byteSize_cons, small, byteSize_nil]
    rw [markText_scan, markText, List.map_append, List.map_cons, ← markText, ← markText, char] at text
    have start : place t before.length = byteSize (markText before) := by
      rw [place, ← text, List.take_left' (by simp [markText])]
    rw [if_pos any, start, ← text]
    simp only [upTo?_append, Option.bind_some]
    rw [sum, List.append_cons, from?_append]
    rfl

theorem spots_append (start : Nat) (ms ns : Marks) :
    spots start (ms ++ ns) = spots start ms ++ spots (start + byteSize (markText ms)) ns := by
  induction ms generalizing start with
  | nil => simp [spots, markText]
  | cons m ms ih => simp [spots, ih, markText, Nat.add_assoc]

theorem fst_lt_of_mem_spots {start : Nat} {ms : Marks} {s : Nat × Mark} (member : s ∈ spots start ms) :
    s.1 < start + byteSize (markText ms) := by
  induction ms generalizing start with
  | nil => cases member
  | cons m ms ih =>
    have positive := m.char.utf8Size_pos
    have size : byteSize (markText (m :: ms)) = m.char.utf8Size + byteSize (markText ms) := by simp [markText]
    rw [size]
    rcases List.mem_cons.mp member with rfl | later
    · simp only
      omega
    · have below := ih later
      omega

theorem map_snd_spots (start : Nat) (ms : Marks) : (spots start ms).map Prod.snd = ms := by
  induction ms generalizing start with
  | nil => rfl
  | cons m ms ih => simp [spots, ih]

/-- In a text that ends in one byte the marks but for the last one are those not at the last byte. -/
theorem any_spots (p : Mark → Bool) {c : Char} (last : t.getLast? = some c) (small : c.utf8Size = 1) :
    ((spots 0 (scan t)).any fun s => p s.2 && s.1 != byteSize t - 1) = (scan t).dropLast.any p := by
  obtain ⟨ms, m, marks⟩ : ∃ ms m, scan t = ms ++ [m] := by
    have full : scan t ≠ [] := by
      intro none_
      have length : (scan t).length = t.length := length_scan
      rw [none_] at length
      obtain rfl := List.length_eq_zero_iff.mp length.symm
      cases last
    exact ⟨_, _, (List.dropLast_append_getLast full).symm⟩
  have text : t = markText ms ++ [m.char] := by
    have chars := congrArg markText marks
    rwa [markText_scan, markText, List.map_append] at chars
  have char : m.char = c := by
    rw [text, List.getLast?_concat] at last
    exact Option.some.inj last
  have size : byteSize t - 1 = byteSize (markText ms) := by
    rw [text, byteSize_append, byteSize_cons, char, small, byteSize_nil]
    omega
  have inFront : ((spots 0 ms).any fun s => p s.2 && s.1 != byteSize (markText ms)) = ms.any p := by
    conv_rhs => rw [← map_snd_spots 0 ms, List.any_map]
    rw [Bool.eq_iff_iff, List.any_eq_true, List.any_eq_true]
    refine exists_congr fun s => and_congr_right fun member => ?_
    have below := fst_lt_of_mem_spots member
    have other : s.1 ≠ byteSize (markText ms) := by omega
    simp [other]
  rw [marks, spots_append, List.dropLast_concat, List.any_append, size, inFront]
  simp [spots]

theorem part?_inside {c d : Char} (small : c.utf8Size = 1) (small' : d.utf8Size = 1) (inner : Text) :
    less? (byteSize (c :: inner ++ [d])) 1 = some (1 + byteSize inner) ∧
      part? (c :: inner ++ [d]) 1 (1 + byteSize inner) = some inner := by
  have size : byteSize (c :: inner ++ [d]) = 1 + byteSize inner + 1 := by
    rw [byteSize_append, byteSize_cons, byteSize_cons, byteSize_nil, small, small']
  have front : byteSize (c :: inner) = 1 + byteSize inner := by rw [byteSize_cons, small]
  refine ⟨by rw [size, less?_add], ?_⟩
  rw [part?, if_pos (by omega), ← front, upTo?_append, Option.bind_some]
  have one : byteSize [c] = 1 := by rw [byteSize_cons, small, byteSize_nil]
  rw [← one]
  exact from?_append [c] inner

/-- A text of more than one character stands between its first and its last. -/
theorem exists_inside {u : Text} {c d : Char} (first : u.head? = some c) (last : u.getLast? = some d) (long : 2 ≤ u.length) :
    u = c :: u.tail.dropLast ++ [d] := by
  obtain ⟨u, rfl⟩ := List.head?_eq_some_iff.mp first
  have full : u ≠ [] := by
    rintro rfl
    simp at long
  rw [List.getLast?_cons, List.getLast?_eq_some_getLast full, Option.getD_some] at last
  obtain rfl := Option.some.inj last
  rw [List.tail_cons, List.cons_append, List.dropLast_append_getLast full]

theorem isGroup?_eq (t : Text) : isGroup? t = some (isGroup t) := by
  rw [isGroup?, isGroup]
  by_cases edges : (trim t).head? ≠ some '(' ∨ (trim t).getLast? ≠ some ')'
  · rw [if_pos edges]
    rcases edges with first | last
    · simp [first]
    · simp [last]
  · obtain ⟨first, last⟩ : (trim t).head? = some '(' ∧ (trim t).getLast? = some ')' := by
      simpa [not_or] using edges
    have long : 1 ≤ byteSize (trim t) := by
      obtain ⟨u, text⟩ := List.head?_eq_some_iff.mp first
      have small : '('.utf8Size = 1 := rfl
      rw [text, byteSize_cons, small]
      omega
    have any := any_spots (·.isTopOf ')') last rfl
    rw [if_neg edges, less?, if_pos long]
    simp only [Option.bind_eq_bind, Option.bind_some, Option.pure_def, scan?_eq, fault?_eq, any, first, last]
    cases (scan (trim t)).dropLast.any (·.isTopOf ')') <;> simp

theorem groupBody?_eq (t : Text) : groupBody? t = some (groupBody t) := by
  simp only [groupBody?, isGroup?_eq, Option.bind_eq_bind, Option.bind_some, groupBody]
  by_cases group : isGroup (trim t)
  · have edges := group
    rw [isGroup, trim_trim, Bool.and_eq_true, Bool.and_eq_true, Bool.and_eq_true, beq_iff_eq, beq_iff_eq] at edges
    obtain ⟨⟨⟨first, last⟩, -⟩, -⟩ := edges
    have long : 2 ≤ (trim t).length := by
      obtain ⟨u, text⟩ := List.head?_eq_some_iff.mp first
      rw [text] at last ⊢
      cases u with
      | nil => cases last
      | cons d u => simp
    have inside := exists_inside first last long
    obtain ⟨size, part⟩ := part?_inside (c := '(') (d := ')') rfl rfl (trim t).tail.dropLast
    rw [← inside] at size part
    rw [if_pos group, if_pos group, size, Option.bind_some, part]
    rfl
  · rw [if_neg group, if_neg group]
    rfl

theorem afterKeyword?_eq {k : Keyword} (isKeyword : IsKeyword k) (t : Text) :
    afterKeyword? k t = some (QueryChain.afterKeyword? k t) := by
  have found := keyword?_place (t := t) isKeyword (Nat.zero_le _)
  rw [place_zero, cursorAt_zero] at found
  simp only [afterKeyword?, found, QueryChain.afterKeyword?, Option.bind_eq_bind, Option.bind_some]
  cases here : (Cursor.start t).keyword? k with
  | none => rfl
  | some after =>
    obtain ⟨-, w, rest, -, -, -, rfl⟩ := (Cursor.keyword?_eq_some_iff isKeyword).mp here
    rw [← cursorAt]
    simp only [Option.map_some, place_cursorAt, from?_place, Option.bind_some, text_cursorAt]
    rfl

theorem hasKeyword?_eq {k : Keyword} (isKeyword : IsKeyword k) (t : Text) :
    hasKeyword? k t = some (QueryChain.hasKeyword k t) := by
  have found := keywordSpan?_place (t := t) isKeyword (Nat.zero_le _)
  rw [place_zero, cursorAt_zero] at found
  simp only [hasKeyword?, found, QueryChain.hasKeyword, Option.bind_eq_bind, Option.bind_some, Option.isSome_map]
  rfl

end Parts
end Bytewise
end QueryChain
