import QueryChain.Proofs.Bytes.Scan
import QueryChain.Proofs.NormalForm.Region

namespace QueryChain

namespace Bytewise

def word? (t : Text) (start : Nat) (word : Text) : Option Nat :=
  (part? t start (start + byteSize word)).bind fun w =>
    if sameLetters word w then some (start + byteSize word) else none

def blanks? (t : Text) (start : Nat) : Option Nat := do
  let rest ← from? t start
  less? (byteSize rest) (byteSize (trimStart rest))

def words? (t : Text) (start : Nat) : Keyword → Option (Option Nat)
  | [] => some (some start)
  | [word] => some (word? t start word)
  | word :: words =>
    match word? t start word with
    | none => some none
    | some stop => do
      let blanks ← blanks? t stop
      if blanks = 0 then return none
      words? t (stop + blanks) words

def keyword? (t : Text) (start : Nat) (k : Keyword) : Option (Option Nat) := do
  let front ← upTo? t start
  if front.getLast?.any isWordChar then return none
  match ← words? t start k with
  | none => return none
  | some stop =>
    let rest ← from? t stop
    return if rest.head?.any isWordChar then none else some stop

def keywordSpan? (t : Text) (k : Keyword) (least : Nat) : Option (Option (Nat × Nat)) := do
  let spots ← scan? t
  spots.findSomeM? fun (offset, m) =>
    if least ≤ offset ∧ m.isTop then do return (← keyword? t offset k).map (offset, ·) else return none

end Bytewise

theorem place_cursorAt (t : Text) (n : Nat) : (cursorAt t n).place t = place t n := by
  have whole := congrArg byteSize (List.take_append_drop n t)
  rw [byteSize_append] at whole
  rw [Cursor.place, text_cursorAt, place]
  omega

namespace Bytewise

section Keyword

variable {t w : Text} {n : Nat} {k : Keyword}

theorem part?_eq_some {u : Text} {stop : Nat} (part : part? t (place t n) stop = some u) :
    ∃ rest, t.drop n = u ++ rest ∧ stop = place t n + byteSize u := by
  obtain ⟨front, back, whole, size, rfl⟩ := part?_eq_some_iff.mp part
  have here := cutAt?_place t n
  rw [← size, whole, cutAt?_append] at here
  simp only [Option.some.injEq, Prod.mk.injEq] at here
  exact ⟨back, by rw [whole, ← here.2], by rw [byteSize_append, size]⟩

theorem byteSize_of_upper (capital : ∀ c ∈ w, isCapital c) {u : Text} (letters : upper w = upper u) :
    byteSize u = w.length := by
  have small : ∀ c ∈ u, c.utf8Size = 1 := by
    intro c member
    have letter := isKeywordChar_of_upper capital letters c member
    rw [isKeywordChar, Bool.or_eq_true, isAlpha_iff, beq_iff_eq] at letter
    rw [Char.utf8Size_eq_one_iff, UInt32.le_iff_toNat_le]
    rcases letter with alpha | rfl
    · have code : c.val.toNat = c.toNat := rfl
      have top : (127 : UInt32).toNat = 127 := rfl
      omega
    · decide
  rw [length_of_upper letters]
  clear letters
  induction u with
  | nil => rfl
  | cons c u ih =>
    rw [byteSize_cons, small c (by simp), ih fun d member => small d (by simp [member]), List.length_cons, Nat.add_comm]

theorem word?_place (capital : ∀ c ∈ w, isCapital c) : word? t (place t n) w =
    if upper w = upper ((t.drop n).take w.length) then some (place t (n + w.length)) else none := by
  have size : byteSize w = w.length := byteSize_of_upper capital rfl
  rw [word?]
  by_cases here : upper w = upper ((t.drop n).take w.length)
  · have stop : place t n + byteSize w = place t (n + w.length) := by
      rw [place_add, size, place, place, byteSize_of_upper capital here]
    rw [if_pos here, stop, part?_place (Nat.le_add_right _ _), Option.bind_some,
      slice_eq_take_drop, Nat.add_sub_cancel_left, if_pos (sameLetters_iff.mpr here)]
  · rw [if_neg here, Option.bind_eq_none_iff]
    intro u part
    obtain ⟨rest, text, -⟩ := part?_eq_some part
    refine if_neg fun same => here ?_
    rw [sameLetters_iff] at same
    rw [same, text, length_of_upper same, List.take_left]

theorem blanks?_place : blanks? t (place t n) = some (place (t.drop n) ((t.drop n).takeWhile isBlank).length) := by
  have parts := congrArg byteSize (List.takeWhile_append_dropWhile (p := isBlank) (l := t.drop n))
  rw [byteSize_append] at parts
  simp only [blanks?, from?_place, Option.bind_eq_bind, Option.bind_some]
  rw [← parts, trimStart, less?_add, place, ← List.prefix_iff_eq_take.mp (List.takeWhile_prefix isBlank)]

theorem word?_cursorAt (w t : Text) (n : Nat) : Cursor.word? (cursorAt t n).before w (cursorAt t n).marks =
    if upper w = upper ((t.drop n).take w.length) then some (cursorAt t (n + w.length)) else none := by
  have chars : markText (cursorAt t n).marks = t.drop n := text_cursorAt
  by_cases letters : upper w = upper ((t.drop n).take w.length)
  · rw [if_pos letters, Cursor.word?_eq_some_iff, chars]
    exact ⟨letters, skip_cursorAt.symm⟩
  · rw [if_neg letters, Option.eq_none_iff_forall_ne_some]
    intro after found
    rw [Cursor.word?_eq_some_iff, chars] at found
    exact letters found.1

theorem words?_cursorAt (w v : Text) (vs : Keyword) (t : Text) (n : Nat) : (cursorAt t n).words? (w :: v :: vs) =
    if upper w = upper ((t.drop n).take w.length) then
      if (t.drop (n + w.length)).takeWhile isBlank = [] then none
      else (cursorAt t (n + w.length + ((t.drop (n + w.length)).takeWhile isBlank).length)).words? (v :: vs)
    else none := by
  have chars : markText (cursorAt t (n + w.length)).marks = t.drop (n + w.length) := text_cursorAt
  have behind := Cursor.skipBlanks_eq_skip (cursorAt t (n + w.length)).before (cursorAt t (n + w.length)).marks
  rw [chars] at behind
  have skipped : Cursor.skip ((t.drop (n + w.length)).takeWhile isBlank).length (cursorAt t (n + w.length)) = _ :=
    skip_cursorAt
  rw [Cursor.words?, word?_cursorAt]
  · by_cases letters : upper w = upper ((t.drop n).take w.length)
    · rw [if_pos letters, if_pos letters]
      generalize cursorAt t (n + w.length) = c at chars behind skipped
      obtain ⟨before, _ | ⟨m, ms⟩⟩ := c
      · have none : t.drop (n + w.length) = [] := chars.symm
        rw [none]
        rfl
      · have first : t.drop (n + w.length) = m.char :: markText ms := chars.symm
        have blanks : (t.drop (n + w.length)).takeWhile isBlank =
            if isBlank m.char then m.char :: (markText ms).takeWhile isBlank else [] := by
          rw [first, List.takeWhile_cons]
        simp only at behind ⊢
        rw [behind, skipped]
        by_cases blank : isBlank m.char
        · rw [if_pos blank, if_neg (by simp [blanks, blank])]
        · rw [if_neg blank, if_pos (by simp [blanks, blank])]
    · rw [if_neg letters, if_neg letters]
  · simp

theorem words?_place (isKeyword : IsKeyword k) : words? t (place t n) k =
    some (((cursorAt t n).words? k).map (·.place t)) := by
  induction k generalizing n with
  | nil => exact absurd rfl isKeyword.1
  | cons w ws ih =>
    have capital := (isKeyword.2 w (by simp)).2
    cases ws with
    | nil =>
      rw [words?, Cursor.words?, word?_cursorAt, word?_place capital]
      by_cases letters : upper w = upper ((t.drop n).take w.length)
      · rw [if_pos letters, if_pos letters, Option.map_some, place_cursorAt]
      · rw [if_neg letters, if_neg letters, Option.map_none]
    | cons v vs =>
      have isLater : IsKeyword (v :: vs) := ⟨by simp, fun w h => isKeyword.2 w (List.mem_cons_of_mem _ h)⟩
      rw [words?_cursorAt, words?, word?_place capital]
      · by_cases letters : upper w = upper ((t.drop n).take w.length)
        · rw [if_pos letters, if_pos letters]
          simp only [blanks?_place, Option.bind_eq_bind, Option.bind_some]
          by_cases none : (t.drop (n + w.length)).takeWhile isBlank = []
          · rw [if_pos none, if_pos (by simp [none])]
            rfl
          · have some_ : place (t.drop (n + w.length)) ((t.drop (n + w.length)).takeWhile isBlank).length ≠ 0 := by
              have full := place_lt (List.length_pos_iff.mpr none) (List.takeWhile_prefix isBlank).length_le
              omega
            rw [if_neg none, if_neg some_, ← place_add, ih isLater]
        · rw [if_neg letters, if_neg letters]
          rfl
      · simp

/-- A keyword is found at a byte where it is found at the character there. -/
theorem keyword?_place (isKeyword : IsKeyword k) (inText : n ≤ t.length) :
    keyword? t (place t n) k = some (((cursorAt t n).keyword? k).map (·.place t)) := by
  simp only [keyword?, upTo?_place, words?_place isKeyword, Option.bind_eq_bind, Option.bind_some]
  rw [Cursor.keyword?, before_eq_getLast? inText]
  by_cases before : (t.take n).getLast?.any isWordChar
  · rw [if_pos before, if_pos before]
    rfl
  · rw [if_neg before, if_neg before]
    cases found : (cursorAt t n).words? k with
    | none => rfl
    | some after =>
      obtain ⟨m, -, -, rfl⟩ := Cursor.spells_of_words? isKeyword found
      have stop : (cursorAt t (n + m)).marks.head?.any (isWordChar ·.char) = (t.drop (n + m)).head?.any isWordChar := by
        rw [← text_cursorAt, Cursor.text, markText, List.head?_map, Option.any_map]
      simp only [skip_cursorAt, Option.map_some, place_cursorAt, from?_place, Option.bind_some, Option.filter_some, stop]
      cases (t.drop (n + m)).head?.any isWordChar <;> simp [place_cursorAt]

end Keyword
end Bytewise

section Spots

variable {t : Text} {n : Nat}

theorem spots_drop (inScan : n < (scan t).length) : spots (place t n) ((scan t).drop n) =
    (place t n, (scan t)[n]) :: spots (place t (n + 1)) ((scan t).drop (n + 1)) := by
  have bound : n < t.length := by simpa using inScan
  have char : ((scan t)[n]).char = t[n] := by
    have chars : (markText (scan t))[n]? = t[n]? := by rw [markText_scan]
    rw [markText, List.getElem?_map, List.getElem?_eq_getElem inScan, List.getElem?_eq_getElem bound] at chars
    exact Option.some.inj chars
  rw [List.drop_eq_getElem_cons inScan, spots, char, ← place_succ bound]

variable {α β : Type} {probe? : Nat × Mark → Option (Option β)}

/-- Where nothing is found in front of a character the search goes on from there. -/
theorem findSomeM?_skip (none_ : ∀ j m, j < n → (scan t)[j]? = some m → probe? (place t j, m) = some none) :
    (spots 0 (scan t)).findSomeM? probe? = (spots (place t n) ((scan t).drop n)).findSomeM? probe? := by
  induction n with
  | zero => simp
  | succ n ih =>
    rw [ih fun j m less => none_ j m (by omega)]
    by_cases bound : n < t.length
    · have inScan : n < (scan t).length := by simpa using bound
      rw [spots_drop inScan, List.findSomeM?_cons]
      rw [none_ n _ (by omega) (List.getElem?_eq_getElem inScan)]
      rfl
    · rw [List.drop_eq_nil_of_le (by simp; omega), List.drop_eq_nil_of_le (by simp; omega)]
      rfl

theorem seek_cursorAt (probe : Cursor → Option α) (bound : n < t.length) : (cursorAt t n).seek probe =
    match probe (cursorAt t n) with
    | some a => some ([], a)
    | none => ((cursorAt t (n + 1)).seek probe).map fun p => (t[n] :: p.1, p.2) := by
  have next : cursorAt t (n + 1) = (cursorAt t n).skip 1 := skip_cursorAt.symm
  have text : (cursorAt t n).text = t.drop n := text_cursorAt
  rw [List.drop_eq_getElem_cons bound] at text
  rw [next, Cursor.seek]
  generalize cursorAt t n = c at text ⊢
  obtain ⟨before, _ | ⟨m, ms⟩⟩ := c
  · cases text
  · obtain ⟨char, -⟩ := List.cons.inj text
    rw [← char]
    rfl

/-- A search over the bytes of a text finds what a search over its characters finds. -/
theorem findSomeM?_spots {probe : Cursor → Option α} (g : Nat → α → β) (n : Nat)
    (agree : ∀ j m, n ≤ j → (scan t)[j]? = some m → probe? (place t j, m) = some ((probe (cursorAt t j)).map (g j))) :
    (spots (place t n) ((scan t).drop n)).findSomeM? probe? =
      some (((cursorAt t n).seek probe).map fun p => g (n + p.1.length) p.2) := by
  by_cases bound : n < t.length
  · have inScan : n < (scan t).length := by simpa using bound
    have later := findSomeM?_spots g (n + 1) fun j m le => agree j m (by omega)
    rw [spots_drop inScan, List.findSomeM?_cons, agree n _ (Nat.le_refl n) (List.getElem?_eq_getElem inScan),
      seek_cursorAt probe bound]
    cases probe (cursorAt t n) with
    | some a => rfl
    | none =>
      simp only [Option.map_none, Option.bind_eq_bind, Option.bind_some, later, Option.map_map]
      congr 2
      funext p
      simp [Nat.add_assoc, Nat.add_comm 1]
  · have none_ : (cursorAt t n).marks = [] := by
      rw [marks_cursorAt, List.drop_eq_nil_of_le (by simp; omega)]
    rw [List.drop_eq_nil_of_le (by simp; omega), Cursor.seek, none_]
    rfl
termination_by t.length - n

end Spots

namespace Bytewise

variable {t : Text} {n : Nat} {k : Keyword}

/-- The search for a keyword from a byte on finds where it starts and ends. -/
theorem keywordSpan?_place (isKeyword : IsKeyword k) (inText : n ≤ t.length) : keywordSpan? t k (place t n) =
    some (((cursorAt t n).find? [k]).map fun p => (place t (n + p.1.length), p.2.place t)) := by
  simp only [keywordSpan?, scan?_eq, Option.bind_eq_bind, Option.bind_some]
  rw [findSomeM?_skip (n := n)]
  · refine findSomeM?_spots (fun j (after : Cursor) => (place t j, after.place t)) n fun j m le here => ?_
    have inScan := (List.getElem?_eq_some_iff.mp here).1
    rw [length_scan] at inScan
    have top : (cursorAt t j).atTop = m.isTop := by
      rw [Cursor.atTop, marks_cursorAt, List.head?_drop, here]
      rfl
    rw [Cursor.topKeyword?, top]
    by_cases isTop : m.isTop
    · simp [isTop, place_le le, keyword?_place isKeyword (Nat.le_of_lt inScan), Function.comp_def]
    · simp [isTop]
  · intro j m less here
    have inScan := (List.getElem?_eq_some_iff.mp here).1
    rw [length_scan] at inScan
    have behind := place_lt less inText
    simp [Nat.not_le_of_lt behind]

end Bytewise
end QueryChain
