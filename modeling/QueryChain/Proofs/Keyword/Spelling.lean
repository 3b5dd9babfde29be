import Mathlib.Data.List.TakeWhile
import QueryChain.Proofs.Keyword.Place
import QueryChain.Proofs.Scan.WordChar

namespace QueryChain

def IsKeyword (k : Keyword) : Prop := k ≠ [] ∧ ∀ w ∈ k, w ≠ [] ∧ ∀ c ∈ w, isCapital c

instance (k : Keyword) : Decidable (IsKeyword k) := by unfold IsKeyword; infer_instance

inductive Spells : Keyword → Text → Prop
  | word {w t : Text} (letters : upper w = upper t) : Spells [w] t
  | words {w v t blanks rest : Text} {ws : Keyword} (letters : upper w = upper t)
      (apart : blanks ≠ []) (blank : ∀ c ∈ blanks, isBlank c) (later : Spells (v :: ws) rest) :
      Spells (w :: v :: ws) (t ++ blanks ++ rest)

theorem length_of_upper {w t : Text} (letters : upper w = upper t) : w.length = t.length := by
  simpa [upper] using congrArg List.length letters

theorem isKeywordChar_of_upper {w t : Text} (capital : ∀ c ∈ w, isCapital c)
    (letters : upper w = upper t) : ∀ c ∈ t, isKeywordChar c := by
  induction w generalizing t with
  | nil =>
    cases t with
    | nil => simp
    | cons c t => simp [upper] at letters
  | cons w ws ih =>
    cases t with
    | nil => simp
    | cons c t =>
      simp only [upper, List.map_cons, List.cons.injEq] at letters
      intro d member
      rcases List.mem_cons.mp member with rfl | member
      · exact isKeywordChar_of_sameLetter w d (capital w (by simp)) (by simp [sameLetter, letters.1])
      · exact ih (fun c h => capital c (by simp [h])) letters.2 d member

namespace Spells

variable {k : Keyword} {t : Text}

theorem chars (spells : Spells k t) (isKeyword : IsKeyword k) :
    ∀ c ∈ t, isBlank c ∨ isKeywordChar c := by
  induction spells with
  | word letters =>
    intro c member
    exact .inr (isKeywordChar_of_upper (isKeyword.2 _ (by simp)).2 letters c member)
  | words letters _ blank _ ih =>
    intro c member
    simp only [List.mem_append] at member
    rcases member with (first | between) | later
    · exact .inr (isKeywordChar_of_upper (isKeyword.2 _ (by simp)).2 letters c first)
    · exact .inl (blank c between)
    · exact ih ⟨by simp, fun w h => isKeyword.2 w (List.mem_cons_of_mem _ h)⟩ c later

theorem isPlain (spells : Spells k t) (isKeyword : IsKeyword k) : ∀ c ∈ t, isPlain c := by
  intro c member
  rcases spells.chars isKeyword c member with blank | letter
  · exact isPlain_of_isBlank c blank
  · exact isPlain_of_isKeywordChar c letter

/-- The first word stands in front, letter by letter. -/
theorem head (spells : Spells k t) : ∃ first rest, t = first ++ rest ∧ upper first = upper (k.headD []) ∧
    (rest = [] ∧ k.tail = [] ∨ rest.head?.any isBlank) := by
  cases spells with
  | word letters => exact ⟨t, [], by simp, by simpa using letters.symm, .inl ⟨rfl, rfl⟩⟩
  | @words w v t blanks rest ws letters apart blank later =>
    refine ⟨t, blanks ++ rest, by simp, by simpa using letters.symm, .inr ?_⟩
    obtain ⟨c, more, rfl⟩ := List.exists_cons_of_ne_nil apart
    simpa using blank c (by simp)

/-- A keyword ends in a letter. -/
theorem getLast (spells : Spells k t) (isKeyword : IsKeyword k) : ∃ c, t.getLast? = some c ∧ isKeywordChar c := by
  induction spells with
  | @word w t letters =>
    obtain ⟨nonempty, capital⟩ := isKeyword.2 w (by simp)
    have length := length_of_upper letters
    have full : t ≠ [] := by
      rintro rfl
      exact nonempty (List.length_eq_zero_iff.mp length)
    refine ⟨t.getLast full, List.getLast?_eq_some_getLast full, ?_⟩
    exact isKeywordChar_of_upper capital letters _ (List.getLast_mem full)
  | words _ _ _ _ ih =>
    obtain ⟨c, last, letter⟩ := ih ⟨by simp, fun w h => isKeyword.2 w (List.mem_cons_of_mem _ h)⟩
    exact ⟨c, by simp [List.getLast?_append, last], letter⟩

/-- A keyword starts with the first letter of its first word. -/
theorem first_letter (spells : Spells k t) (isKeyword : IsKeyword k) :
    ∃ l c, (k.headD []).head? = some l ∧ t.head? = some c ∧ isCapital l ∧ sameLetter l c := by
  obtain ⟨first, rest, rfl, letters, -⟩ := spells.head
  obtain ⟨w, ws, rfl⟩ := List.exists_cons_of_ne_nil isKeyword.1
  obtain ⟨nonempty, capital⟩ := isKeyword.2 w (by simp)
  obtain ⟨l, w', rfl⟩ := List.exists_cons_of_ne_nil nonempty
  cases first with
  | nil => simp [upper] at letters
  | cons c first =>
    simp only [List.headD_cons, upper, List.map_cons, List.cons.injEq] at letters
    exact ⟨l, c, rfl, rfl, capital l (by simp), by simp [sameLetter, letters.1]⟩

theorem head? (spells : Spells k t) (isKeyword : IsKeyword k) :
    ∃ c, t.head? = some c ∧ isKeywordChar c := by
  obtain ⟨l, c, -, first, capital, same⟩ := spells.first_letter isKeyword
  exact ⟨c, first, isKeywordChar_of_sameLetter l c capital same⟩

theorem ne_nil (spells : Spells k t) (isKeyword : IsKeyword k) : t ≠ [] := by
  obtain ⟨c, last, _⟩ := spells.getLast isKeyword
  rintro rfl
  simp at last

/-- Behind a blank of a written keyword stands another one, or one of its later words starts. -/
theorem behind_blank (spells : Spells k t) (isKeyword : IsKeyword k) (i : Nat) (c d : Char)
    (blank : isBlank c) (first : t[i]? = some c) (second : t[i + 1]? = some d) :
    isBlank d ∨ ∃ w ∈ k.tail, ∃ l ∈ w.head?, sameLetter l d := by
  induction spells generalizing i with
  | @word w t letters =>
    have letter := isKeywordChar_of_upper (isKeyword.2 w (by simp)).2 letters c (List.mem_of_getElem? first)
    rw [isBlank_of_isKeywordChar c letter] at blank
    cases blank
  | @words w v t blanks rest ws letters apart allBlank later ih =>
    have isLater : IsKeyword (v :: ws) := ⟨by simp, fun w h => isKeyword.2 w (List.mem_cons_of_mem _ h)⟩
    by_cases inFirst : i < t.length
    · rw [List.append_assoc, List.getElem?_append_left inFirst] at first
      have letter := isKeywordChar_of_upper (isKeyword.2 w (by simp)).2 letters c
        (List.mem_of_getElem? first)
      rw [isBlank_of_isKeywordChar c letter] at blank
      cases blank
    · by_cases inBlanks : i + 1 < t.length + blanks.length
      · rw [List.getElem?_append_left (by simpa using inBlanks),
          List.getElem?_append_right (by omega)] at second
        exact .inl (allBlank d (List.mem_of_getElem? second))
      · rw [List.getElem?_append_right (by simp; omega)] at second
        by_cases start : i + 1 = t.length + blanks.length
        · right
          rw [List.length_append, start, Nat.sub_self] at second
          obtain ⟨l, e, starts, firstLater, -, same⟩ := later.first_letter isLater
          rw [← List.head?_eq_getElem?, firstLater, Option.some.injEq] at second
          subst second
          exact ⟨v, by simp, l, starts, same⟩
        · rw [List.getElem?_append_right (by simp; omega)] at first
          have both := ih isLater (i - (t ++ blanks).length) first (by
            rw [← second]; congr 1; simp; omega)
          rcases both with blankNext | ⟨w', member, starts⟩
          · exact .inl blankNext
          · exact .inr ⟨w', List.mem_cons_of_mem _ member, starts⟩

end Spells

namespace Cursor

theorem length_text (c : Cursor) : c.text.length = c.marks.length := by simp [text, markText]

theorem text_mk (before : Option Char) (ms : Marks) : (⟨before, ms⟩ : Cursor).text = markText ms := rfl

theorem word?_eq_some_iff {before : Option Char} {w : Text} {ms : Marks} {after : Cursor} :
    word? before w ms = some after ↔
      upper w = upper ((markText ms).take w.length) ∧ after = skip w.length ⟨before, ms⟩ := by
  induction w generalizing before ms with
  | nil => simp [word?, upper, eq_comm]
  | cons c w ih =>
    cases ms with
    | nil => simp [word?, upper, markText]
    | cons m ms =>
      rw [word?]
      by_cases same : sameLetter c m.char
      · rw [if_pos same, ih]
        rw [sameLetter, beq_iff_eq] at same
        simp [upper, markText, same]
      · rw [if_neg same]
        rw [sameLetter, beq_iff_eq] at same
        simp [upper, markText, same]

theorem skipBlanks_eq_skip (before : Option Char) (ms : Marks) :
    skipBlanks before ms = skip ((markText ms).takeWhile isBlank).length ⟨before, ms⟩ := by
  induction ms generalizing before with
  | nil => rfl
  | cons m ms ih =>
    rw [skipBlanks, markText, List.map_cons, List.takeWhile_cons]
    split
    · rw [List.length_cons, skip_cons, ih, markText]
    · rfl

theorem spells_of_words? {c after : Cursor} {k : Keyword} (isKeyword : IsKeyword k)
    (found : c.words? k = some after) :
    ∃ n ≤ c.marks.length, Spells k (c.text.take n) ∧ after = c.skip n := by
  fun_induction words? c k with
  | case1 => exact absurd rfl isKeyword.1
  | case2 c word =>
    obtain ⟨letters, rfl⟩ := word?_eq_some_iff.mp found
    refine ⟨word.length, ?_, .word letters, rfl⟩
    have length := length_of_upper letters
    rw [List.length_take, markText, List.length_map] at length
    omega
  | case3 c word words several before m ms reached blank ih =>
    obtain ⟨letters, same⟩ := word?_eq_some_iff.mp reached
    have atBlank : (⟨before, m :: ms⟩ : Cursor) = c.skip word.length := same
    have isLater : IsKeyword words :=
      ⟨fun empty => several (by simpa using empty), fun w h => isKeyword.2 w (List.mem_cons_of_mem _ h)⟩
    obtain ⟨v, ws, rfl⟩ := List.exists_cons_of_ne_nil isLater.1
    obtain ⟨n, bound, spells, rfl⟩ := ih isLater found
    have rest : markText (m :: ms) = c.text.drop word.length := by
      rw [← text_skip, ← atBlank, text_mk]
    set b := ((markText (m :: ms)).takeWhile isBlank).length with lengthBlanks
    have behind : skipBlanks before (m :: ms) = c.skip (word.length + b) := by
      rw [skipBlanks_eq_skip, atBlank, skip_skip]
    have blanks : (c.text.drop word.length).take b = (markText (m :: ms)).takeWhile isBlank := by
      rw [← rest]
      exact (List.prefix_iff_eq_take.mp (List.takeWhile_prefix isBlank)).symm
    rw [behind] at bound spells
    refine ⟨word.length + b + n, ?_, ?_, by rw [behind, skip_skip]⟩
    · have lengths := congrArg List.length rest
      have inBlanks := (List.takeWhile_prefix isBlank (l := markText (m :: ms))).length_le
      rw [List.length_drop, length_text] at lengths
      rw [marks_skip, List.length_drop] at bound
      simp only [markText, List.length_map, List.length_cons] at lengths inBlanks lengthBlanks
      omega
    · rw [text_skip] at spells
      rw [List.take_add, List.take_add, blanks]
      refine .words letters ?_ ?_ spells
      · simp [markText, blank]
      · intro d member
        exact List.mem_takeWhile_imp member
  | case4 => cases found
  | case5 => cases found

theorem words?_of_spells {c : Cursor} {k : Keyword} {t : Text} (isKeyword : IsKeyword k)
    (spells : Spells k t) (starts : t <+: c.text) : c.words? k = some (c.skip t.length) := by
  induction spells generalizing c with
  | @word w t letters =>
    have length := length_of_upper letters
    rw [words?]
    apply word?_eq_some_iff.mpr
    rw [length, ← text_mk c.before, ← List.prefix_iff_eq_take.mp starts]
    exact ⟨letters, rfl⟩
  | @words w v t blanks rest ws letters apart blank later ih =>
    have isLater : IsKeyword (v :: ws) :=
      ⟨by simp, fun w h => isKeyword.2 w (List.mem_cons_of_mem _ h)⟩
    have length := length_of_upper letters
    obtain ⟨more, whole⟩ := starts
    have first : word? c.before w c.marks = some (c.skip t.length) := by
      apply word?_eq_some_iff.mpr
      rw [length, ← text_mk c.before, ← show c.text = _ from rfl, ← whole]
      simp [letters]
    have behindFirst : (c.skip t.length).text = blanks ++ rest ++ more := by
      rw [text_skip, ← whole]
      simp
    obtain ⟨l, firstLater, letter⟩ := later.head? isLater
    have stop : (blanks ++ rest ++ more).takeWhile isBlank = blanks := by
      obtain ⟨rest', rfl⟩ := List.head?_eq_some_iff.mp firstLater
      rw [List.append_assoc, List.takeWhile_append_of_pos blank]
      simp [isBlank_of_isKeywordChar l letter]
    have behindBlanks : skipBlanks (c.skip t.length).before (c.skip t.length).marks =
        c.skip (t.length + blanks.length) := by
      rw [skipBlanks_eq_skip, ← text_mk (c.skip t.length).before, ← show (c.skip t.length).text = _ from rfl,
        behindFirst, stop, ← skip_skip]
    have restStarts : rest <+: (c.skip (t.length + blanks.length)).text := by
      refine ⟨more, ?_⟩
      rw [text_skip, ← whole, ← List.length_append]
      simp
    have lastWords := ih isLater restStarts
    obtain ⟨b, blanks', rfl⟩ := List.exists_cons_of_ne_nil apart
    rw [words?, first]
    · cases at_ : c.skip t.length with
      | mk before marks =>
        rw [at_] at behindFirst behindBlanks
        cases marks with
        | nil => simp [text_mk, markText] at behindFirst
        | cons m ms =>
          simp only [text_mk, markText, List.map_cons, List.cons_append, List.cons.injEq] at behindFirst
          simp only [behindFirst.1, blank b (by simp), if_true]
          rw [behindBlanks, lastWords, skip_skip, List.length_append, List.length_append]
    · simp

/-- A keyword is found exactly where it is written with no word character at either end. -/
theorem keyword?_eq_some_iff {c after : Cursor} {k : Keyword} (isKeyword : IsKeyword k) :
    c.keyword? k = some after ↔
      c.before.any isWordChar = false ∧ ∃ t rest, c.text = t ++ rest ∧ Spells k t ∧
        rest.head?.any isWordChar = false ∧ after = c.skip t.length := by
  have headText (d : Cursor) : d.marks.head?.any (isWordChar ·.char) = d.text.head?.any isWordChar := by
    cases h : d.marks <;> simp [text, markText, h]
  rw [keyword?]
  constructor
  · intro found
    split at found
    · cases found
    · rename_i start
      obtain ⟨words, stop⟩ := Option.filter_eq_some_iff.mp found
      obtain ⟨n, bound, spells, rfl⟩ := spells_of_words? isKeyword words
      rw [headText, text_skip, Bool.not_eq_true'] at stop
      refine ⟨by simpa using start, c.text.take n, c.text.drop n, by simp, spells, stop, ?_⟩
      rw [List.length_take, length_text, Nat.min_eq_left bound]
  · rintro ⟨start, t, rest, text, spells, stop, rfl⟩
    rw [if_neg (by simpa using start)]
    have words := words?_of_spells (c := c) isKeyword spells ⟨rest, text.symm⟩
    rw [words]
    simp only [Option.filter_eq_some_iff, true_and, headText, text_skip, text, List.drop_left, stop]
    rfl

/-- The letters up to the end of the word that starts here are those of the keyword's first word. -/
theorem first_word {c after : Cursor} {k : Keyword} (isKeyword : IsKeyword k)
    (found : c.keyword? k = some after) :
    upper (c.text.takeWhile isWordChar) = upper (k.headD []) := by
  obtain ⟨-, t, rest, text, spells, stop, -⟩ := (keyword?_eq_some_iff isKeyword).mp found
  obtain ⟨first, later, rfl, letters, ending⟩ := spells.head
  obtain ⟨w, ws, rfl⟩ := List.exists_cons_of_ne_nil isKeyword.1
  have word : ∀ c ∈ first, isWordChar c := fun c member =>
    isWordChar_of_isKeywordChar c
      (isKeywordChar_of_upper (isKeyword.2 w (by simp)).2 letters.symm c member)
  have halt : (later ++ rest).takeWhile isWordChar = [] := by
    rcases ending with ⟨rfl, -⟩ | blank
    · cases rest <;> simp_all
    · cases later <;> simp_all [isWordChar_of_isBlank]
  rw [text, List.append_assoc, List.takeWhile_append_of_pos word, halt, List.append_nil, letters]

end Cursor
end QueryChain
