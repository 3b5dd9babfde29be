import QueryChain.Proofs.Keyword.Skipping

namespace QueryChain

section States

variable {t rest : Text} {i j : Nat} {c : Char}

theorem stateAt_succ (text : t.drop i = c :: rest) :
    stateAt t (i + 1) = (stateAt t i).next c rest := by
  have behind : t.drop (i + 1) = rest := by rw [← List.drop_drop, text, List.drop_one, List.tail_cons]
  rw [stateAt_add, text, behind]
  rfl

theorem stateAt_drop (start : stateAt t i = {}) : stateAt (t.drop i) j = stateAt t (i + j) := by
  rw [stateAt_add, start, stateAt, List.drop_drop]

theorem mark_at (text : t.drop i = c :: rest) : (scan t)[i]? = some ((stateAt t i).mark c rest) := by
  have first : ((scan t).drop i).head? = some ((stateAt t i).mark c rest) := by
    rw [drop_scan, text]
    rfl
  rwa [List.head?_drop] at first

theorem exists_cons_of_lt (inText : i < t.length) : ∃ c rest, t.drop i = c :: rest :=
  ⟨t[i], t.drop (i + 1), List.drop_eq_getElem_cons inText⟩

theorem noComment_stateAt (free : CommentFree t) (inText : i ≤ t.length) : (stateAt t i).NoComment := by
  induction i with
  | zero =>
    rw [stateAt_zero]
    exact .inl rfl
  | succ i ih =>
    obtain ⟨c, rest, text⟩ := exists_cons_of_lt inText
    rw [stateAt_succ text]
    exact (ih (by omega)).next (free _ (List.mem_of_getElem? (mark_at text)))

end States

theorem drop_length_takeWhile {α : Type} (p : α → Bool) (l : List α) :
    l.drop (l.takeWhile p).length = l.dropWhile p := by
  induction l with
  | nil => rfl
  | cons a l ih =>
    rw [List.takeWhile_cons, List.dropWhile_cons]
    by_cases holds : p a
    · rw [if_pos holds, if_pos holds, List.length_cons, List.drop_succ_cons, ih]
    · rw [if_neg holds, if_neg holds]
      rfl

def Tail (t u : Text) : Prop := ∃ j ≤ t.length, stateAt t j = {} ∧ u = t.drop j

namespace Tail

variable {t u v : Text}

theorem trans (first : Tail t u) (second : Tail u v) : Tail t v := by
  obtain ⟨i, bound, start, rfl⟩ := first
  obtain ⟨j, bound', start', rfl⟩ := second
  rw [List.length_drop] at bound'
  refine ⟨i + j, by omega, ?_, by rw [List.drop_drop]⟩
  rw [← stateAt_drop start, start']

theorem of_plain {n : Nat} (inText : n ≤ t.length) (plain : ∀ c ∈ slice 0 n t, isPlain c) :
    Tail t (t.drop n) :=
  ⟨n, inText, stateAt_plain (Nat.zero_le n) plain stateAt_zero, rfl⟩

theorem trimStart (t : Text) : Tail t (trimStart t) := by
  have short := (List.takeWhile_prefix isBlank (l := t)).length_le
  rw [QueryChain.trimStart, ← drop_length_takeWhile]
  apply of_plain short
  intro c member
  rw [slice_eq_take_drop, List.drop_zero, Nat.sub_zero,
    ← List.prefix_iff_eq_take.mp (List.takeWhile_prefix isBlank)] at member
  exact isPlain_of_isBlank c (List.mem_takeWhile_imp member)

theorem afterKeyword? {k : Keyword} (isKeyword : IsKeyword k) (found : afterKeyword? k t = some u) :
    Tail t u := by
  obtain ⟨after, here, rfl⟩ := Option.map_eq_some_iff.mp found
  rw [← cursorAt_zero] at here
  obtain ⟨j, -, bound, spells, -, -, rfl⟩ :=
    (keyword?_cursorAt_iff isKeyword (Nat.zero_le _)).mp here
  rw [text_cursorAt]
  exact of_plain bound (spells.isPlain isKeyword)

theorem commentFree (tail : Tail t u) (free : CommentFree t) : CommentFree u := by
  obtain ⟨j, bound, start, rfl⟩ := tail
  intro m member
  have inScan : (scan t).drop j = _ := drop_scan
  rw [start] at inScan
  rw [scan, ← inScan] at member
  exact free m (List.mem_of_mem_drop member)

theorem trim_eq_slice (tail : Tail t u) :
    ∃ b e, b ≤ e ∧ e ≤ t.length ∧ stateAt t b = {} ∧ trim u = slice b e t := by
  obtain ⟨j, bound, start, rfl⟩ := tail
  have whole : t.drop j = slice j t.length t := by rw [slice, List.take_length]
  obtain ⟨b, e, first, order, last, trimmed, front, -⟩ := trim_slice bound (Nat.le_refl t.length)
  refine ⟨b, e, order, last, ?_, by rw [whole, trimmed]⟩
  exact stateAt_plain first (fun c member => isPlain_of_isBlank c (front c member)) start

end Tail

section Group

variable {t : Text}

theorem ScanState.next_closing {s : ScanState} {rest : Text} (top : (s.mark ')' rest).isTop) :
    s.next ')' rest = {} := by
  rw [Mark.isTop, Bool.and_eq_true] at top
  have mode := mode_of_code s ')' rest (by decide) top.1
  have depth := top.2
  rw [mark, mode, role_closing] at depth
  rw [next, mode, role_closing]
  obtain ⟨m, d⟩ := s
  simp_all

theorem depth_stateAt {i : Nat} (inText : i ≤ t.length) (free : CommentFree t)
    (flat : ∀ j < i, ∀ m, (scan t)[j]? = some m → ¬endsTable m) : (stateAt t i).depth = 0 := by
  induction i with
  | zero => rw [stateAt_zero]
  | succ i ih =>
    obtain ⟨c, rest, text⟩ := exists_cons_of_lt inText
    have before := ih (by omega) fun j less => flat j (by omega)
    have here := flat i (by omega) _ (mark_at text)
    have uncommented := free _ (List.mem_of_getElem? (mark_at text))
    rw [stateAt_succ text]
    rcases noComment_stateAt free (by omega : i ≤ t.length) with code | ⟨q, escaped, quote⟩
    · rw [ScanState.next, code]
      rw [ScanState.mark, code] at here
      cases role : Role.of c rest with
      | opening =>
        have char : c = '(' := by
          by_contra other
          simp only [Role.of, other, if_false] at role
          split_ifs at role
        rw [role] at here
        simp [char, endsTable, Mark.isCode] at here
      | closing => simp [before]
      | lineComment => exact before
      | blockComment => exact before
      | quote => exact before
      | plain => exact before
    · rw [ScanState.next, quote]
      cases escaped with
      | true => exact before
      | false =>
        dsimp only
        split_ifs <;> exact before

/-- The list behind its longest start of such elements begins at the first other one. -/
theorem exists_of_dropWhile {α : Type} {p : α → Bool} {l after : List α} {a : α}
    (rest : l.dropWhile p = a :: after) :
    ∃ j, l[j]? = some a ∧ l.drop j = a :: after ∧ (∀ i < j, ∀ b, l[i]? = some b → p b) ∧ p a = false := by
  have split := List.takeWhile_append_dropWhile (p := p) (l := l)
  have drop : l.drop (l.takeWhile p).length = a :: after := by rw [drop_length_takeWhile, rest]
  refine ⟨(l.takeWhile p).length, ?_, drop, ?_, ?_⟩
  · rw [← List.head?_drop, drop, List.head?_cons]
  · intro i less b at_
    rw [← split, List.getElem?_append_left less] at at_
    exact List.mem_takeWhile_imp (List.mem_of_getElem? at_)
  · have stop := List.head?_dropWhile_not p l
    rw [rest] at stop
    simpa using stop

theorem markText_drop_scan (j : Nat) : markText ((scan t).drop j) = t.drop j := by
  rw [markText, List.map_drop, ← markText, markText_scan]

theorem Tail.behind_table (free : CommentFree t)
    (some_ : markText ((scan t).dropWhile (!endsTable ·)) ≠ []) :
    Tail t (markText ((scan t).dropWhile (!endsTable ·))) := by
  cases rest : (scan t).dropWhile (!endsTable ·) with
  | nil =>
    rw [rest] at some_
    exact absurd rfl some_
  | cons m after =>
    obtain ⟨j, at_, drop, flat, ends⟩ := exists_of_dropWhile rest
    have inText : j < t.length := by
      rw [← length_scan]
      exact (List.getElem?_eq_some_iff.mp at_).1
    have depth := depth_stateAt inText.le free fun i less m here => by simpa using flat i less m here
    obtain ⟨c, behind, text⟩ := exists_cons_of_lt inText
    rw [mark_at text, Option.some.injEq] at at_
    have code : ((stateAt t j).mark c behind).isCode := by
      rw [at_]
      simp only [endsTable, Bool.not_eq_false', Bool.and_eq_true] at ends
      exact ends.1
    refine ⟨j, inText.le, ?_, by rw [← drop, markText_drop_scan]⟩
    have mode : (stateAt t j).mode = .code := by
      rcases noComment_stateAt free inText.le with code | ⟨q, escaped, quote⟩
      · exact code
      · rw [ScanState.mark, quote] at code
        cases code
    generalize stateAt t j = s at depth mode
    obtain ⟨m, d⟩ := s
    simp_all

theorem Tail.behind_group {group u : Text} (found : leadingGroup? t = some (group, u)) : Tail t u := by
  rw [leadingGroup?] at found
  cases marks : scan t with
  | nil =>
    rw [marks] at found
    cases found
  | cons opening rest =>
    rw [marks] at found
    dsimp only at found
    cases after : rest.dropWhile (!·.isTopOf ')') with
    | nil =>
      rw [after] at found
      cases found
    | cons closing after' =>
      rw [after] at found
      cases found
      obtain ⟨j, at_, drop, -, ends⟩ := exists_of_dropWhile after
      have at' : (scan t)[j + 1]? = some closing := by rw [marks, List.getElem?_cons_succ, at_]
      have drop' : (scan t).drop (j + 1) = closing :: after' := by rw [marks, List.drop_succ_cons, drop]
      have inText : j + 1 < t.length := by
        rw [← length_scan]
        exact (List.getElem?_eq_some_iff.mp at').1
      obtain ⟨c, behind, text⟩ := exists_cons_of_lt inText
      rw [mark_at text, Option.some.injEq] at at'
      have top : closing.isTopOf ')' := by simpa using ends
      rw [Mark.isTopOf, Bool.and_eq_true, ← at', ScanState.mark_char, beq_iff_eq] at top
      obtain ⟨rfl, isTop⟩ := top
      refine ⟨j + 2, by omega, ?_, ?_⟩
      · rw [stateAt_succ text]
        exact ScanState.next_closing isTop
      · have behindClosing : (scan t).drop (j + 2) = after' := by
          rw [show j + 2 = j + 1 + 1 from rfl, ← List.drop_drop, drop']
          rfl
        rw [← behindClosing, markText_drop_scan]

theorem leadingGroup?_append {group rest : Text} (found : leadingGroup? t = some (group, rest)) :
    group ++ rest = t := by
  rw [leadingGroup?] at found
  have text := markText_scan t
  cases marks : scan t with
  | nil =>
    rw [marks] at found
    cases found
  | cons opening more =>
    rw [marks] at found text
    dsimp only at found
    have parts := List.takeWhile_append_dropWhile (p := (!·.isTopOf ')')) (l := more)
    cases behind : more.dropWhile (!·.isTopOf ')') with
    | nil =>
      rw [behind] at found
      cases found
    | cons closing after =>
      rw [behind] at found parts
      cases found
      conv_rhs => rw [← text, ← parts]
      simp [markText]

end Group

section Insert

variable {sql t : Text}

/-- The body of an insertion is a part of the text that starts where nothing is open. -/
theorem insertBody_eq_slice (there : insertBody t ≠ .missing) :
    ∃ b e, b ≤ e ∧ e ≤ t.length ∧ stateAt t b = {} ∧ (insertBody t).text = slice b e t := by
  rw [insertBody] at there ⊢
  cases values : (afterKeyword? ["VALUES"] t).or (afterKeyword? ["VALUE"] t) with
  | some u =>
    have tail : Tail t u := by
      rcases Option.or_eq_some_iff.mp values with found | ⟨-, found⟩
      · exact .afterKeyword? (by decide) found
      · exact .afterKeyword? (by decide) found
    exact tail.trim_eq_slice
  | none =>
    rw [values] at there
    cases set : afterKeyword? ["SET"] t with
    | some u =>
      have tail : Tail t u := .afterKeyword? (by decide) set
      exact tail.trim_eq_slice
    | none =>
      rw [set] at there
      dsimp only at there ⊢
      by_cases query : startsWithKeyword ["SELECT"] t || opensQuery t
      · rw [if_pos query]
        refine ⟨0, t.length, Nat.zero_le _, Nat.le_refl _, stateAt_zero, ?_⟩
        simp [InsertBody.text, slice]
      · rw [if_neg query] at there
        exact absurd rfl there

theorem insertBody_nil : insertBody [] = .missing := by decide

theorem insertParts?_eq_slice {parts : InsertParts} (free : CommentFree sql)
    (found : insertParts? sql = some parts) (there : parts.body ≠ .missing) :
    ∃ b e, b ≤ e ∧ e ≤ sql.length ∧ stateAt sql b = {} ∧ parts.body.text = slice b e sql := by
  suffices tail : ∃ t, Tail sql t ∧ parts.body = insertBody t by
    obtain ⟨t, ⟨j, bound, start, rfl⟩, body⟩ := tail
    rw [body] at there ⊢
    obtain ⟨b, e, le, bound', start', text⟩ := insertBody_eq_slice there
    rw [List.length_drop] at bound'
    refine ⟨j + b, j + e, by omega, by omega, ?_, ?_⟩
    · rw [← stateAt_drop start, start']
    · rw [text, slice_eq_take_drop, slice_eq_take_drop, List.drop_drop]
      congr 1
      omega
  rw [insertParts?] at found
  simp only [Option.bind_eq_bind, Option.bind_eq_some_iff] at found
  obtain ⟨⟨passed, behindVerb⟩, verb, found⟩ := found
  rw [← cursorAt_zero] at verb
  obtain ⟨p, -, -, -, k, member, q, stands, rfl⟩ :=
    find?_cursorAt (by decide) (Nat.zero_le _) verb
  have isKeyword : IsKeyword k := by
    obtain rfl := List.mem_singleton.mp member
    decide
  obtain ⟨m₁, -, bound₁, start₁, run₁, -⟩ :=
    skipRun_cursorAt [["LOW_PRIORITY"], ["DELAYED"], ["HIGH_PRIORITY"], ["IGNORE"]] (by decide)
      (cursorAt sql q).marks.length stands.bound (stands.state_eq_end isKeyword)
  obtain ⟨m₂, -, bound₂, start₂, run₂, -⟩ :=
    skipRun_cursorAt [["INTO"]] (by decide) (cursorAt sql m₁).marks.length bound₁ start₁
  dsimp only at found
  rw [Cursor.skipAny, Cursor.skipAny, run₁, run₂, text_cursorAt] at found
  have tail : Tail sql (trimStart (sql.drop m₂)) :=
    Tail.trans ⟨m₂, bound₂, start₂, rfl⟩ (.trimStart _)
  have freeTarget := tail.commentFree free
  obtain ⟨-, -, found⟩ := found
  generalize trimStart (sql.drop m₂) = target at found tail freeTarget
  by_cases empty : markText ((scan target).dropWhile (!endsTable ·)) = []
  · rw [empty] at found
    cases found
    exact absurd insertBody_nil there
  · have rest := (tail.trans (.behind_table freeTarget empty)).trans (.trimStart _)
    generalize trimStart (markText ((scan target).dropWhile (!endsTable ·))) = rest_ at found rest
    by_cases columns : rest_.head? == some '(' && !opensQuery rest_
    · rw [if_pos columns] at found
      obtain ⟨⟨group, behind⟩, grouped, eq⟩ := Option.bind_eq_some_iff.mp found
      cases eq
      exact ⟨_, (rest.trans (.behind_group grouped)).trans (.trimStart _), rfl⟩
    · rw [if_neg columns] at found
      cases found
      exact ⟨_, rest, rfl⟩

end Insert
end QueryChain
