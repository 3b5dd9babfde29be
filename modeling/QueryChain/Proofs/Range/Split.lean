import QueryChain.Proofs.Naming.Structure
import QueryChain.Proofs.Range.Kept

namespace QueryChain

section Cut

variable {κ : Type} {s : List (Char × Option κ)}

theorem cutWords_keeps (size : κ → Nat) (fits : ∀ i c k, s[i]? = some (c, some k) → i + size k ≤ s.length) (skip : Nat)
    (short : skip ≤ s.length) (rest : List (Char × Option κ)) :
    ∃ t ∈ (cutWords size skip (s ++ rest)).1 :: (cutWords size skip (s ++ rest)).2.map Prod.snd,
      (cutWords size 0 rest).1 <:+: t := by
  induction s generalizing skip with
  | nil =>
    obtain rfl : skip = 0 := Nat.le_zero.mp short
    exact ⟨_, by simp, List.infix_rfl⟩
  | cons a s ih =>
    have fitsRest : ∀ i c k, s[i]? = some (c, some k) → i + size k ≤ s.length := fun i c k at_ => by
      have here := fits (i + 1) c k (by simpa using at_)
      simp only [List.length_cons] at here
      omega
    cases skip with
    | succ skip => exact ih fitsRest skip (by simpa using short)
    | zero =>
      obtain ⟨c, k⟩ := a
      cases k with
      | none =>
        obtain ⟨t, member, inside⟩ := ih fitsRest 0 (Nat.zero_le _)
        rcases List.mem_cons.mp member with rfl | later
        · exact ⟨c :: (cutWords size 0 (s ++ rest)).1, by simp [cutWords], inside.trans (List.suffix_cons c _).isInfix⟩
        · exact ⟨t, by rw [List.cons_append, cutWords]; exact List.mem_cons_of_mem _ later, inside⟩
      | some k =>
        have whole := fits 0 c k (by simp)
        simp only [List.length_cons] at whole
        obtain ⟨t, member, inside⟩ := ih fitsRest (size k - 1) (by omega)
        refine ⟨t, ?_, inside⟩
        rw [List.cons_append, cutWords]
        exact List.mem_cons_of_mem _ member

theorem splitPoints_front (words : List (Char × Option LogicWord)) (caseDepth : Nat) (between : Bool) :
    ∃ points caseDepth' between', (∀ rest, splitPoints caseDepth between (words ++ rest) =
      points ++ splitPoints caseDepth' between' rest) ∧ points.length = words.length := by
  induction words generalizing caseDepth between with
  | nil => exact ⟨[], caseDepth, between, fun _ => rfl, rfl⟩
  | cons w words ih =>
    obtain ⟨k, n, b, step⟩ := splitPoints_step caseDepth between w.2
    obtain ⟨points, n', b', front, length⟩ := ih n b
    refine ⟨(w.1, k) :: points, n', b', fun rest => ?_, by rw [List.length_cons, List.length_cons, length]⟩
    rw [List.cons_append, step, front, List.cons_append]

theorem infix_foldAnds (afterOr : Bool) (last : Condition) (rest : List Condition) :
    ∀ c ∈ last :: rest, ∃ c' ∈ foldAnds afterOr last rest, c.text <:+: c'.text := by
  induction rest generalizing afterOr last with
  | nil => exact fun c member => ⟨c, member, List.infix_rfl⟩
  | cons d rest ih =>
    intro c member
    rw [foldAnds]
    split
    · have later := ih afterOr { last with text := last.text ++ " AND ".toList ++ d.text }
      rcases List.mem_cons.mp member with rfl | inRest
      · obtain ⟨c', inFold, inside⟩ := later _ List.mem_cons_self
        refine ⟨c', inFold, List.IsInfix.trans ?_ inside⟩
        rw [List.append_assoc]
        exact (List.prefix_append c.text _).isInfix
      · rcases List.mem_cons.mp inRest with rfl | inRest
        · obtain ⟨c', inFold, inside⟩ := later _ List.mem_cons_self
          exact ⟨c', inFold, (List.suffix_append _ c.text).isInfix.trans inside⟩
        · exact later c (List.mem_cons_of_mem _ inRest)
    · rcases List.mem_cons.mp member with rfl | inRest
      · exact ⟨c, List.mem_cons_self, List.infix_rfl⟩
      · obtain ⟨c', inFold, inside⟩ := ih _ d c inRest
        exact ⟨c', List.mem_cons_of_mem _ inFold, inside⟩

theorem infix_trim_of_infix {w t : Text} (head : ∀ c ∈ w.head?, isBlank c = false)
    (last : ∀ c ∈ w.getLast?, isBlank c = false) (full : w ≠ []) (inside : w <:+: t) : w <:+: trim t := by
  obtain ⟨front, back, rfl⟩ := inside
  have stop : trimEnd (front ++ w ++ back) = front ++ w ++ trimEnd back := by
    refine trimEnd_append (fun c lastOf => last c ?_) (by simp [full])
    rwa [getLast?_append_of_ne_nil full] at lastOf
  have parts := List.takeWhile_append_dropWhile (p := isBlank) (l := front)
  have start : trim (front ++ w ++ back) = trimStart front ++ (w ++ trimEnd back) := by
    rw [trim, stop, List.append_assoc]
    by_cases empty : trimStart front = []
    · rw [← trimStart, empty, List.append_nil] at parts
      rw [empty, List.nil_append]
      refine trimStart_blanks (fun c member => ?_) fun c first => head c ?_
      · rw [← parts] at member
        exact List.mem_takeWhile_imp member
      · rwa [List.head?_append_of_ne_nil w full] at first
    · exact trimStart_append empty
  rw [start, ← List.append_assoc]
  exact List.infix_append _ w _

theorem mem_opened {cs : List Condition} {c : Condition} (member : c ∈ cs) : ∃ c' ∈ opened cs, c'.text = c.text := by
  cases cs with
  | nil => cases member
  | cons first rest =>
    rcases List.mem_cons.mp member with rfl | inRest
    · exact ⟨_, List.mem_cons_self, rfl⟩
    · exact ⟨c, List.mem_cons_of_mem _ inRest, rfl⟩

end Cut
section Border

variable {A R w : Text} {i q : Nat}

theorem Stands.le_of_parted (isKeyword : IsKeyword [w]) (stands : Stands (A ++ R) [w] i q)
    (parted : A.getLast?.any isKeywordChar = false ∨ R.head?.any isKeywordChar = false) (start : i < A.length) :
    q ≤ A.length := by
  by_contra beyond
  have letters := isKeywordChar_of_word isKeyword stands.spells
  have bound := stands.bound
  have inWord {n : Nat} {c : Char} (le : i ≤ n) (less : n < q) (here : (A ++ R)[n]? = some c) : isKeywordChar c := by
    refine letters c (List.mem_of_getElem? (i := n - i) ?_)
    rw [slice_eq_take_drop, List.getElem?_take_of_lt (by omega), List.getElem?_drop, Nat.add_sub_cancel' le, here]
  rcases parted with last | first
  · rw [List.getLast?_eq_getElem?] at last
    cases here : A[A.length - 1]? with
    | none =>
      have short := List.getElem?_eq_none_iff.mp here
      omega
    | some c =>
      rw [here, Option.any_some] at last
      have letter := inWord (n := A.length - 1) (c := c) (by omega) (by omega)
        (by rw [List.getElem?_append_left (by omega), here])
      rw [letter] at last
      cases last
  · rw [List.head?_eq_getElem?] at first
    rw [List.length_append] at bound
    cases here : R[0]? with
    | none =>
      have short := List.getElem?_eq_none_iff.mp here
      omega
    | some c =>
      rw [here, Option.any_some] at first
      have letter := inWord (n := A.length) (c := c) (by omega) (by omega)
        (by rw [List.getElem?_append_right (Nat.le_refl _), Nat.sub_self, here])
      rw [letter] at first
      cases first

end Border
section Read

variable {κ : Type} {f : Text → Option κ} {x y : Text} {depth issued : Nat}

theorem wordsFrom_front (b : Option Char) (ms ns : Marks) : ∃ ws b', ws.length = ms.length ∧
    wordsFrom b (ms ++ ns) = ws ++ wordsFrom b' ns := by
  induction ms generalizing b with
  | nil => exact ⟨[], b, rfl, rfl⟩
  | cons m ms ih =>
    obtain ⟨ws, b', length, words⟩ := ih (some m.char)
    exact ⟨(m.char, Cursor.topWord ⟨b, m :: ms ++ ns⟩) :: ws, b', by rw [List.length_cons, List.length_cons, length],
      by rw [List.cons_append, wordsFrom, words]; rfl⟩

theorem readWords_of_standsFor {ws : List (Char × Text)} (none_ : standsFor f ws = []) :
    readWords f ws = (ws.map Prod.fst).map (·, none) := by
  rw [readWords, List.map_map]
  refine List.map_congr_left fun p member => ?_
  rw [Function.comp_apply, List.filterMap_eq_nil_iff.mp none_ p member]

theorem words_flat (depth : Nat) (p x : Text) : ∀ w ∈ (wordsFrom p.getLast? (flatMarks depth x)).map Prod.snd,
    w = [] ∨ ∃ i, w = wordAt (p ++ x) i := by
  induction x generalizing p with
  | nil => simp [flatMarks, wordsFrom]
  | cons c x ih =>
    intro w member
    rw [flatMarks, List.map_cons, ← flatMarks, wordsFrom, List.map_cons, List.mem_cons] at member
    rcases member with rfl | later
    · have text : Cursor.text ⟨p.getLast?, ⟨c, depth, .code⟩ :: flatMarks depth x⟩ = c :: x := by
        rw [Cursor.text_mk,
          show markText (⟨c, depth, .code⟩ :: flatMarks depth x) = c :: markText (flatMarks depth x) from rfl,
          markText_flatMarks]
      rw [Cursor.topWord, text]
      split
      · rename_i here
        have noWord : p.getLast?.any isWordChar = false := by
          rw [Bool.and_eq_true, Bool.not_eq_true'] at here
          exact here.2
        exact .inr ⟨p.length, by rw [wordAt_here, noWord, if_neg Bool.false_ne_true]⟩
      · exact .inl rfl
    · have same : p ++ c :: x = p ++ [c] ++ x := by simp
      rw [same]
      refine ih (p ++ [c]) w ?_
      rwa [List.getLast?_concat]

theorem readLogic_stop {w : Text} {k : LogicWord} (found : readLogic w = some k) :
    w ≠ [] ∧ (k = .endWord ∧ w = "END".toList ∨ [w] ∈ rangeStops) := by
  have same : k.word = w := by simpa using List.find?_some found
  refine ⟨(readsWords_logic w k found).1, ?_⟩
  rw [← same]
  rcases k with _ | _ | _ | _ | _ <;> decide

/-- Of the words at which conditions are split an operand of a range holds none but the end of a `CASE`. -/
theorem Tame.standsFor (tame : Tame x) (depth : Nat) : ∀ k ∈ standsFor readLogic (wordsFrom none (flatMarks depth x)),
    k = .endWord ∧ ∃ i, wordAt x i = "END".toList := by
  intro k member
  obtain ⟨p, inWords, found⟩ := List.mem_filterMap.mp member
  obtain ⟨full, stop⟩ := readLogic_stop found
  rcases words_flat depth [] x p.2 (List.mem_map_of_mem inWords) with empty | ⟨i, word⟩
  · exact absurd empty full
  · rcases stop with ⟨rfl, isEnd⟩ | stop
    · exact ⟨rfl, i, word.symm.trans isEnd⟩
    · exact absurd word.symm (tame.word i p.2 stop)

theorem TameBound.standsFor (tame : TameBound y) (depth : Nat) :
    QueryChain.standsFor readLogic (wordsFrom none (flatMarks depth y)) = [] := by
  refine List.eq_nil_iff_forall_not_mem.mpr fun k member => ?_
  obtain ⟨-, i, isEnd⟩ := tame.toTame.standsFor depth k member
  exact tame.noEnd i isEnd

theorem splitPoints_ends {ws : List (Char × Option LogicWord)} (ends : ∀ p ∈ ws, ∀ k ∈ p.2, k = .endWord) (caseDepth : Nat)
    (between : Bool) : ∃ caseDepth', ∀ rest, splitPoints caseDepth between (ws ++ rest) =
      (ws.map Prod.fst).map (·, none) ++ splitPoints caseDepth' between rest := by
  induction ws generalizing caseDepth with
  | nil => exact ⟨caseDepth, fun _ => rfl⟩
  | cons p ws ih =>
    obtain ⟨c, k⟩ := p
    have later := fun caseDepth => ih (fun p member => ends p (List.mem_cons_of_mem _ member)) caseDepth
    cases k with
    | none =>
      obtain ⟨caseDepth', step⟩ := later caseDepth
      exact ⟨caseDepth', fun rest => by rw [List.cons_append, splitPoints, step]; rfl⟩
    | some k =>
      obtain rfl := ends (c, some k) (by simp) k rfl
      obtain ⟨caseDepth', step⟩ := later (caseDepth - 1)
      exact ⟨caseDepth', fun rest => by rw [List.cons_append, splitPoints, step]; rfl⟩

/-- An operand whose placeholders are named is passed without a split. -/
theorem Tame.splitPoints (tame : Tame x) (b : Option Char) (issued depth caseDepth : Nat) (between : Bool) :
    ∃ caseDepth', ∀ rest, splitPoints caseDepth between
      (readWords readLogic (wordsFrom b (nameMarks issued (flatMarks depth x))) ++ rest) =
        (markText (nameMarks issued (flatMarks depth x))).map (·, none) ++
          QueryChain.splitPoints caseDepth' between rest := by
  have fewer : (QueryChain.standsFor readLogic (wordsFrom b (nameMarks issued (flatMarks depth x)))).Sublist
      (QueryChain.standsFor readLogic (wordsFrom none (flatMarks depth x))) := standsFor_sublist readsWords_logic nofun
  have ends : ∀ p ∈ readWords readLogic (wordsFrom b (nameMarks issued (flatMarks depth x))), ∀ k ∈ p.2, k = .endWord := by
    intro p member k found
    obtain ⟨q, inWords, rfl⟩ := List.mem_map.mp member
    exact (tame.standsFor depth k (fewer.subset (List.mem_filterMap.mpr ⟨q, inWords, found⟩))).1
  have chars : (readWords readLogic (wordsFrom b (nameMarks issued (flatMarks depth x)))).map Prod.fst =
      markText (nameMarks issued (flatMarks depth x)) := by
    rw [readWords, List.map_map, ← map_fst_wordsFrom b]
    rfl
  obtain ⟨caseDepth', step⟩ := splitPoints_ends ends caseDepth between
  exact ⟨caseDepth', fun rest => by rw [step, chars]⟩

theorem readWords_named (b : Option Char) {ms : Marks} (none_ : standsFor readLogic (wordsFrom none ms) = []) :
    readWords readLogic (wordsFrom b (nameMarks issued ms)) = (markText (nameMarks issued ms)).map (·, none) := by
  have fewer : (QueryChain.standsFor readLogic (wordsFrom b (nameMarks issued ms))).Sublist
      (QueryChain.standsFor readLogic (wordsFrom none ms)) := standsFor_sublist readsWords_logic nofun
  rw [none_] at fewer
  rw [readWords_of_standsFor (List.sublist_nil.mp fewer), map_fst_wordsFrom]

theorem readWords_space (b : Option Char) (t : Text) : readWords readLogic (wordsFrom b (flatMarks depth (' ' :: t))) =
    (' ', none) :: readWords readLogic (wordsFrom (some ' ') (flatMarks depth t)) := by
  have noWord : isWordChar ' ' = false := by decide
  rw [flatMarks, List.map_cons, wordsFrom, readWords, List.map_cons, topWord_of_stop noWord]
  rfl

theorem nameMarks_flat {w : Text} (noHole : '?' ∉ w) : nameMarks issued (flatMarks depth w) = flatMarks depth w := by
  induction w with
  | nil => rfl
  | cons c w ih =>
    have other : ¬(⟨c, depth, .code⟩ : Mark).isPlaceholder := fun placeholder =>
      noHole (by rw [← (char_of_placeholder placeholder).2]; simp)
    rw [flatMarks, List.map_cons, nameMarks, if_neg other, ← flatMarks, ih fun member => noHole (by simp [member])]

theorem splitPoints_nullRange (first : TameTested x) (second : TameBound y) (b : Option Char)
    (issued depth caseDepth : Nat) (between : Bool) : ∃ caseDepth' between', ∀ rest,
    splitPoints caseDepth between
      (readWords readLogic (wordsFrom b (nameMarks issued (flatMarks depth (nullRange x y)))) ++ rest) =
      (markText (nameMarks issued (flatMarks depth (nullRange x y)))).map (·, none) ++
        splitPoints caseDepth' between' rest := by
  by_cases deep : depth = 0
  swap
  · refine ⟨caseDepth, between, fun rest => ?_⟩
    rw [readWords_named b (standsFor_of_deep readsWords_logic (fun m member => .inl ?_) none), splitPoints_none]
    obtain ⟨c, -, rfl⟩ := List.mem_map.mp member
    simp [Mark.isTop, deep]
  subst deep
  rw [nullRange, flatMarks_append, flatMarks_append, flatMarks_append, nameMarks_append, nameMarks_append, nameMarks_append,
    nameMarks_flat (w := " BETWEEN ".toList) (by decide), nameMarks_flat (w := " AND NULL".toList) (by decide)]
  generalize issued + (flatMarks 0 x).countP Mark.isPlaceholder +
    (flatMarks 0 " BETWEEN ".toList).countP Mark.isPlaceholder = k
  rw [wordsFrom_append _ (.inr (by rfl)), wordsFrom_append _ (.inl (by decide)), wordsFrom_append _ (.inr (by rfl))]
  generalize (markText (nameMarks k (flatMarks 0 y))).getLast?.or _ = b₂
  generalize (markText (nameMarks issued (flatMarks 0 x))).getLast?.or b = b₁
  have betweenWords : readWords readLogic (wordsFrom b₁ (flatMarks 0 " BETWEEN ".toList)) =
      [(' ', none), ('B', some .between)] ++ "ETWEEN ".toList.map (·, none) := by
    rw [show " BETWEEN ".toList = ' ' :: "BETWEEN ".toList from rfl, readWords_space]
    decide +kernel
  have andWords : readWords readLogic (wordsFrom b₂ (flatMarks 0 " AND NULL".toList)) =
      [(' ', none), ('A', some (.connective .and))] ++ "ND NULL".toList.map (·, none) := by
    rw [show " AND NULL".toList = ' ' :: "AND NULL".toList from rfl, readWords_space]
    decide +kernel
  have append (l l' : List (Char × Text)) : readWords readLogic (l ++ l') =
    readWords readLogic l ++ readWords readLogic l' :=
    List.map_append
  obtain ⟨caseDepth, tested⟩ := first.toTame.splitPoints b issued 0 caseDepth between
  have waits : ∃ between', ∀ rest, splitPoints caseDepth between
        ([(' ', none), ('B', some .between)] ++ "ETWEEN ".toList.map (·, none) ++ rest) =
      " BETWEEN ".toList.map (·, none) ++ splitPoints caseDepth between' rest ∧ (caseDepth = 0 → between' = true) := by
    refine ⟨between || caseDepth == 0, fun rest => ⟨?_, fun top => by simp [top]⟩⟩
    rw [List.append_assoc, List.cons_append, splitPoints, List.cons_append, splitPoints, List.nil_append, splitPoints_none]
    rfl
  obtain ⟨between', waits⟩ := waits
  have passes : ∃ between'', ∀ rest, splitPoints caseDepth between'
        ([(' ', none), ('A', some (.connective .and))] ++ "ND NULL".toList.map (·, none) ++ rest) =
      " AND NULL".toList.map (·, none) ++ splitPoints caseDepth between'' rest := by
    by_cases top : caseDepth = 0
    · refine ⟨false, fun rest => ?_⟩
      rw [List.append_assoc, List.cons_append, splitPoints, List.cons_append, splitPoints, if_neg (by simp [top]),
        if_pos ⟨rfl, (waits []).2 top⟩, List.nil_append, splitPoints_none, top]
      rfl
    · refine ⟨between', fun rest => ?_⟩
      rw [List.append_assoc, List.cons_append, splitPoints, List.cons_append, splitPoints, if_pos top, List.nil_append,
        splitPoints_none]
      rfl
  obtain ⟨between'', passes⟩ := passes
  refine ⟨caseDepth, between'', fun rest => ?_⟩
  rw [append, append, append, betweenWords, readWords_named _ (second.standsFor 0), andWords, markText_append,
    markText_append, markText_append, List.map_append, List.map_append, List.map_append, List.append_assoc, tested,
    List.append_assoc, (waits _).1, List.append_assoc, splitPoints_none, passes]
  simp only [List.append_assoc, markText_flatMarks]

end Read
section Emitted

variable {x y n f b t : Text} {issued : Nat}

theorem mem_writtenPieces {w : Text} (full : w ≠ []) (head : ∀ c ∈ w.head?, isBlank c = false)
    (last : ∀ c ∈ w.getLast?, isBlank c = false)
    (inPiece : ∃ u ∈ (cutWords (·.word.length) 0 (splitPoints 0 false (logicMarks t))).1 ::
      (cutWords (·.word.length) 0 (splitPoints 0 false (logicMarks t))).2.map Prod.snd, w <:+: u) :
    ∃ c ∈ (writtenPieces t).filter (·.text ≠ []), w <:+: c.text := by
  obtain ⟨u, member, inside⟩ := inPiece
  have trimmed := infix_trim_of_infix head last full inside
  have kept : trim u ≠ [] := by
    rintro empty
    rw [empty] at trimmed
    exact full (List.eq_nil_of_infix_nil trimmed)
  obtain ⟨c, inPieces, text⟩ : ∃ c ∈ writtenPieces t, c.text = trim u := by
    rw [writtenPieces, ← logicMarks]
    rcases List.mem_cons.mp member with rfl | inParts
    · exact ⟨_, List.mem_cons_self, rfl⟩
    · obtain ⟨part, inCut, rfl⟩ := List.mem_map.mp inParts
      exact ⟨_, List.mem_cons_of_mem _ (List.mem_map_of_mem inCut), rfl⟩
  exact ⟨c, List.mem_filter.mpr ⟨inPieces, by simpa [text] using kept⟩, by rwa [text]⟩

theorem infix_splitConditions {w : Text} (whole : w <:+: t) (full : w ≠ [])
    (inPieces : ∃ c ∈ (writtenPieces t).filter (·.text ≠ []), w <:+: c.text) : ∃ c ∈ splitConditions t, w <:+: c.text := by
  have some_ : t ≠ [] := by
    rintro rfl
    exact full (List.eq_nil_of_infix_nil whole)
  obtain ⟨c, member, inside⟩ := inPieces
  obtain ⟨c', inOpened, text⟩ := mem_opened member
  rw [← conditionPieces_eq] at inOpened
  rw [splitConditions, if_neg some_]
  split
  · exact ⟨⟨t, none⟩, List.mem_singleton.mpr rfl, whole⟩
  · split
    · exact ⟨⟨t, none⟩, List.mem_singleton.mpr rfl, whole⟩
    · cases pieces : conditionPieces t with
      | nil =>
        rw [pieces] at inOpened
        cases inOpened
      | cons d rest =>
        rw [pieces] at inOpened
        obtain ⟨c'', inFold, more⟩ := infix_foldAnds (d.connective == some .or) d rest c' inOpened
        exact ⟨c'', inFold, by rw [text] at more; exact inside.trans more⟩

/-- Where a part stands in code, the words that decide on conditions fit into what stands before it. -/
theorem splitPoints_fit {F M : Marks} {points rest : List (Char × Option Connective)} {t : Text}
    (marks : scan t = F ++ M)
    (parted : (markText F).getLast?.any isKeywordChar = false ∨ (markText M).head?.any isKeywordChar = false)
    (read : splitPoints 0 false (logicMarks t) = points ++ rest) (length : points.length = F.length) :
    ∀ i c k, points[i]? = some (c, some k) → i + (Connective.word k).length ≤ points.length := by
  intro i c k at_
  have inPoints : i < points.length := (List.getElem?_eq_some_iff.mp at_).1
  have text : t = markText F ++ markText M := by rw [← markText_scan t, marks, markText_append]
  have lengthText : (markText F).length = F.length := by simp [markText]
  have there : (splitPoints 0 false (logicMarks t))[i]? = some (c, some k) := by
    rw [read, List.getElem?_append_left inPoints, at_]
  obtain ⟨q, stands⟩ : ∃ q, Stands t [Connective.word k] i q := stands_of_annotate (k := LogicWord.connective k)
    (isKeyword_connective k) (fun _ => rfl) (connective_of_splitPoints there)
  have size := length_of_spells stands.spells
  rw [length_slice stands.bound] at size
  have order := stands.le
  have short : q ≤ (markText F).length := by
    rw [text] at stands
    exact stands.le_of_parted (isKeyword_connective k) parted (by omega)
  have word : (LogicWord.word (.connective k)).length = (Connective.word k).length := rfl
  omega

theorem seen_of_kind {ms ns : Marks}
    (same : ms.map (fun m => (m.char, m.kind)) = ns.map fun m => (m.char, m.kind)) :
    ms.map Mark.seen = ns.map Mark.seen := by
  have seen (ms : Marks) : ms.map Mark.seen =
      (ms.map fun m => (m.char, m.kind)).map fun p => (p.1, p.2 == .code && p.1 == '?') := by
    rw [List.map_map]
    rfl
  rw [seen, seen, same]

/-- A range with its placeholders named stands in one of the conditions of a text. -/
theorem nullRange_emitted {F B : Marks} {depth k : Nat} (first : TameTested x) (second : TameBound y)
    (marks : scan t = F ++ (nameMarks k (flatMarks depth (nullRange x y)) ++ B))
    (parted : (markText F).getLast?.any isKeywordChar = false ∨
      (markText (nameMarks k (flatMarks depth (nullRange x y)) ++ B)).head?.any isKeywordChar = false)
    (divided : Divided (markText (nameMarks k (flatMarks depth (nullRange x y)))) (markText B)) :
    ∃ c ∈ splitConditions t, markText (nameMarks k (flatMarks depth (nullRange x y))) <:+: c.text := by
  obtain ⟨ws, b₁, lengthWords, words⟩ := wordsFrom_front none F (nameMarks k (flatMarks depth (nullRange x y)) ++ B)
  obtain ⟨points, caseDepth, between, front, length⟩ := splitPoints_front (readWords readLogic ws) 0 false
  obtain ⟨caseDepth', between', passed⟩ := splitPoints_nullRange first second b₁ k depth caseDepth between
  have read : splitPoints 0 false (logicMarks t) = points ++
      ((markText (nameMarks k (flatMarks depth (nullRange x y)))).map (·, none) ++ splitPoints caseDepth' between'
        (readWords readLogic
          (wordsFrom ((markText (nameMarks k (flatMarks depth (nullRange x y)))).getLast?.or b₁) B))) := by
    rw [← passed, ← front, logicMarks_eq, topWords, marks, words, wordsFrom_append b₁ divided, List.map_append,
      List.map_append]
    rfl
  have lengthPoints : points.length = F.length := by rw [length, readWords, List.length_map, lengthWords]
  obtain ⟨u, member, inside⟩ := cutWords_keeps (fun k => (Connective.word k).length)
    (splitPoints_fit marks parted read lengthPoints) 0 (Nat.zero_le _) _
  rw [cutWords_none] at inside
  rw [← read] at member
  have bare {o o' : Option Char} (same : o.any isBlank = o'.any isBlank) (ink : ∃ c, o' = some c ∧ isBlank c = false) :
      ∀ c ∈ o, isBlank c = false := by
    rintro c rfl
    obtain ⟨d, rfl, ink⟩ := ink
    exact same.trans ink
  have middle := first.middle_nullRange second
  have head := head?_numberMarks_of (f := (·.any isBlank)) (by decide) k (flatMarks depth (nullRange x y))
  have last := getLast?_numberMarks_of (f := (·.any isBlank)) (fun c digit => by
    rw [Option.any_some, Option.any_some, isBlank_of_isDigit digit]; rfl) k (flatMarks depth (nullRange x y))
  rw [← markText_nameMarks, markText_flatMarks] at head last
  obtain ⟨c, lastChar, ink, -⟩ := middle.last
  have full : markText (nameMarks k (flatMarks depth (nullRange x y))) ≠ [] := by
    have any_ := head?_numberMarks_of (f := Option.isSome) rfl k (flatMarks depth (nullRange x y))
    obtain ⟨c, headChar, -⟩ := middle.head
    rw [← markText_nameMarks, markText_flatMarks, headChar] at any_
    intro empty
    rw [empty] at any_
    cases any_
  have whole : markText (nameMarks k (flatMarks depth (nullRange x y))) <:+: t := by
    rw [← markText_scan t, marks, markText_append, markText_append, ← List.append_assoc]
    exact List.infix_append _ _ _
  exact infix_splitConditions whole full (mem_writtenPieces full (bare head middle.head) (bare last ⟨c, lastChar, ink⟩)
    ⟨u, member, (List.prefix_append _ _).isInfix.trans inside⟩)

theorem isKeywordChar_of_isDigit {c : Char} (digit : c.isDigit) : isKeywordChar c = false := by
  have code := (isDigit_iff c).mp digit
  have letter : c.isAlpha = false := by
    rw [Bool.eq_false_iff, ne_eq, isAlpha_iff]
    omega
  have line : c ≠ '_' := by
    rintro rfl
    revert digit
    decide
  rw [isKeywordChar, letter, beq_false_of_ne line, Bool.or_self]

theorem any_isKeywordChar {o : Option Char} (noWord : o.any isWordChar = false) : o.any isKeywordChar = false := by
  cases o with
  | none => rfl
  | some c =>
    rw [Option.any_some, Bool.eq_false_iff] at noWord ⊢
    exact mt (isWordChar_of_isKeywordChar c) noWord

/-- A range that is held by a text stands in one of the conditions the text is split into, its
    placeholders numbered after those in front of it. -/
theorem Held.nullRange_emitted (first : TameTested x) (second : TameBound y)
    (held : Held n f (nullRange x y) b) (issued : Nat) :
    ∃ c ∈ splitConditions (numbered issued n), numbered (issued + placeholders f) (nullRange x y) <:+: c.text := by
  have placed := held.placed (first.middle_nullRange second)
  obtain ⟨s, -, marks⟩ := placed.marks
  have lengthFront : ((scan n).take f.length).length = f.length := by simp [length_scan, held.text]
  have front : markText ((scan n).take f.length) = f := by
    rw [markText, List.map_take, ← markText, markText_scan, held.text, List.take_left]
  have behind : (({} : ScanState).behind f (nullRange x y ++ b)).marks (nullRange x y ++ b) =
      flatMarks s.depth (nullRange x y) ++ s.marks b := by
    rw [← ScanState.drop_marks, ← held.text, ← scan]
    conv_lhs => rw [marks]
    exact List.drop_left' lengthFront
  have count : ((scan n).take f.length).countP Mark.isPlaceholder = placeholders f := by
    have dashes := held.free.dashes
    rw [held.text] at dashes
    have seen := seen_cut rfl dashes
    rw [← held.text] at seen
    exact (numberMarks_of_seen seen issued).2.symm
  -- the range is named as it is on its own
  have own : markText (nameMarks (issued + placeholders f) (flatMarks s.depth (nullRange x y))) =
      numbered (issued + placeholders f) (nullRange x y) := by
    have quiet : (({} : ScanState).behind f (nullRange x y ++ b)).mode.isQuiet := by rw [placed.code]; rfl
    have dashes : DashesOnly (({} : ScanState).behind f (nullRange x y ++ b)) (nullRange x y ++ b) := by
      intro m member comment
      rw [behind] at member
      exact absurd comment (held.free m (by rw [marks]; exact List.mem_append_right _ member))
    have seen := seen_cut quiet dashes
    rw [behind, List.take_left' (length_flatMarks _ _), seen_of_kind (kind_scan placed.code _)] at seen
    rw [markText_nameMarks, numbered]
    exact (numberMarks_of_seen seen.symm _).1
  have named : scan (numbered issued n) = nameMarks issued ((scan n).take f.length) ++
      nameMarks (issued + placeholders f) (flatMarks s.depth (nullRange x y) ++ s.marks b) := by
    rw [scan_numbered, ← count, ← nameMarks_append, ← marks]
  have parted : (markText (nameMarks issued ((scan n).take f.length))).getLast?.any isKeywordChar = false ∨
      (markText (nameMarks (issued + placeholders f) (flatMarks s.depth (nullRange x y) ++ s.marks b))).head?.any
        isKeywordChar = false := by
    rw [markText_nameMarks, markText_nameMarks, ← behind, head?_numberMarks (f := (·.any isKeywordChar)) (by decide),
      getLast?_numberMarks_of (f := (·.any isKeywordChar))
        (fun c digit => by rw [Option.any_some, isKeywordChar_of_isDigit digit]; rfl), front]
    exact ((divided_append (first.middle_nullRange second).ne_nil).mpr held.front).imp any_isKeywordChar any_isKeywordChar
  have noWord : b.head?.any isWordChar = false := by
    refine held.back.resolve_left fun noWord => ?_
    rw [nullRange_eq, getLast?_append_of_ne_nil (by simp)] at noWord
    revert noWord
    decide
  rw [nameMarks_append] at named parted
  rw [← own]
  refine QueryChain.nullRange_emitted first second named parted (.inr ?_)
  rwa [markText_nameMarks, head?_numberMarks (f := (·.any isWordChar)) (by decide)]

theorem Term.inline_nullRange (tested : Term x) (lower : Term y) (b : Text) : Inline (nullRange x y) b :=
  (tested.inline (loose_cons (by decide) (by decide) _)).append ((Inline.plain (by decide) _).append
    ((lower.inline (loose_cons (by decide) (by decide) _)).append (.plain (by decide) b)))

/-- A statement was converted whose `WHERE` says this. -/
def WhereOf (body : Text) (c : Conversion) : Prop :=
  c.kind ≠ .insert ∧ ∃ reserved sql, convert reserved sql = .ok c ∧ whereSection? (normalize sql) = some body

theorem WhereOf.conditions {body : Text} {c : Conversion} (read : WhereOf body c) :
    ∃ issued, c.clauses.conditions = conditionsOf issued body := by
  obtain ⟨query, reserved, sql, ok, found⟩ := read
  obtain ⟨p, converted⟩ := convert_ok ok
  obtain ⟨p₁, conditions, -⟩ := where_of_read query converted.read
  rw [readWhere_eq_some _ _ found] at conditions
  exact ⟨p₁.issued, conditions⟩

/-- A range up to nothing that stands in the code of a text, a statement or the `WHERE` of one, stays as it is,
    and is part of one of the conditions, unless what follows it ends a condition: then its upper bound is taken
    for a stray `AND NULL` and dropped. -/
theorem null_bound_kept_iff_followed {raw front back : Text} (tested : Tested x) (lower : LowerBound y) (quiet : Quiet raw)
    (text : raw = front ++ (nullRange x y ++ back))
    (code : (({} : ScanState).behind front (nullRange x y ++ back)).mode = .code)
    (before : Divided front (nullRange x y)) (after : Divided (nullRange x y) back) :
    ∃ f b, trimStart b = normalize back ∧
      (endsCondition (normalize back) = false →
        normalize raw = f ++ (nullRange (collapse x) (collapse y) ++ b) ∧
        (∀ issued, ∃ condition ∈ conditionsOf issued raw,
          numbered (issued + placeholders f) (nullRange (collapse x) (collapse y)) <:+: condition.text) ∧
        ∀ c, WhereOf raw c → ∃ issued, ∃ condition ∈ c.clauses.conditions,
          numbered (issued + placeholders f) (nullRange (collapse x) (collapse y)) <:+: condition.text) ∧
      (endsCondition (normalize back) →
        normalize raw = f ++ (openRange (collapse x) (collapse y) ++ b) ∧
        ∀ c, WhereOf raw c → ∃ issued, c.clauses.conditions =
          splitConditions (numbered issued (f ++ (openRange (collapse x) (collapse y) ++ b)))) := by
  have inline := tested.inline_nullRange lower.toTerm back
  have placed : Placed raw front (nullRange x y) back := by
    refine ⟨text, code, ⟨({} : ScanState).behind front (nullRange x y ++ back), code, ?_⟩, before, after⟩
    rw [text, scan, ← inline.marks _ code]
    exact ScanState.marks_append _ _ _
  rcases placed.keeps_nullRange tested lower quiet with ⟨goesOn, f, b, held, rest⟩ | ⟨ends, f, b, held, rest⟩
  · have emitted := held.nullRange_emitted tested.tame lower.tame
    refine ⟨f, b, rest, fun _ => ⟨held.text, emitted, fun c read => ?_⟩, fun ends => ?_⟩
    · obtain ⟨issued, conditions⟩ := read.conditions
      exact ⟨issued, by rw [conditions]; exact emitted issued⟩
    · rw [goesOn] at ends
      cases ends
  · refine ⟨f, b, rest, fun goesOn => ?_, fun _ => ⟨held.text, fun c read => ?_⟩⟩
    · rw [goesOn] at ends
      cases ends
    · obtain ⟨issued, conditions⟩ := read.conditions
      exact ⟨issued, by rw [conditions, conditionsOf, held.text]⟩

theorem null_bound_kept_iff_followed_grouped :
    let range := nullRange "x" "?"
    let condition := "a = ? AND (b OR ".toList ++ (range ++ " OR c)".toList)
    let kept := "SELECT a FROM t WHERE a = ? AND (b OR ".toList ++ (range ++ " OR c) GROUP BY a".toList)
    let lost := "SELECT a FROM t WHERE a = ? AND (b OR ".toList ++ (range ++ ") GROUP BY a".toList)
    Quiet kept ∧ Quiet condition ∧ Quiet lost ∧
    (∃ f b, normalize kept = f ++ (range ++ b)) ∧
    (∃ c f issued, convert default kept = .ok c ∧
      ∃ condition ∈ c.clauses.conditions, numbered (issued + placeholders f) range <:+: condition.text) ∧
    ∃ f b, normalize lost = f ++ (openRange "x" "?" ++ b) := by
  intro range condition kept lost
  have term (w : Text) (full : ∃ c ∈ w, isBlank c = false) (code : ∀ m ∈ scan w, m.kind = .code)
      (flat : ∀ c ∈ w, c ≠ '(' ∧ c ≠ ')') (lacks : Lacks rangeStops w) : Term w := ⟨full, code, flat, lacks⟩
  have tested : Tested "x" :=
    ⟨term _ ⟨'x', by simp, by decide⟩ (by decide +kernel) (by decide) (by decide +kernel), by decide +kernel⟩
  have lower : LowerBound "?" :=
    ⟨term _ ⟨'?', by simp, by decide⟩ (by decide +kernel) (by decide) (by decide +kernel), by decide +kernel, by decide⟩
  have collapsed : collapse "x" = "x" ∧ collapse "?" = "?" := by decide
  have chars : "SELECT a FROM t WHERE a = ? AND (b OR ".toList = _ := String.toList_ofList
  have keeps : Quiet kept := by
    rw [show kept = _ from congrArg (· ++ _) chars]
    exact .settled (by decide +kernel)
  have splits : Quiet condition := .settled (by decide +kernel)
  have loses : Quiet lost := by
    rw [show lost = _ from congrArg (· ++ _) chars]
    exact .step (by decide +kernel) (by decide +kernel) (by decide +kernel) (.settled (by decide +kernel))
  have read : ∃ c, convert default kept = .ok c ∧ c.kind = .select := by
    have kind : (convert default kept).map Conversion.kind = .ok .select := by
      rw [show kept = _ from congrArg (· ++ _) chars]
      decide +kernel
    cases ok : convert default kept with
    | error issue =>
      rw [ok] at kind
      cases kind
    | ok c =>
      rw [ok] at kind
      exact ⟨c, rfl, Except.ok.inj kind⟩
  refine ⟨keeps, splits, loses, ?_, ?_, ?_⟩
  · obtain ⟨f, b, -, goesOn, -⟩ := null_bound_kept_iff_followed tested lower keeps rfl (by decide +kernel)
      (.inl (by decide)) (.inr (by decide))
    obtain ⟨text, -⟩ := goesOn (by decide +kernel)
    rw [collapsed.1, collapsed.2] at text
    exact ⟨f, b, text⟩
  · obtain ⟨c, ok, kind⟩ := read
    obtain ⟨f, b, -, goesOn, -⟩ := null_bound_kept_iff_followed tested lower splits rfl (by decide +kernel)
      (.inl (by decide)) (.inr (by decide))
    have whole : WhereOf condition c := by
      refine ⟨by rw [kind]; decide, default, kept, ok, ?_⟩
      rw [show kept = _ from congrArg (· ++ _) chars]
      decide +kernel
    obtain ⟨issued, emitted⟩ := (goesOn (by decide +kernel)).2.2 c whole
    rw [collapsed.1, collapsed.2] at emitted
    exact ⟨c, f, issued, ok, emitted⟩
  · obtain ⟨f, b, -, -, ends⟩ := null_bound_kept_iff_followed tested lower loses rfl (by decide +kernel)
      (.inl (by decide)) (.inr (by decide))
    obtain ⟨text, -⟩ := ends (by decide +kernel)
    rw [collapsed.1, collapsed.2] at text
    exact ⟨f, b, text⟩

end Emitted
end QueryChain
