import QueryChain.Proofs.Range.Operands

namespace QueryChain

/-- A part of a text that clean-ups go around: it starts and ends with what is kept, nothing is opened
    in it, and no `AND NULL` in front of a condition's end runs into it. -/
structure Middle (m : Text) : Prop where
  head : ∃ c, m.head? = some c ∧ isBlank c = false
  last : ∃ c, m.getLast? = some c ∧ isBlank c = false ∧ c ≠ ';'
  chars : ∀ c ∈ m, Role.of c [] = .plain
  collapsed : ∀ depth, collapseMarks false false (flatMarks depth m) = m
  entered : ∀ b, wordAt m 0 = "NULL".toList → ¬endsCondition (trimStart (m.drop 4 ++ b))

section Middle

variable {x y m : Text} {s : ScanState} {depth : Nat}

theorem collapse_flat (depth : Nat) (x : Text) :
    collapseMarks false false (flatMarks depth x) = collapseMarks false false (flatMarks 0 x) :=
  collapseMarks_kind false false (by simp [flatMarks, Function.comp_def])

theorem Tame.full (tame : Tame x) : ∃ c ∈ x, isBlank c = false := by
  obtain ⟨c, head, ink⟩ := tame.head
  exact ⟨c, List.mem_of_head? head, ink⟩

theorem Tame.ne_nil (tame : Tame x) : x ≠ [] := by
  rintro rfl
  simpa using tame.full

theorem TameTested.entered (first : TameTested x) (v : Text)
    (null : wordAt (x ++ (" BETWEEN ".toList ++ v)) 0 = "NULL".toList)
    (b : Text) : ¬endsCondition (trimStart ((x ++ (" BETWEEN ".toList ++ v)).drop 4 ++ b)) := by
  have start : 0 < x.length := List.length_pos_iff.mpr first.ne_nil
  rw [wordAt_left (.inr rfl) start] at null
  have long : 4 ≤ x.length := by
    have short := length_wordAt x 0
    rw [null] at short
    simpa using short
  rw [List.drop_append_of_le_length long, List.append_assoc, List.append_assoc]
  exact not_ends_behind_null first null (v ++ b)

theorem role_plain {t : Text} (plain : ∀ c ∈ t, isPlain c) : ∀ c ∈ t, Role.of c [] = .plain :=
  fun c member => role_of_plain c [] (plain c member)

theorem TameTested.middle_openRange (first : TameTested x) (second : TameBound y) : Middle (openRange x y) where
  head := by
    obtain ⟨c, head, ink⟩ := first.head
    exact ⟨c, by rw [openRange, List.head?_append, head, Option.some_or], ink⟩
  last := by
    obtain ⟨c, last, ink⟩ := second.last
    refine ⟨c, ?_, ink, fun semicolon => second.semicolon (semicolon ▸ last)⟩
    rw [openRange, List.getLast?_append, List.getLast?_append, last, Option.some_or, Option.some_or]
  chars := by
    intro c member
    rw [openRange, List.mem_append, List.mem_append] at member
    rcases member with inFirst | inWord | inSecond
    · exact first.chars c inFirst
    · exact role_plain (by decide) c inWord
    · exact second.chars c inSecond
  collapsed depth := by
    rw [collapse_openRange first.full second.full, collapse_flat depth x, collapse_flat depth y, first.collapsed,
      second.collapsed]
  entered b null := first.entered y null b

theorem TameTested.middle_nullRange (first : TameTested x) (second : TameBound y) : Middle (nullRange x y) where
  head := by
    obtain ⟨c, head, ink⟩ := first.head
    exact ⟨c, by rw [nullRange, List.head?_append, head, Option.some_or], ink⟩
  last := ⟨'L', by rw [nullRange_eq, getLast?_append_of_ne_nil (by simp)]; rfl, by decide, by decide⟩
  chars := by
    intro c member
    rw [nullRange_eq, List.mem_append] at member
    rcases member with inOpen | inWord
    · exact (first.middle_openRange second).chars c inOpen
    · exact role_plain (by decide) c inWord
  collapsed depth := by
    rw [collapse_nullRange first.full second.full, collapse_flat depth x, collapse_flat depth y, first.collapsed,
      second.collapsed]
  entered b null := first.entered (y ++ " AND NULL".toList) null b

namespace Middle

theorem ne_nil (middle : Middle m) : m ≠ [] := by
  rintro rfl
  obtain ⟨c, head, -⟩ := middle.head
  cases head

end Middle
end Middle

structure Placed (t f m b : Text) : Prop where
  text : t = f ++ (m ++ b)
  code : (({} : ScanState).behind f (m ++ b)).mode = .code
  marks : ∃ s : ScanState, s.mode = .code ∧ scan t = (scan t).take f.length ++ (flatMarks s.depth m ++ s.marks b)
  front : Divided f m
  back : Divided m b

structure Held (t f m b : Text) : Prop where
  text : t = f ++ (m ++ b)
  free : CommentFree t
  code : (({} : ScanState).calmRun f).mode = .code
  front : Divided f m
  back : Divided m b

section Steps

variable {t f m b u : Text} {i j : Nat}

theorem divided_append (full : m ≠ []) : Divided f (m ++ b) ↔ Divided f m := by
  rw [Divided, Divided, List.head?_append_of_ne_nil m full]

theorem divided_append_left (full : m ≠ []) : Divided (f ++ m) b ↔ Divided m b := by
  rw [Divided, Divided, getLast?_append_of_ne_nil full]

theorem collapseMarks_around (depth : Nat) (ms ns : Marks) (full : ∃ c ∈ m, isBlank c = false)
    (last : ∀ c ∈ m.getLast?, isBlank c = false) (front : Divided (markText ms) m) (back : Divided m (markText ns)) :
    ∃ space : Text, (space = [] ∨ space = [' ']) ∧
      collapseMarks false false (ms ++ (flatMarks depth m ++ ns)) = collapseMarks false false ms ++ space ++
        (collapseMarks false false (flatMarks depth m) ++ collapseMarks false true ns) ∧
      Divided (collapseMarks false false ms ++ space) (collapseMarks false false (flatMarks depth m)) ∧
      Divided (collapseMarks false false (flatMarks depth m)) (collapseMarks false true ns) := by
  have some_ : m ≠ [] := by
    rintro rfl
    simp at full
  obtain ⟨d, member, ink⟩ := full
  have start (gap inner : Bool) := collapseMarks_start gap inner (ink_of_full depth ⟨d, member, ink⟩)
  have lastInk : (flatMarks depth m).getLast?.map Mark.isGap = some false := by
    obtain ⟨c, here⟩ := Option.isSome_iff_exists.mp (List.getLast?_isSome.mpr some_)
    rw [flatMarks, List.getLast?_map, here, Option.map_some, Option.map_some, isGap_flat, last c here]
  have anyInk : (flatMarks depth m).any (!·.isGap) = true :=
    List.any_eq_true.mpr ⟨⟨d, depth, .code⟩, List.mem_map_of_mem member, by rw [isGap_flat, ink]; rfl⟩
  have frontStill := divided_collapse false false
    (show Divided (markText ms) (markText (flatMarks depth m)) by rwa [markText_flatMarks])
  have backStill := divided_collapse false false
    (show Divided (markText (flatMarks depth m)) (markText ns) by rwa [markText_flatMarks])
  rw [lastInk, Option.getD_some, anyInk, Bool.or_true] at backStill
  have whole := collapseMarks_append false false ms (flatMarks depth m ++ ns)
  generalize (ms.getLast?.map Mark.isGap).getD false = gap, (false || ms.any (!·.isGap)) = inner at frontStill whole
  rw [collapseMarks_append gap inner, lastInk, Option.getD_some, anyInk, Bool.or_true, start] at whole
  rw [start] at frontStill
  generalize ((gap || (flatMarks depth m).head?.any Mark.isGap) && inner) = parted at frontStill whole
  refine ⟨if parted then [' '] else [], ?_, ?_, ?_, backStill⟩
  · cases parted
    · exact .inl rfl
    · exact .inr rfl
  · rw [whole, List.append_assoc, List.append_assoc]
  · cases parted with
    | false => simpa using frontStill
    | true => exact .inl (by simp; decide)

theorem Placed.collapsed (placed : Placed t f m b) (full : ∃ c ∈ m, isBlank c = false)
    (last : ∀ c ∈ m.getLast?, isBlank c = false) (free : CommentFree (collapse t)) :
    ∃ f', Held (collapse t) f' (collapseMarks false false (flatMarks 0 m)) (collapseMarks false true (scan b)) := by
  obtain ⟨text, code, ⟨s, mode, marks⟩, front, back⟩ := placed
  have frontText : markText ((scan t).take f.length) = f := by
    rw [markText, List.map_take, ← markText, markText_scan, text, List.take_left]
  have run := calmRun_collapse f (m ++ b) false false (s := {}) (by simp)
  have calmed : (({} : ScanState).behind f (m ++ b)).calmed = ({} : ScanState).behind f (m ++ b) :=
    ScanState.NoComment.calmed (.inl code)
  rw [show ({} : ScanState).calmed = {} from rfl, ← scan, ← text, calmed] at run
  obtain ⟨space, small, parts, frontStill, backStill⟩ := collapseMarks_around s.depth
    ((scan t).take f.length) (s.marks b) full last (by rwa [frontText]) (by rwa [ScanState.markText_marks])
  have tail : collapseMarks false true (s.marks b) = collapseMarks false true (scan b) :=
    collapseMarks_kind false true (kind_marks mode b)
  rw [tail, collapse_flat] at parts backStill
  rw [collapse_flat] at frontStill
  refine ⟨_, ?_, free, ?_, frontStill, backStill⟩
  · rw [← parts, ← marks]
    rfl
  · rw [ScanState.calmRun_append, run]
    rcases small with rfl | rfl
    · exact code
    · rw [(ScanState.calm_plain code (by decide)).2.1]
      exact code

/-- Semicolons are cut off behind a part that ends in another character. -/
theorem Held.semicolons (held : Held t f m b) (middle : Middle m) (free : CommentFree (dropSemicolons t)) :
    Held (dropSemicolons t) f m (dropSemicolons b) := by
  obtain ⟨rfl, -, code, front, back⟩ := held
  obtain ⟨c, last, ink, other⟩ := middle.last
  have kept : dropSemicolons (f ++ (m ++ b)) = f ++ (m ++ dropSemicolons b) := by
    rw [← List.append_assoc, dropSemicolons, dropEndWhile_append, ← dropSemicolons, List.append_assoc]
    · intro d lastOf
      rw [getLast?_append_of_ne_nil middle.ne_nil, last, Option.mem_some_iff] at lastOf
      subst lastOf
      simp [ink, other]
    · simp [middle.ne_nil]
  refine ⟨kept, free, code, front, back.imp_right fun noWord => any_eq_false fun d first => ?_⟩
  obtain ⟨rest, parts⟩ : dropSemicolons b <+: b := ⟨_, dropEndWhile_append_takeWhile _ b⟩
  rw [← parts, List.head?_append, Option.mem_def.mp first, Option.some_or] at noWord
  exact noWord

theorem Held.stray_cases (held : Held t f m b) (middle : Middle m) (stray : StrayNull t i j) :
    j ≤ f.length ∨ (∃ k < m.length, i = f.length + k ∧ wordAt m k = "AND".toList) ∨ f.length + m.length ≤ i := by
  obtain ⟨rfl, -, -, front, back⟩ := held
  have full := middle.ne_nil
  have frontAll : Divided f (m ++ b) := (divided_append full).mpr front
  by_cases behind : f.length + m.length ≤ i
  · exact .inr (.inr behind)
  by_cases inside : f.length ≤ i
  · obtain ⟨k, rfl⟩ := Nat.exists_eq_add_of_le inside
    have word := stray.word
    rw [wordAt_right frontAll, wordAt_left back (by omega)] at word
    exact .inr (.inl ⟨k, by omega, rfl, word⟩)
  -- the second word cannot be the first of the part
  by_contra others
  have entered : f.length < j := by
    by_contra no
    exact others (.inl (by omega))
  obtain ⟨long, null, blank⟩ := stray.null
  have bound := stray.bound
  have conjunction := stray.word
  rw [wordAt_left frontAll (by omega)] at conjunction
  have three := length_wordAt f i
  rw [conjunction] at three
  have three : 3 ≤ f.length - i := by simpa using three
  rcases Nat.lt_trichotomy (j - 4) f.length with less | same | more
  · rw [wordAt_left frontAll less] at null
    have four := length_wordAt f (j - 4)
    rw [null] at four
    have four : 4 ≤ f.length - (j - 4) := by simpa using four
    omega
  · rw [same, ← Nat.add_zero f.length, wordAt_right frontAll, wordAt_left back (List.length_pos_iff.mpr full)] at null
    have rest : (f ++ (m ++ b)).drop j = m.drop 4 ++ b := by
      have short := length_wordAt m 0
      rw [null] at short
      have long : 4 ≤ m.length := by simpa using short
      rw [show j = f.length + 4 by omega, List.drop_length_add_append, List.drop_append_of_le_length long]
    have ends := stray.ends
    rw [rest] at ends
    exact middle.entered b null ends
  · obtain ⟨c, head, ink⟩ := middle.head
    have here : (slice (i + 3) (j - 4) (f ++ (m ++ b)))[f.length - (i + 3)]? = some c := by
      rw [slice_eq_take_drop, List.getElem?_take, if_pos (by omega), List.getElem?_drop,
        show i + 3 + (f.length - (i + 3)) = f.length by omega, List.getElem?_append_right (Nat.le_refl _), Nat.sub_self,
        ← List.head?_eq_getElem?, List.head?_append, head, Option.some_or]
    rw [blank c (List.mem_of_getElem? here)] at ink
    cases ink

theorem Held.code_behind (held : Held t f m b) (middle : Middle m) :
    (({} : ScanState).behind (f ++ m) b).mode = .code := by
  have free := held.free
  rw [held.text, ← List.append_assoc] at free
  rw [behind_calm free, ScanState.calmRun_append, (ScanState.calm_roles held.code middle.chars).2]
  exact held.code

theorem Held.free_behind (held : Held t f m b) (middle : Middle m) : CommentFree b := by
  have free := held.free
  rw [held.text, ← List.append_assoc, CommentFree, scan, ScanState.marks_append] at free
  have kinds := congrArg (List.map Prod.snd) (kind_scan (held.code_behind middle) b)
  simp only [List.map_map, Function.comp_def] at kinds
  intro n member comment
  have listed : n.kind ∈ (scan b).map Mark.kind := List.mem_map_of_mem member
  rw [← kinds, List.mem_map] at listed
  obtain ⟨n', inMarks, kind⟩ := listed
  exact free n' (List.mem_append_right _ inMarks) (kind.trans comment)

structure Short (u : Text) : Prop where
  collapsed : collapse u = u
  dropped : dropSemicolons u = u

theorem Short.cleanUp_eq (short : Short u) : cleanUp u = dropStrayNull u := by
  rw [cleanUp, short.collapsed, short.dropped]

theorem dropEndWhile_twice {α : Type} (p : α → Bool) (l : List α) :
    dropEndWhile p (dropEndWhile p l) = dropEndWhile p l := by
  have first := List.head?_dropWhile_not p l.reverse
  rw [dropEndWhile, dropEndWhile, List.reverse_reverse]
  cases rest : l.reverse.dropWhile p with
  | nil => rfl
  | cons a rest' =>
    rw [rest] at first
    rw [List.dropWhile_cons_of_neg (by simpa using first)]

theorem Short.of_collapse (collapsed : CommentFree (collapse b)) (shortened : CommentFree (dropSemicolons (collapse b))) :
    Short (dropSemicolons (collapse b)) := by
  have dropped : dropSemicolons (dropSemicolons (collapse b)) = dropSemicolons (collapse b) := dropEndWhile_twice _ _
  refine ⟨?_, dropped⟩
  have spaced : Spaced false (scan (collapse b)) := by
    apply spaced_of_weight false false
    rw [← collapse, collapse_collapse collapsed]
    simp
  have parts := dropEndWhile_append_takeWhile (fun c => c == ';' || isBlank c) (collapse b)
  rw [← dropSemicolons] at parts
  rw [collapsed.scan_calm, ← parts, ScanState.calmMarks_append, ← shortened.scan_calm] at spaced
  obtain ⟨back, small, whole⟩ := collapseMarks_of_spaced false false _ (by simp) spaced.left
  rw [← collapse, markText_scan, if_neg Bool.false_ne_true, List.nil_append] at whole
  rcases small with rfl | rfl
  · simpa using whole
  · have last : (dropSemicolons (collapse b)).getLast? = some ' ' := by rw [← whole]; simp
    have ink := (getLast?_of_dropSemicolons dropped ' ' last).2
    exact absurd ink (by decide)

/-- Behind a part that is kept the text is cleaned up as if it stood alone, but for a space in front. -/
theorem dropSemicolons_behind (b : Text) : ∃ space : Text, (space = [] ∨ space = [' ']) ∧
    dropSemicolons (collapseMarks false true (scan b)) = space ++ dropSemicolons (collapse b) := by
  by_cases ink : ∃ n ∈ scan b, n.isGap = false
  · have start := collapseMarks_start false true ink
    rw [← collapse] at start
    rw [start]
    split
    · by_cases empty : dropSemicolons (collapse b) = []
      · refine ⟨[], .inl rfl, ?_⟩
        rw [dropSemicolons, dropEndWhile, List.reverse_append, List.dropWhile_append]
        have nothing : ((collapse b).reverse.dropWhile fun c => c == ';' || isBlank c) = [] := by
          simpa [dropSemicolons, dropEndWhile] using empty
        rw [nothing, empty]
        rfl
      · refine ⟨[' '], .inr rfl, ?_⟩
        rw [dropSemicolons, dropEndWhile, List.reverse_append, List.dropWhile_append]
        have some_ : ((collapse b).reverse.dropWhile fun c => c == ';' || isBlank c) ≠ [] := by
          simpa [dropSemicolons, dropEndWhile] using empty
        rw [if_neg (by simpa using some_), List.reverse_append]
        rfl
    · exact ⟨[], .inl rfl, rfl⟩
  · have gaps : ∀ n ∈ scan b, n.isGap := by simpa using ink
    refine ⟨[], .inl rfl, ?_⟩
    rw [collapseMarks_of_gaps gaps, collapse, collapseMarks_of_gaps gaps]
    rfl

theorem Short.head (short : Short u) : ∀ c ∈ u.head?, isBlank c = false := by
  refine fun c first => head_of_spaced (spaced_of_weight false false _ ?_) c first
  rw [← collapse, short.collapsed]
  simp

theorem isBlank_of_space {space : Text} (small : space = [] ∨ space = [' ']) : ∀ c ∈ space, isBlank c := by
  rcases small with rfl | rfl <;> decide

theorem normalize_space {space : Text} (small : space = [] ∨ space = [' ']) (u : Text) :
    normalize (space ++ u) = normalize u := normalize_congr (collapse_blank (isBlank_of_space small) u)

theorem trimStart_blanks {blanks : Text} (blank : ∀ c ∈ blanks, isBlank c) (start : ∀ c ∈ u.head?, isBlank c = false) :
    trimStart (blanks ++ u) = u := by
  rw [trimStart, List.dropWhile_append_of_pos blank, ← trimStart, trimStart_of_head start]

theorem Placed.shorten (placed : Placed t f m b) (full : ∃ c ∈ m, isBlank c = false)
    (last : ∀ c ∈ m.getLast?, isBlank c = false) (middle : Middle (collapseMarks false false (flatMarks 0 m)))
    (collapsed : CommentFree (collapse t)) (shortened : CommentFree (dropSemicolons (collapse t))) :
    ∃ f' space u, (space = [] ∨ space = [' ']) ∧ Short u ∧ normalize u = normalize b ∧
      Held (dropSemicolons (collapse t)) f' (collapseMarks false false (flatMarks 0 m)) (space ++ u) := by
  obtain ⟨f', first⟩ := placed.collapsed full last collapsed
  have second := first.semicolons middle shortened
  obtain ⟨space, small, behind⟩ := dropSemicolons_behind b
  have freeSpace (space v : Text) (small : space = [] ∨ space = [' ']) (free : CommentFree (space ++ v)) :
    CommentFree v := by
    rcases small with rfl | rfl
    · exact free
    · rw [List.singleton_append, CommentFree, scan_space] at free
      exact fun n member => free n (List.mem_cons_of_mem _ member)
  have freeFirst : CommentFree (collapse b) := by
    have free := first.free_behind middle
    by_cases ink : ∃ n ∈ scan b, n.isGap = false
    · rw [collapseMarks_start false true ink] at free
      refine freeSpace (ite _ _ _) _ ?_ free
      split
      · exact .inr rfl
      · exact .inl rfl
    · have gaps : ∀ n ∈ scan b, n.isGap := by simpa using ink
      rw [collapse, collapseMarks_of_gaps gaps]
      simp [CommentFree, scan, ScanState.marks]
  rw [behind] at second
  have short := Short.of_collapse freeFirst (freeSpace space _ small (second.free_behind middle))
  refine ⟨f', space, _, small, short, ?_, second⟩
  rw [← normalize_cleanUp, short.cleanUp_eq, ← normalize_cleanUp b]
  rfl

theorem Held.front_stray (held : Held t f m b) (middle : Middle m) (stray : StrayNull t i j) (inFront : j ≤ f.length)
    (free : CommentFree (withoutStray t i j)) : ∃ f', Held (withoutStray t i j) f' m b := by
  have freeAll := held.free
  have codeFront := stray.strays.calm_front freeAll
  have plainWord := stray.spells.isPlain isKeyword_andNull
  have le := stray.le
  obtain ⟨text, -, code, front, back⟩ := held
  obtain ⟨c, head, ink⟩ := middle.head
  have notClosing : c ≠ ')' := by
    rintro rfl
    have role := middle.chars ')' (List.mem_of_head? head)
    revert role
    decide
  have takeFront : t.take i = f.take i := by rw [text, List.take_append_of_le_length (by omega)]
  have word : slice i j t = slice i j f := by rw [slice, slice, text, List.take_append_of_le_length inFront]
  have dropFront : t.drop j = f.drop j ++ (m ++ b) := by rw [text, List.drop_append_of_le_length inFront]
  rw [takeFront] at codeFront
  rw [word] at plainWord
  -- the blanks around the stray go with it
  have frontParts := dropEndWhile_append_takeWhile isBlank (f.take i)
  have restParts := List.takeWhile_append_dropWhile (p := isBlank) (l := f.drop j)
  rw [← trimEnd] at frontParts
  rw [← trimStart] at restParts
  have blankFront : ∀ c ∈ ((f.take i).reverse.takeWhile isBlank).reverse, isBlank c := fun c member =>
    List.mem_takeWhile_imp (List.mem_reverse.mp member)
  have blankRest : ∀ c ∈ (f.drop j).takeWhile isBlank, isBlank c := fun c member => List.mem_takeWhile_imp member
  have whole : f = f.take i ++ (slice i j f ++ f.drop j) := by
    rw [slice_append_drop le inFront, List.take_append_drop]
  have restHead := List.head?_dropWhile_not isBlank (f.drop j)
  have lastRest (full : trimStart (f.drop j) ≠ []) : (trimStart (f.drop j)).getLast? = f.getLast? := by
    conv_rhs => rw [whole, ← restParts, ← List.append_assoc, ← List.append_assoc, getLast?_append_of_ne_nil full]
  rw [← trimStart] at restHead
  generalize ((f.take i).reverse.takeWhile isBlank).reverse = before at frontParts blankFront
  generalize (f.drop j).takeWhile isBlank = behind at restParts blankRest
  have startRest : trimStart (t.drop j) = trimStart (f.drop j) ++ (m ++ b) := by
    rw [dropFront]
    by_cases empty : trimStart (f.drop j) = []
    · rw [empty, List.nil_append]
      rw [empty, List.append_nil] at restParts
      rw [← restParts]
      refine trimStart_blanks blankRest fun d first => ?_
      rw [List.head?_append, head, Option.some_or, Option.mem_some_iff] at first
      rwa [← first]
    · exact trimStart_append empty
  rw [withoutStray, takeFront, startRest]
  rw [withoutStray, takeFront, startRest] at free
  generalize trimEnd (f.take i) = first at frontParts free ⊢
  generalize trimStart (f.drop j) = rest at restParts free restHead lastRest ⊢
  have plainSpace : ∀ c ∈ spaceBefore (rest ++ (m ++ b)), isPlain c := by
    intro d member
    rw [spaceBefore] at member
    split at member
    · cases member
    · obtain rfl : d = ' ' := by simpa using member
      decide
  have codeFirst : (({} : ScanState).calmRun first).mode = .code := by
    rw [← frontParts, ScanState.calmRun_append] at codeFront
    have same : first ++ (before ++ (slice i j f ++ (f.drop j ++ (m ++ b)))) = t := by
      rw [← List.append_assoc, frontParts, text]
      conv_rhs => rw [whole]
      simp
    have freeWhole : CommentFree (first ++ (before ++ (slice i j f ++ (f.drop j ++ (m ++ b))))) := by rwa [same]
    exact code_of_plain_behind (quoting_front freeWhole)
      (fun c member => isPlain_of_isBlank c (blankFront c member)) codeFront
  refine ⟨first ++ spaceBefore (rest ++ (m ++ b)) ++ rest, by simp, free, ?_, ?_, back⟩
  · rw [whole, ← frontParts, ← restParts, ScanState.calmRun_append, ScanState.calmRun_append, ScanState.calmRun_append,
      ScanState.calmRun_append,
      (ScanState.calm_plain codeFirst fun c member => isPlain_of_isBlank c (blankFront c member)).2.1,
      (ScanState.calm_plain codeFirst plainWord).2.1,
      (ScanState.calm_plain codeFirst fun c member => isPlain_of_isBlank c (blankRest c member)).2.1] at code
    rw [ScanState.calmRun_append, ScanState.calmRun_append, (ScanState.calm_plain codeFirst plainSpace).2.1]
    exact code
  · cases rest with
    | nil =>
      left
      have space : spaceBefore ([] ++ (m ++ b)) = [' '] := by
        rw [List.nil_append, spaceBefore, if_neg]
        · rfl
        · obtain ⟨m', rfl⟩ := List.head?_eq_some_iff.mp head
          simpa using notClosing
      rw [space, List.append_nil, List.getLast?_concat]
      decide
    | cons d rest =>
      rw [Divided, getLast?_append_of_ne_nil (by simp), lastRest (by simp)]
      exact front

theorem Held.withoutStray_behind (held : Held t f m b) (middle : Middle m) (k l : Nat) :
    withoutStray t (f.length + m.length + k) (f.length + m.length + l) = f ++ (m ++ withoutStray b k l) := by
  obtain ⟨c, last, ink, -⟩ := middle.last
  rw [held.text, ← List.append_assoc, ← List.length_append, withoutStray, List.take_length_add_append,
    List.drop_length_add_append, trimEnd_append ?_ (by simp [middle.ne_nil]), withoutStray]
  · simp
  · intro d lastOf
    rw [getLast?_append_of_ne_nil middle.ne_nil, last, Option.mem_some_iff] at lastOf
    rwa [← lastOf]

theorem Held.strayNull_behind (held : Held t f m b) (middle : Middle m) {k l : Nat} :
    StrayNull t (f.length + m.length + k) (f.length + m.length + l) ↔ StrayNull b k l := by
  have code := held.code_behind middle
  have divided : Divided (f ++ m) b := (divided_append_left middle.ne_nil).mpr held.back
  rw [held.text, ← List.append_assoc, ← List.length_append]
  exact strayNull_append code divided

theorem strayNull_space {space : Text} (small : space = [] ∨ space = [' ']) {k l : Nat} :
    StrayNull (space ++ u) (space.length + k) (space.length + l) ↔ StrayNull u k l := by
  refine strayNull_append ?_ ?_
  · rcases small with rfl | rfl
    · rfl
    · rw [ScanState.behind_plain _ rfl _ _ (by decide)]
  · rcases small with rfl | rfl
    · exact .inl rfl
    · exact .inl (by decide)

theorem StrayNull.behind_space {space : Text} (small : space = [] ∨ space = [' ']) (stray : StrayNull (space ++ u) i j) :
    ∃ k l, i = space.length + k ∧ j = space.length + l := by
  rcases small with rfl | rfl
  · exact ⟨i, j, by simp, by simp⟩
  · have le := stray.le
    obtain ⟨n, rfl⟩ : ∃ n, i = n + 1 := by
      refine ⟨i - 1, Nat.eq_add_of_sub_eq (Nat.pos_of_ne_zero ?_) rfl⟩
      rintro rfl
      have word := stray.word
      rw [wordAt, List.drop_zero, List.singleton_append, List.takeWhile_cons_of_neg (by decide)] at word
      split at word <;> cases word
    exact ⟨n, j - 1, by simp; omega, by simp; omega⟩

theorem collapse_withoutStray {space : Text} (small : space = [] ∨ space = [' ']) (k l : Nat) :
    collapse (withoutStray (space ++ u) (space.length + k) (space.length + l)) = collapse (withoutStray u k l) := by
  rw [withoutStray, List.take_length_add_append, List.drop_length_add_append, withoutStray]
  have blank := isBlank_of_space small
  by_cases empty : trimEnd (u.take k) = []
  · have nothing : trimEnd (space ++ u.take k) = [] := by
      rw [trimEnd, dropEndWhile, List.reverse_eq_nil_iff, List.dropWhile_eq_nil_iff] at empty ⊢
      intro c member
      rw [List.reverse_append, List.mem_append, List.mem_reverse] at member
      rcases member with inFront | inSpace
      · exact empty c (List.mem_reverse.mpr inFront)
      · exact blank c (by simpa using inSpace)
    rw [nothing, empty]
  · have kept : trimEnd (space ++ u.take k) = space ++ trimEnd (u.take k) := by
      rw [trimEnd, dropEndWhile, List.reverse_append, List.dropWhile_append, if_neg, List.reverse_append,
        List.reverse_reverse, trimEnd, dropEndWhile]
      simpa [trimEnd, dropEndWhile] using empty
    rw [kept, List.append_assoc, List.append_assoc, collapse_blank blank, List.append_assoc]

/-- The first stray of the text, behind the part, is the first one of what stands there. -/
theorem Held.back_stray {space : Text} (small : space = [] ∨ space = [' ']) (short : Short u)
    (held : Held t f m (space ++ u)) (middle : Middle m) (stray : StrayNull t i j)
    (earlier : ∀ i' < i, ∀ j', ¬StrayNull t i' j') (behind : f.length + m.length ≤ i)
    (free : CommentFree (withoutStray t i j)) :
    ∃ b', Held (withoutStray t i j) f m b' ∧ normalize b' = normalize u := by
  have le := stray.le
  obtain ⟨i, rfl⟩ := Nat.exists_eq_add_of_le behind
  obtain ⟨j, rfl⟩ := Nat.exists_eq_add_of_le (behind.trans le)
  have strayBehind := (held.strayNull_behind middle).mp stray
  obtain ⟨k, l, rfl, rfl⟩ := strayBehind.behind_space small
  have inside := (strayNull_space small).mp strayBehind
  have first : dropStrayNull? u = some (withoutStray u k l) := by
    refine dropStrayNull?_eq_some_iff.mpr ⟨k, l, inside, fun k' less l' other => ?_, rfl⟩
    refine earlier (f.length + m.length + (space.length + k')) (by omega) (f.length + m.length + (space.length + l')) ?_
    exact (held.strayNull_behind middle).mpr ((strayNull_space small).mpr other)
  have cleaned : cleanUp u = withoutStray u k l := by rw [short.cleanUp_eq, dropStrayNull, first, Option.getD_some]
  rw [held.withoutStray_behind middle] at free ⊢
  refine ⟨_, ⟨rfl, free, held.code, held.front, held.back.imp_right fun noWord => ?_⟩, ?_⟩
  · rw [withoutStray, List.append_assoc]
    exact head?_around _ _ _ noWord
  · rw [normalize_congr (collapse_withoutStray small k l), ← cleaned, normalize_cleanUp]

end Steps
section Own

variable {x y t f u b space : Text} {j : Nat}

theorem spells_andNull : Spells ["AND", "NULL"] "AND NULL".toList :=
  @Spells.words "AND" "NULL" "AND" " " "NULL" [] rfl (by decide) (by decide) (.word rfl)

theorem Held.range_parts (held : Held t f (nullRange x y) b) :
    t = f ++ openRange x y ++ [' '] ++ ("AND NULL".toList ++ b) := by
  rw [held.text, nullRange_eq]
  simp

theorem length_nullRange (x y : Text) : (nullRange x y).length = (openRange x y).length + 9 := by
  rw [nullRange_eq, List.length_append]
  rfl

theorem Held.own_words (held : Held t f (nullRange x y) b) :
    f.length + (openRange x y).length + 1 ≤ t.length ∧
    f.length + (nullRange x y).length ≤ t.length ∧
    Spells ["AND", "NULL"] (slice (f.length + (openRange x y).length + 1) (f.length + (nullRange x y).length) t) ∧
    (t.take (f.length + (openRange x y).length + 1)).getLast?.any isWordChar = false ∧
    (t.drop (f.length + (nullRange x y).length)).head?.any isWordChar = false := by
  have start : f.length + (openRange x y).length + 1 = (f ++ openRange x y ++ [' ']).length := by
    simp [Nat.add_assoc]
  have stop : f.length + (nullRange x y).length = (f ++ openRange x y ++ [' ']).length + "AND NULL".toList.length := by
    rw [length_nullRange, ← start]
    rfl
  have noWord : b.head?.any isWordChar = false := by
    refine held.back.resolve_left fun noWord => ?_
    rw [nullRange_eq, getLast?_append_of_ne_nil (by simp)] at noWord
    revert noWord
    decide
  rw [start, stop, held.range_parts, slice_eq_take_drop, List.drop_left, Nat.add_sub_cancel_left, List.take_left,
    List.take_left, List.drop_length_add_append, List.drop_left, List.getLast?_concat]
  exact ⟨by simp, by simp; omega, spells_andNull, by decide, noWord⟩

theorem Held.own_end (held : Held t f (nullRange x y) b)
    (stray : StrayNull t (f.length + (openRange x y).length + 1) j) : j = f.length + (nullRange x y).length := by
  obtain ⟨inText, bound, spells, before, after⟩ := held.own_words
  have found := (keyword?_cursorAt_iff isKeyword_andNull inText).mpr
    ⟨_, by rw [length_nullRange]; omega, bound, spells, before, after, rfl⟩
  have same := congrArg Cursor.text (Option.some.inj (stray.found.symm.trans found))
  have length := congrArg List.length same
  have bound' := stray.bound
  simp only [text_cursorAt, List.length_drop] at length
  omega

theorem Held.own_stray (held : Held t f (nullRange x y) b) (middle : Middle (nullRange x y))
    (ends : endsCondition (trimStart b)) :
    StrayNull t (f.length + (openRange x y).length + 1) (f.length + (nullRange x y).length) := by
  obtain ⟨-, bound, spells, before, after⟩ := held.own_words
  refine ⟨by rw [length_nullRange]; omega, bound, ⟨⟨'A', (({} : ScanState).calmRun f).depth, .code⟩, ?_, rfl⟩, spells,
    before, after, ?_⟩
  · have lengthFront : (({} : ScanState).calmMarks f).length = f.length := by
      have chars := congrArg List.length (ScanState.markText_calmMarks {} f)
      simpa [markText] using chars
    rw [held.free.scan_calm, held.text, ScanState.calmMarks_append, ScanState.calmMarks_append, Nat.add_assoc,
      ← lengthFront, List.getElem?_append_right (Nat.le_add_right _ _), Nat.add_sub_cancel_left,
      (ScanState.calm_roles held.code middle.chars).1, ← flatMarks,
      List.getElem?_append_left (by rw [length_flatMarks, length_nullRange]; omega), flatMarks, List.getElem?_map,
      nullRange_eq, List.getElem?_append_right (Nat.le_add_right _ _), Nat.add_sub_cancel_left]
    rfl
  · rw [held.text, ← List.append_assoc, ← List.length_append, List.drop_left]
    exact ends

theorem Held.withoutStray_own (first : TameTested x) (second : TameBound y) (held : Held t f (nullRange x y) b) :
    withoutStray t (f.length + (openRange x y).length + 1) (f.length + (nullRange x y).length) =
      f ++ (openRange x y ++ (spaceBefore (trimStart b) ++ trimStart b)) := by
  have start : f.length + (openRange x y).length + 1 = (f ++ openRange x y ++ [' ']).length := by
    simp [Nat.add_assoc]
  obtain ⟨c, last, ink, -⟩ := (first.middle_openRange second).last
  have full := (first.middle_openRange second).ne_nil
  have behind : t.drop (f.length + (nullRange x y).length) = b := by
    rw [held.text, ← List.append_assoc, ← List.length_append, List.drop_left]
  rw [withoutStray, behind, start, held.range_parts, List.take_left, trimEnd_append ?_ (by simp [full])]
  · have none : trimEnd [' '] = [] := by decide
    rw [none]
    simp
  · intro d lastOf
    rw [getLast?_append_of_ne_nil full, last, Option.mem_some_iff] at lastOf
    rwa [← lastOf]

end Own
section Runs

variable {x y t f m b u space : Text}

theorem Held.placed (held : Held t f m b) (middle : Middle m) : Placed t f m b where
  text := held.text
  code := by
    have free := held.free
    rw [held.text] at free
    rw [behind_calm free]
    exact held.code
  marks := by
    refine ⟨({} : ScanState).behind (f ++ m) b, held.code_behind middle, ?_⟩
    have lengthFront : (({} : ScanState).calmMarks f).length = f.length := by
      have chars := congrArg List.length (ScanState.markText_calmMarks {} f)
      simpa [markText] using chars
    have free := held.free
    rw [held.text, ← List.append_assoc] at free
    have state : ({} : ScanState).behind (f ++ m) b = ({} : ScanState).calmRun f := by
      rw [behind_calm free, ScanState.calmRun_append, (ScanState.calm_roles held.code middle.chars).2]
    have marksBehind : (({} : ScanState).calmRun f).marks b = (({} : ScanState).calmRun f).calmMarks b := by
      refine (ScanState.marks_calm fun n member => ?_).1
      refine free n ?_
      rw [scan, ScanState.marks_append, state]
      exact List.mem_append_right _ member
    rw [state, marksBehind, held.free.scan_calm, held.text, ScanState.calmMarks_append, ScanState.calmMarks_append,
      (ScanState.calm_roles held.code middle.chars).1, (ScanState.calm_roles held.code middle.chars).2, ← flatMarks,
      List.take_left' lengthFront]
  front := held.front
  back := held.back

/-- What stands behind the part of a text in normal form is in normal form itself. -/
theorem Held.settled (small : space = [] ∨ space = [' ']) (short : Short u) (held : Held t f m (space ++ u))
    (middle : Middle m) (none : dropStrayNull? t = none) : trimStart (space ++ u) = normalize u := by
  have noStray : dropStrayNull? u = .none := by
    cases dropped : dropStrayNull? u with
    | none => rfl
    | some v =>
      obtain ⟨k, l, stray, -, -⟩ := dropStrayNull?_eq_some_iff.mp dropped
      have behind := (held.strayNull_behind middle).mpr ((strayNull_space small).mpr stray)
      exact absurd behind (dropStrayNull?_eq_none none _ _)
  have fixed : cleanUp u = u := by rw [short.cleanUp_eq, dropStrayNull, noStray, Option.getD_none]
  rw [trimStart_blanks (isBlank_of_space small) short.head, normalize, if_pos fixed]

/-- A part of a text is kept by all clean-ups but those that cut out a stray which starts in it. -/
theorem Placed.run {L : Text → Text → Prop} {m' : Text} (middle : Middle m')
    (own : ∀ (t f space u : Text) (k j : Nat), space = [] ∨ space = [' '] → Short u → Held t f m' (space ++ u) →
      wordAt m' k = "AND".toList → StrayNull t (f.length + k) j → Quiet (withoutStray t (f.length + k) j) →
      CommentFree (withoutStray t (f.length + k) j) → L (normalize (withoutStray t (f.length + k) j)) (normalize u))
    (quiet : Quiet t) (squeezed : collapseMarks false false (flatMarks 0 m) = m') (full : ∃ c ∈ m, isBlank c = false)
    (last : ∀ c ∈ m.getLast?, isBlank c = false) (placed : Placed t f m b) :
    (∃ f' b', Held (normalize t) f' m' b' ∧ trimStart b' = normalize b ∧ dropStrayNull? (normalize t) = none) ∨
      L (normalize t) (normalize b) := by
  induction quiet generalizing f m b with
  | @settled t fixed =>
    left
    have normal := isNormal_of_cleanUp fixed
    have free : CommentFree (dropSemicolons (collapse t)) := by
      rw [normal.collapsed, normal.noSemicolon]
      exact normal.commentFree
    have freeCollapsed : CommentFree (collapse t) := by
      rw [normal.collapsed]
      exact normal.commentFree
    obtain ⟨f', space, u, small, short, same, held⟩ := placed.shorten full last (by rwa [squeezed]) freeCollapsed free
    rw [normal.collapsed, normal.noSemicolon, squeezed] at held
    rw [normalize.eq_def t, if_pos fixed, ← same]
    exact ⟨f', _, held, held.settled small short middle normal.noStray, normal.noStray⟩
  | @step t collapsed shortened cleaned later ih =>
    obtain ⟨f', space, u, small, short, same, held⟩ := placed.shorten full last (by rwa [squeezed]) collapsed shortened
    rw [squeezed] at held
    have fullMiddle : ∃ c ∈ m', isBlank c = false := by
      obtain ⟨c, head, ink⟩ := middle.head
      exact ⟨c, List.mem_of_head? head, ink⟩
    have lastMiddle : ∀ c ∈ m'.getLast?, isBlank c = false := by
      obtain ⟨c, here, ink, -⟩ := middle.last
      intro d other
      obtain rfl : c = d := Option.some.inj (here.symm.trans other)
      exact ink
    have goOn {f₃ b₃ : Text} (next : Held (cleanUp t) f₃ m' b₃) (sameBehind : normalize b₃ = normalize u) :
        (∃ f' b', Held (normalize t) f' m' b' ∧ trimStart b' = normalize b ∧ dropStrayNull? (normalize t) = none) ∨
          L (normalize t) (normalize b) := by
      have outcome := ih (middle.collapsed 0) fullMiddle lastMiddle (next.placed middle)
      rwa [normalize_cleanUp, sameBehind, same] at outcome
    have unfolded : cleanUp t = dropStrayNull (dropSemicolons (collapse t)) := rfl
    cases dropped : dropStrayNull? (dropSemicolons (collapse t)) with
    | none =>
      rw [dropStrayNull, dropped, Option.getD_none] at unfolded
      exact goOn (by rwa [unfolded]) (normalize_space small u)
    | some v =>
      obtain ⟨i, j, stray, earlier, rfl⟩ := dropStrayNull?_eq_some_iff.mp dropped
      rw [dropStrayNull, dropped, Option.getD_some] at unfolded
      rw [unfolded] at cleaned later
      rcases held.stray_cases middle stray with inFront | ⟨k, -, rfl, word⟩ | behind
      · obtain ⟨f₃, next⟩ := held.front_stray middle stray inFront cleaned
        exact goOn (by rwa [unfolded]) (normalize_space small u)
      · right
        have lost := own _ f' space u k j small short held word stray later cleaned
        rwa [← unfolded, normalize_cleanUp, same] at lost
      · obtain ⟨b₃, next, sameBehind⟩ := Held.back_stray small short held middle stray earlier behind cleaned
        exact goOn (by rwa [unfolded]) sameBehind

theorem Placed.keeps_openRange (first : TameTested x) (second : TameBound y) (quiet : Quiet t)
    (placed : Placed t f (openRange x y) b) :
    ∃ f' b', Held (normalize t) f' (openRange x y) b' ∧ trimStart b' = normalize b := by
  have middle := first.middle_openRange second
  have outcome := Placed.run (L := fun _ _ => False) middle (fun t f space u k j _ _ _ word _ _ _ => by
    have between := word_openRange first.toTame second.toTame (w := "AND".toList) (by decide) word
    exact absurd between (by decide)) quiet (middle.collapsed 0) ?_ ?_ placed
  · obtain ⟨f', b', held, rest, -⟩ := outcome.resolve_right id
    exact ⟨f', b', held, rest⟩
  · obtain ⟨c, head, ink⟩ := middle.head
    exact ⟨c, List.mem_of_head? head, ink⟩
  · obtain ⟨c, last, ink, -⟩ := middle.last
    intro d other
    obtain rfl : c = d := Option.some.inj (last.symm.trans other)
    exact ink

/-- A range up to nothing keeps its upper bound, or loses it because no more of the condition follows. -/
theorem Placed.keeps_nullRange (tested : Tested x) (lower : LowerBound y) (quiet : Quiet t)
    (placed : Placed t f (nullRange x y) b) :
    endsCondition (normalize b) = false ∧ (∃ f' b',
      Held (normalize t) f' (nullRange (collapse x) (collapse y)) b' ∧ trimStart b' = normalize b) ∨
    endsCondition (normalize b) ∧ ∃ f' b',
      Held (normalize t) f' (openRange (collapse x) (collapse y)) b' ∧ trimStart b' = normalize b := by
  have first := tested.tame
  have second := lower.tame
  have middle := first.middle_nullRange second
  have squeezed : collapseMarks false false (flatMarks 0 (nullRange x y)) =
      nullRange (collapse x) (collapse y) := by
    rw [collapse_nullRange tested.full lower.full, tested.collapse_eq, lower.collapse_eq]
  have outcome := Placed.run (L := fun n c => endsCondition c ∧ ∃ f' b',
    Held n f' (openRange (collapse x) (collapse y)) b' ∧ trimStart b' = c) middle ?_ quiet squeezed ?_ ?_ placed
  · rcases outcome with ⟨f', b', held, rest, none⟩ | lost
    · left
      refine ⟨?_, f', b', held, rest⟩
      by_contra ends
      have stray := held.own_stray middle (by rw [rest]; simpa using ends)
      exact dropStrayNull?_eq_none none _ _ stray
    · exact .inr lost
  · intro t f space u k j small short held word stray quiet free
    obtain ⟨-, rfl⟩ := (word_nullRange first.toTame second.toTame (w := "AND".toList) (by decide) word).resolve_left
      (by decide)
    have behind := trimStart_blanks (isBlank_of_space small) short.head
    obtain rfl := held.own_end stray
    have ends : endsCondition u := by
      have ends := stray.ends
      rwa [held.text, ← List.append_assoc, ← List.length_append, List.drop_left, behind] at ends
    have cut := held.withoutStray_own first second
    rw [Nat.add_assoc, behind] at cut
    rw [cut] at quiet free ⊢
    have next : Held (f ++ (openRange (collapse x) (collapse y) ++ (spaceBefore u ++ u))) f
        (openRange (collapse x) (collapse y)) (spaceBefore u ++ u) := by
      refine ⟨rfl, free, held.code, ?_, .inr (head?_spaceBefore u)⟩
      have front := held.front
      rw [nullRange_eq, divided_append (first.middle_openRange second).ne_nil] at front
      exact front
    have endsNormal := endsCondition_normalize (t := u) (by rwa [trimStart_of_ends ends])
    obtain ⟨f', b', kept, rest⟩ := (next.placed (first.middle_openRange second)).keeps_openRange first second quiet
    have sameBehind : normalize (spaceBefore u ++ u) = normalize u := by
      refine normalize_space ?_ u
      rw [spaceBefore]
      split
      · exact .inl rfl
      · exact .inr rfl
    exact ⟨endsNormal, f', b', kept, by rw [rest, sameBehind]⟩
  · obtain ⟨c, member, ink⟩ := tested.full
    exact ⟨c, by simp [nullRange, member], ink⟩
  · intro c last
    rw [nullRange_eq, getLast?_append_of_ne_nil (by simp)] at last
    obtain rfl : 'L' = c := by simpa using last
    decide

end Runs
end QueryChain
