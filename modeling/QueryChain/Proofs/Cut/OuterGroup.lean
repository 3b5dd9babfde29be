import QueryChain.Proofs.Scan.Grammar
import QueryChain.Proofs.Scan.Letters
import QueryChain.Proofs.Cut.TopCut

namespace QueryChain

/-- The marks at two places are the parentheses of one group: all that stands between them is inside it. -/
def Matched (ms : Marks) (i j : Nat) : Prop :=
  ∃ depth, i < j ∧ ms[i]? = some ⟨'(', depth, .code⟩ ∧ ms[j]? = some ⟨')', depth, .code⟩ ∧
    ∀ k m, i < k → k < j → ms[k]? = some m → depth < m.depth

section Depth

variable {s : ScanState} {c : Char} {t u : Text}

/-- A character closes the group it stands in, or stands in it and leaves it open. -/
theorem mark_depth (s : ScanState) (c : Char) (t : Text) :
    s.mark c t = ⟨')', s.depth - 1, .code⟩ ∧ s.mode = .code ∧ (s.next c t).depth = s.depth - 1 ∨
    (s.mark c t).depth = s.depth ∧ s.depth ≤ (s.next c t).depth := by
  obtain ⟨mode, depth⟩ := s
  cases mode with
  | code =>
    cases role : Role.of c t with
    | closing =>
      obtain rfl := char_of_closing role
      simp [ScanState.mark, ScanState.next, role]
    | lineComment | blockComment | quote | opening | plain => simp [ScanState.mark, ScanState.next, role]
  | quote q escaped =>
    refine .inr ⟨rfl, ?_⟩
    cases escaped with
    | true => exact le_rfl
    | false =>
      simp only [ScanState.next]
      split_ifs <;> exact le_rfl
  | lineComment =>
    refine .inr ⟨rfl, ?_⟩
    simp only [ScanState.next]
    split_ifs <;> exact le_rfl
  | opener => exact .inr ⟨rfl, le_rfl⟩
  | blockComment star =>
    refine .inr ⟨rfl, ?_⟩
    simp only [ScanState.next]
    split_ifs <;> exact le_rfl

/-- A text that leaves no group open closes the outermost one at its end, if not before. -/
theorem exists_closed (deep : 0 < s.depth) (free : FaultFree s t)
    (stays : ∀ m ∈ (s.marks t).dropLast, m.isTopOf ')' = false) :
    ∃ inside, s.marks t = inside ++ [⟨')', 0, .code⟩] ∧ ∀ m ∈ inside, 0 < m.depth := by
  induction t generalizing s with
  | nil => exact absurd free.2 (by omega)
  | cons c t ih =>
    have later := free.2.2
    cases t with
    | nil =>
      have shut : (s.next c []).depth = 0 := later.2
      rcases mark_depth s c [] with ⟨closes, -, behind⟩ | ⟨-, behind⟩
      · refine ⟨[], ?_, by simp⟩
        rw [ScanState.marks, closes, ← behind, shut]
        rfl
      · omega
    | cons d t =>
      have marks : s.marks (c :: d :: t) = s.mark c (d :: t) :: (s.next c (d :: t)).marks (d :: t) := rfl
      rw [marks, List.dropLast_cons_of_ne_nil (by simp [ScanState.marks])] at stays
      -- a character in front of others closes no group at the top
      have here : 0 < (s.mark c (d :: t)).depth ∧ 0 < (s.next c (d :: t)).depth := by
        rcases mark_depth s c (d :: t) with ⟨closes, -, behind⟩ | ⟨same, behind⟩
        · have first := stays (s.mark c (d :: t)) (by simp)
          rw [closes] at first ⊢
          have more : s.depth - 1 ≠ 0 := fun none => by simp [Mark.isTopOf, Mark.isTop, Mark.isCode, none] at first
          exact ⟨Nat.pos_of_ne_zero more, by omega⟩
        · omega
      obtain ⟨inside, rest, inner⟩ := ih here.2 later fun m member => stays m (List.mem_cons_of_mem _ member)
      refine ⟨s.mark c (d :: t) :: inside, by rw [marks, rest]; rfl, ?_⟩
      rintro m (_ | ⟨_, member⟩)
      · exact here.1
      · exact inner m member

theorem opensExecutable_append (opens : opensExecutable c t) (u : Text) : opensExecutable c (t ++ u) := by
  rcases t with _ | ⟨d, _ | ⟨e, t⟩⟩
  · simp [opensExecutable, opensBlockComment] at opens
  · simp [opensExecutable] at opens
  · exact opens

theorem FaultFree.interior (free : FaultFree s.inner (t ++ [')']))
    (deep : ∀ m ∈ (s.inner.marks (t ++ [')'])).take t.length, 0 < m.depth) : FaultFree s t := by
  induction t generalizing s with
  | nil =>
    have shut : (s.inner.next ')' []).depth = 0 := free.2.2.2
    have depth : s.inner.depth = s.depth + 1 := rfl
    rcases mark_depth s.inner ')' [] with ⟨-, code, behind⟩ | ⟨-, behind⟩
    · exact ⟨.inl code, by omega⟩
    · omega
  | cons c t ih =>
    obtain ⟨-, noHint, later⟩ := free
    simp only [List.cons_append, ScanState.marks, List.length_cons, List.take_succ_cons] at deep
    have here := deep _ (List.mem_cons_self ..)
    have loose : Loose [')'] := loose_cons (by decide) (by decide) []
    -- a group that ends here was opened inside
    have opened : (s.mark c (t ++ [')'])).isCode → c = ')' → s.depth ≠ 0 := by
      rintro isCode rfl shallow
      have code := ScanState.mode_of_code _ _ _ (by decide) isCode
      simp [ScanState.mark, ScanState.inner, code, role_closing, shallow] at here
    have hint : s.mode = .code → ¬opensExecutable c t := fun code opens =>
      noHint code (opensExecutable_append opens _)
    obtain ⟨-, next⟩ := ScanState.mark_inner opened
    rcases step_ended loose s (c := c) (t := t) with ⟨mark, same⟩ | ⟨code, rfl, rfl⟩
    · rw [mark] at opened
      rw [List.append_eq, next, same] at later
      rw [next, same] at deep
      exact ⟨opened, hint, ih later fun m member => deep m (List.mem_cons_of_mem _ member)⟩
    · -- behind two dashes that open no comment in front of a parenthesis, the text ends
      obtain ⟨mode, depth⟩ := s
      obtain rfl : mode = .code := code
      have first : Role.of '-' ['-', ')'] = .plain := by decide
      have second : Role.of '-' [')'] = .plain := by decide
      have comment : Role.of '-' ['-'] = .lineComment := by decide
      have shallow : depth = 0 := by
        simpa [FaultFree, ScanState.inner, ScanState.next, first, second, role_closing] using later.2.2.2.2.2
      simp [FaultFree, ScanState.mark, ScanState.next, comment, shallow, Mark.isCode, opensExecutable, opensBlockComment]

theorem faultFree_blank (proper : s.Proper) (blank : ∀ c ∈ u, isBlank c) (free : FaultFree s u) : FaultFree s [] := by
  induction u generalizing s with
  | nil => exact free
  | cons c u ih =>
    have here : isBlank c := blank c (by simp)
    have last := ih (proper.next c u) (fun d member => blank d (by simp [member])) free.2.2
    obtain ⟨mode, depth⟩ := s
    cases mode with
    | code => rwa [ScanState.next_plain _ rfl c u (isPlain_of_isBlank c here)] at last
    | quote q escaped =>
      have other : c ≠ q := by
        rintro rfl
        have quote := proper c escaped rfl
        have plain := isPlain_of_isBlank c here
        simp [isPlain, quote] at plain
      cases escaped with
      | true => simp [FaultFree, ScanState.next] at last
      | false =>
        simp only [ScanState.next, if_neg other] at last
        split_ifs at last <;> simp [FaultFree] at last
    | lineComment =>
      refine ⟨.inr rfl, ?_⟩
      have depth := last.2
      simp only [ScanState.next] at depth
      split_ifs at depth <;> exact depth
    | opener => simp [FaultFree, ScanState.next] at last
    | blockComment star =>
      have other : c ≠ '/' := by
        rintro rfl
        exact absurd here (by decide)
      simp [FaultFree, ScanState.next, other] at last

theorem FaultFree.of_append_blank (proper : s.Proper) (blank : ∀ c ∈ u, isBlank c)
    (free : FaultFree s (t ++ u)) : FaultFree s t := by
  induction t generalizing s with
  | nil => exact faultFree_blank proper blank free
  | cons c t ih =>
    obtain ⟨opened, noHint, later⟩ := free
    have parted : u.head?.all isBlank := by
      cases u with
      | nil => rfl
      | cons c u => simpa using blank c (by simp)
    obtain ⟨mark, next⟩ := mark_of_role (s := s) (role_parted (c := c) (t := t) (u := u) (.inr parted))
    rw [List.append_eq, mark] at opened
    rw [List.append_eq, next] at later
    exact ⟨opened, fun code opens => noHint code (opensExecutable_append opens u), ih (proper.next c t) later⟩

theorem balanced_trim (balanced : Balanced t) : Balanced (trim t) := by
  rw [balanced_iff_faultFree] at balanced ⊢
  obtain ⟨front, back, parts, blankFront, blankBack⟩ := trim_spec t
  have proper : ({} : ScanState).Proper := fun _ _ mode => nomatch mode
  have inFront (front : Text) (blank : ∀ c ∈ front, isBlank c) (free : FaultFree {} (front ++ (trim t ++ back))) :
      FaultFree {} (trim t ++ back) := by
    induction front with
    | nil => exact free
    | cons c front ih =>
      have plain := isPlain_of_isBlank c (blank c (by simp))
      have later := free.2.2
      rw [ScanState.next_plain {} rfl c _ plain] at later
      exact ih (fun d member => blank d (by simp [member])) later
  rw [parts, List.append_assoc] at balanced
  exact (inFront front blankFront balanced).of_append_blank proper blankBack

end Depth
section Between

variable {p q : Mark → Bool} {ms ns f b : Marks} {ts pieces : List Text}

def Mark.cutBy (p : Mark → Bool) (m : Mark) : Char × Bool := (m.char, p m)

theorem whole_of_cutBy (same : ms.map (Mark.cutBy p) = ns.map (Mark.cutBy q)) (whole : ∀ m ∈ ms, p m = false) :
    markText ms = markText ns ∧ ∀ n ∈ ns, q n = false := by
  have text := congrArg (List.map Prod.fst) same
  have flags := congrArg (List.map Prod.snd) same
  rw [List.map_map, List.map_map] at text flags
  refine ⟨text, fun n member => ?_⟩
  have inFlags : q n ∈ ms.map (Prod.snd ∘ Mark.cutBy p) := by
    rw [flags]
    exact List.mem_map_of_mem member
  obtain ⟨m, inFirst, eq⟩ := List.mem_map.mp inFlags
  exact eq.symm.trans (whole m inFirst)

theorem Between.of_cutBy (between : Between p ms ts) (same : ms.map (Mark.cutBy p) = ns.map (Mark.cutBy q)) :
    Between q ns ts := by
  induction between generalizing ns with
  | last whole =>
    obtain ⟨text, whole'⟩ := whole_of_cutBy same whole
    rw [text]
    exact .last whole'
  | cut whole cuts later ih =>
    rw [List.map_append, List.map_cons] at same
    obtain ⟨as, bs, rfl, first, tail⟩ := List.map_eq_append_iff.mp same.symm
    obtain ⟨n, ns, rfl, eq, behind⟩ := List.map_eq_cons_iff.mp tail
    obtain ⟨text, whole'⟩ := whole_of_cutBy first.symm whole
    rw [text]
    exact .cut whole' ((congrArg Prod.snd eq).trans cuts) (ih behind.symm)

theorem CutInto.of_cutBy (cut : CutInto p ms pieces) (same : ms.map (Mark.cutBy p) = ns.map (Mark.cutBy q)) :
    CutInto q ns pieces := by
  obtain ⟨parts, between, kept⟩ := cut
  exact ⟨parts, between.of_cutBy same, kept⟩

theorem trim_around {f t b : Text} (blankFront : ∀ c ∈ f, isBlank c) (blankBack : ∀ c ∈ b, isBlank c) :
    trim (f ++ t ++ b) = trim t := by
  obtain ⟨f', b', parts, blankFront', blankBack'⟩ := trim_spec t
  have outer : f ++ t ++ b = f ++ f' ++ trim t ++ (b' ++ b) := by
    conv_lhs => rw [parts]
    simp
  rw [outer]
  refine trim_pad (fun c member => ?_) (fun c member => ?_) (trim_trim t)
  · exact (List.mem_append.mp member).elim (blankFront c) (blankFront' c)
  · exact (List.mem_append.mp member).elim (blankBack' c) (blankBack c)

theorem Between.pad (between : Between p ms ts) (wholeFront : ∀ m ∈ f, p m = false)
    (wholeBack : ∀ m ∈ b, p m = false) (blankFront : ∀ c ∈ markText f, isBlank c)
    (blankBack : ∀ c ∈ markText b, isBlank c) :
    ∃ us, Between p (f ++ ms ++ b) us ∧ us.map trim = ts.map trim := by
  induction between generalizing f with
  | @last ms whole =>
    refine ⟨_, .last ?_, ?_⟩
    · simpa [or_imp, forall_and] using ⟨wholeFront, whole, wholeBack⟩
    · rw [List.map_singleton, List.map_singleton, markText_append, markText_append, trim_around blankFront blankBack]
  | @cut ms rest m ts whole cuts later ih =>
    obtain ⟨us, behind, trimmed⟩ := ih (f := []) (by simp) (by simp [markText])
    have parts : f ++ (ms ++ m :: rest) ++ b = (f ++ ms) ++ m :: ([] ++ rest ++ b) := by simp
    refine ⟨markText (f ++ ms) :: us, ?_, ?_⟩
    · rw [parts]
      exact .cut (by simpa [or_imp, forall_and] using ⟨wholeFront, whole⟩) cuts behind
    · have first := trim_around (t := markText ms) (b := []) blankFront (by simp)
      rw [List.append_nil] at first
      rw [List.map_cons, List.map_cons, markText_append, first, trimmed]

theorem cutInto_of_trim {d : Char} {t : Text} (visible : isBlank d = false)
    (cut : CutInto (·.isTopOf d) (scan (trim t)) pieces) : CutInto (·.isTopOf d) (scan t) pieces := by
  obtain ⟨parts, between, rfl⟩ := cut
  obtain ⟨f, b, text, blankFront, blankBack⟩ := trim_spec t
  have marks := pad_marks blankFront blankBack (trim t)
  rw [← text] at marks
  have textFront : markText (f.map (⟨·, 0, .code⟩)) = f := by simp [markText, Function.comp_def]
  have none {ms : Marks} (blank : ∀ c ∈ markText ms, isBlank c) : ∀ m ∈ ms, m.isTopOf d = false := by
    intro m member
    have other : m.char ≠ d := by
      rintro rfl
      exact absurd (blank _ (List.mem_map_of_mem member)) (by simp [visible])
    simp [Mark.isTopOf, other]
  rw [← textFront] at blankFront
  rw [← ScanState.markText_marks (({} : ScanState).run (trim t)) b] at blankBack
  obtain ⟨us, around, trimmed⟩ := between.pad (none blankFront) (none blankBack) blankFront blankBack
  rw [← marks] at around
  exact ⟨us, around, by rw [trimmed]⟩

end Between
section Group

variable {s : ScanState} {t u : Text} {inside : Marks}

theorem marks_inner (free : FaultFree s t) : s.inner.marks t = (s.marks t).map Mark.inner := by
  induction t generalizing s with
  | nil => rfl
  | cons c t ih =>
    obtain ⟨opened, -, later⟩ := free
    obtain ⟨mark, next⟩ := ScanState.mark_inner opened
    rw [ScanState.marks, ScanState.marks, mark, next, ih later]
    rfl

structure OneGroup (t : Text) (inside : Marks) : Prop where
  balanced : Balanced t
  marks : scan t = ⟨'(', 0, .code⟩ :: inside ++ [⟨')', 0, .code⟩]
  deep : ∀ m ∈ inside, 0 < m.depth

theorem OneGroup.text (group : OneGroup t inside) : t = '(' :: (markText inside ++ [')']) := by
  rw [← markText_scan t, group.marks, markText_append]
  rfl

theorem scan_opening (t : Text) : scan ('(' :: t) = ⟨'(', 0, .code⟩ :: ({} : ScanState).inner.marks t := by
  simp [scan, ScanState.marks, ScanState.mark, ScanState.next, role_opening, ScanState.inner]

theorem OneGroup.inner_marks (group : OneGroup t inside) :
    ({} : ScanState).inner.marks (markText inside ++ [')']) = inside ++ [⟨')', 0, .code⟩] := by
  have marks := group.marks
  rw [group.text, scan_opening, List.cons_append] at marks
  exact (List.cons.inj marks).2

theorem OneGroup.interior (group : OneGroup t inside) : Balanced (markText inside) := by
  have balanced := group.balanced
  rw [group.text, balanced_iff_faultFree] at balanced
  have free : FaultFree ({} : ScanState).inner (markText inside ++ [')']) := faultFree_startGroup.mp balanced
  rw [balanced_iff_faultFree]
  refine free.interior fun m member => group.deep m ?_
  rw [group.inner_marks, List.take_left' (by simp [markText])] at member
  exact member

/-- What stands in the group is read by itself as it is there, but for two dashes at its end. -/
theorem OneGroup.view {β : Type} {f : Mark → β} (group : OneGroup t inside)
    (blind : ∀ d k k', f ⟨'-', d, k⟩ = f ⟨'-', d, k'⟩) :
    (scan (markText inside)).map (f ∘ Mark.inner) = inside.map f := by
  have loose : Loose [')'] := loose_cons (by decide) (by decide) []
  have free := (balanced_iff_faultFree _).mp group.interior
  have ended := view_ended (t := markText inside) blind loose ({} : ScanState).inner
  rw [group.inner_marks, List.take_left' (by simp [markText]), marks_inner free, List.map_map] at ended
  exact ended

theorem exists_oneGroup (balanced : Balanced t) (first : t.head? = some '(')
    (stays : ∀ m ∈ (scan t).dropLast, m.isTopOf ')' = false) : ∃ inside, OneGroup t inside := by
  obtain ⟨rest, rfl⟩ := List.head?_eq_some_iff.mp first
  have free : FaultFree ({} : ScanState).inner rest :=
    faultFree_startGroup.mp ((balanced_iff_faultFree _).mp balanced)
  have behind : ∀ m ∈ (({} : ScanState).inner.marks rest).dropLast, m.isTopOf ')' = false := by
    intro m member
    refine stays m ?_
    rw [scan_opening, List.dropLast_cons_of_ne_nil (by rintro none; simp [none] at member)]
    exact List.mem_cons_of_mem _ member
  obtain ⟨inside, marks, deep⟩ := exists_closed (by decide) free behind
  exact ⟨inside, balanced, by rw [scan_opening, marks]; rfl, deep⟩

theorem OneGroup.stays (group : OneGroup t inside) : ∀ m ∈ (scan t).dropLast, m.isTopOf ')' = false := by
  rw [group.marks, List.dropLast_concat]
  rintro m (_ | ⟨_, member⟩)
  · decide
  · have deep := group.deep m member
    simp [Mark.isTopOf, Mark.isTop, Nat.ne_of_gt deep]

theorem OneGroup.getLast? (group : OneGroup t inside) : t.getLast? = some ')' := by
  rw [group.text, ← List.cons_append]
  exact List.getLast?_concat

theorem isGroup_iff : isGroup t ↔ ∃ inside, OneGroup (trim t) inside := by
  have unfolded : isGroup t ↔ (trim t).head? = some '(' ∧ (trim t).getLast? = some ')' ∧
      (∀ m ∈ (scan (trim t)).dropLast, m.isTopOf ')' = false) ∧ Balanced (trim t) := by
    simp [isGroup, Balanced, and_assoc]
  rw [unfolded]
  constructor
  · rintro ⟨first, -, stays, balanced⟩
    exact exists_oneGroup balanced first stays
  · rintro ⟨inside, group⟩
    exact ⟨by rw [group.text]; rfl, group.getLast?, group.stays, group.balanced⟩

theorem OneGroup.matched (group : OneGroup t inside) : Matched (scan t) 0 (t.length - 1) := by
  have length : t.length - 1 = inside.length + 1 := by
    rw [← ScanState.length_marks {} t, ← scan, group.marks]
    simp
  rw [length, group.marks]
  refine ⟨0, by omega, rfl, by simp, fun k m start stop found => ?_⟩
  obtain ⟨k, rfl⟩ := Nat.exists_eq_add_of_lt start
  rw [Nat.zero_add, List.cons_append, List.getElem?_cons_succ, List.getElem?_append_left (by omega)] at found
  exact group.deep m (List.mem_of_getElem? found)

theorem exists_oneGroup_of_matched (balanced : Balanced t) (matched : Matched (scan t) 0 (t.length - 1)) :
    ∃ inside, OneGroup t inside := by
  obtain ⟨depth, -, first, -, between⟩ := matched
  refine exists_oneGroup balanced ?_ fun m member => ?_
  · have char := congrArg (Option.map Mark.char) first
    rw [← List.getElem?_map, ← List.head?_eq_getElem?] at char
    exact (congrArg List.head? (markText_scan t)).symm.trans char
  · obtain ⟨k, found⟩ := List.mem_iff_getElem?.mp member
    rw [List.getElem?_dropLast] at found
    split_ifs at found with inside
    rw [scan, ScanState.length_marks] at inside
    by_cases start : k = 0
    · obtain rfl := Option.some.inj (first.symm.trans (start ▸ found))
      simp [Mark.isTopOf]
    · have deep := between k m (by omega) inside found
      simp [Mark.isTopOf, Mark.isTop, Nat.ne_of_gt (Nat.zero_lt_of_lt deep)]

theorem OneGroup.groupBody (group : OneGroup (trim t) inside) : groupBody t = trim (markText inside) := by
  have isGroup : isGroup (trim t) := isGroup_iff.mpr ⟨inside, by rwa [trim_trim]⟩
  rw [QueryChain.groupBody, if_pos isGroup, group.text]
  simp

theorem OneGroup.placeholders (group : OneGroup t inside) : placeholders (markText inside) = placeholders t := by
  have seen : (scan (markText inside)).map Mark.seen = inside.map Mark.seen :=
    group.view (f := Mark.seen) fun d k k' => by simp [Mark.seen, Mark.isPlaceholder]
  have count := (numberMarks_of_seen seen 0).2
  rw [QueryChain.placeholders, QueryChain.placeholders, count, group.marks]
  simp [Mark.isPlaceholder]

theorem OneGroup.cutInto (group : OneGroup t inside) :
    CutInto (fun m => m.isCode && m.depth == 1 && m.char == ',') inside (splitTop ',' (trim (markText inside))) := by
  have pieces := cutInto_of_trim (d := ',') (by decide) (cutInto_splitOnP (·.isTopOf ',') (scan (trim (markText inside))))
  refine pieces.of_cutBy ?_
  have view := group.view (f := Mark.cutBy fun m => m.isCode && m.depth == 1 && m.char == ',')
    fun d k k' => by simp [Mark.cutBy]
  rw [← view]
  refine List.map_congr_left fun m _ => ?_
  simp [Mark.cutBy, Mark.inner, Mark.isTopOf, Mark.isTop, Mark.isCode, Bool.and_comm]

/-- Outer parentheses are those of one group that the whole text is. -/
theorem isGroup_iff_matched (t : Text) :
    (isGroup t ↔ Balanced (trim t) ∧ Matched (scan (trim t)) 0 ((trim t).length - 1)) ∧
    (isGroup t → Balanced (groupBody t) ∧ placeholders (groupBody t) = placeholders t ∧
      ∃ inside, scan (trim t) = ⟨'(', 0, .code⟩ :: inside ++ [⟨')', 0, .code⟩] ∧ groupBody t = trim (markText inside) ∧
        CutInto (fun m => m.isCode && m.depth == 1 && m.char == ',') inside (valueList t)) := by
  refine ⟨⟨fun isGroup => ?_, fun ⟨balanced, matched⟩ => ?_⟩, fun isGroup => ?_⟩
  · obtain ⟨inside, group⟩ := isGroup_iff.mp isGroup
    exact ⟨group.balanced, group.matched⟩
  · exact isGroup_iff.mpr (exists_oneGroup_of_matched balanced matched)
  · obtain ⟨inside, group⟩ := isGroup_iff.mp isGroup
    have body := group.groupBody
    refine ⟨?_, ?_, inside, group.marks, body, ?_⟩
    · rw [body]
      exact balanced_trim group.interior
    · rw [body, placeholders_trim, group.placeholders, placeholders_trim]
    · rw [valueList, body]
      exact group.cutInto

def nestedGroup : Text := " (f(a, ?), ')', b /* , ) */ -- x\n) "

theorem isGroup_iff_matched_nested :
    isGroup nestedGroup ∧ Balanced (groupBody nestedGroup) ∧ placeholders (groupBody nestedGroup) = 1 ∧
    valueList nestedGroup = ["f(a, ?)", "')'", "b /* , ) */ -- x"] ∧
    ¬isGroup "(a) OR (b)" ∧ ¬(Balanced (trim "(a) OR (b)") ∧ Matched (scan (trim "(a) OR (b)")) 0 9) := by
  have group : isGroup nestedGroup := by decide +kernel
  have none : ¬isGroup "(a) OR (b)" := by decide +kernel
  obtain ⟨balanced, count, -⟩ := (isGroup_iff_matched nestedGroup).2 group
  exact ⟨group, balanced, count.trans (by decide +kernel), by decide +kernel, none,
    mt (isGroup_iff_matched "(a) OR (b)").1.mpr none⟩

end Group
end QueryChain
