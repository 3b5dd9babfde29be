import QueryChain.Proofs.Naming.Structure

namespace QueryChain

section Ended

variable {s : ScanState} {c : Char} {t u : Text}

theorem loose_of_plain (ends : ∀ d ∈ u.head?, isPlain d ∧ d ≠ '*') : Loose u := by
  intro d first
  refine ⟨?_, (ends d first).2⟩
  rintro rfl
  exact absurd (ends '-' first).1 (by decide)

theorem role_ended (loose : Loose u) : Role.of c (t ++ u) = Role.of c t ∨ c = '-' ∧ t = ['-'] := by
  have noDash : u.head? ≠ some '-' := fun dash => (loose '-' dash).1 rfl
  have noStar : u.head? ≠ some '*' := fun star => (loose '*' star).2 rfl
  have same (line : opensLineComment c (t ++ u) = opensLineComment c t)
      (block : opensBlockComment c (t ++ u) = opensBlockComment c t) : Role.of c (t ++ u) = Role.of c t := by
    rw [Role.of, Role.of, line, block]
  rcases t with _ | ⟨d, _ | ⟨e, t⟩⟩
  · refine .inl (same ?_ ?_)
    · simp [opensLineComment_eq, noDash]
    · simp [opensBlockComment, noStar]
  · by_cases dashes : c = '-' ∧ d = '-'
    · exact .inr ⟨dashes.1, by rw [dashes.2]⟩
    · have open_ : (c == '-' && d == '-') = false := by simpa using dashes
      exact .inl (same (by simp [opensLineComment_eq, open_]) rfl)
  · exact .inl (same (by simp [opensLineComment_eq]) rfl)

theorem step_ended (loose : Loose u) (s : ScanState) :
    s.mark c (t ++ u) = s.mark c t ∧ s.next c (t ++ u) = s.next c t ∨ s.mode = .code ∧ c = '-' ∧ t = ['-'] := by
  by_cases code : s.mode = .code
  · exact (role_ended loose).imp mark_of_role fun dashes => ⟨code, dashes⟩
  · exact .inl (s.rest_indifferent code c _ _)

theorem mark_dash (code : s.mode = .code ∨ s.mode = .lineComment) (t : Text) :
    (∃ k, s.mark '-' t = ⟨'-', s.depth, k⟩) ∧ (s.next '-' t).depth = s.depth ∧
      ((s.next '-' t).mode = .code ∨ (s.next '-' t).mode = .lineComment) := by
  rcases code with code | line
  · rw [ScanState.mark, ScanState.next, code]
    have role : Role.of '-' t = .plain ∨ Role.of '-' t = .lineComment := by
      rw [Role.of]
      by_cases opens : opensLineComment '-' t
      · exact .inr (if_pos opens)
      · exact .inl (by simp [opens, opensBlockComment, isQuote])
    rcases role with plain | line
    · rw [plain]
      exact ⟨⟨_, rfl⟩, rfl, .inl code⟩
    · rw [line]
      exact ⟨⟨_, rfl⟩, rfl, .inr rfl⟩
  · rw [ScanState.mark, ScanState.next, line]
    exact ⟨⟨_, rfl⟩, rfl, .inr line⟩

/-- What does not tell the kinds of a dash apart sees a text as before when what is loose is cut off
    behind it. -/
theorem view_ended {β : Type} {f : Mark → β} (blind : ∀ d k k', f ⟨'-', d, k⟩ = f ⟨'-', d, k'⟩)
    (loose : Loose u) (s : ScanState) :
    (s.marks t).map f = ((s.marks (t ++ u)).take t.length).map f := by
  induction t generalizing s with
  | nil => rfl
  | cons c t ih =>
    rcases step_ended loose s (c := c) (t := t) with ⟨mark, next⟩ | ⟨code, rfl, rfl⟩
    · rw [List.cons_append, ScanState.marks, ScanState.marks, List.length_cons, List.take_succ_cons,
        List.map_cons, List.map_cons, mark, next, ih]
    · -- two dashes are left
      have dashes (v : Text) : ((s.marks ('-' :: '-' :: v)).take 2).map f =
          [f ⟨'-', s.depth, .code⟩, f ⟨'-', s.depth, .code⟩] := by
        obtain ⟨⟨k, first⟩, same, mode⟩ := mark_dash (.inl code) ('-' :: v)
        obtain ⟨⟨k', second⟩, -, -⟩ := mark_dash mode v
        simp only [ScanState.marks, List.take_succ_cons, List.take_zero, List.map_cons, List.map_nil, first, second, same]
        rw [blind _ k .code, blind _ k' .code]
      have alone := dashes []
      rw [List.take_of_length_le (by simp [ScanState.marks])] at alone
      exact alone.trans (dashes u).symm

theorem seen_ended (loose : Loose u) (s : ScanState) :
    (s.marks t).map Mark.seen = ((s.marks (t ++ u)).take t.length).map Mark.seen :=
  view_ended (fun d k k' => by simp [Mark.seen, Mark.isPlaceholder]) loose s

end Ended
section Delimiter

variable {d : Char} {t : Text} {issued n : Nat}

structure ListMark (d : Char) : Prop where
  delimiter : IsDelimiter d
  noStar : d ≠ '*'
  noQuestion : d ≠ '?'

instance (d : Char) : Decidable (ListMark d) :=
  decidable_of_iff (IsDelimiter d ∧ d ≠ '*' ∧ d ≠ '?') ⟨fun ⟨a, b, c⟩ => ⟨a, b, c⟩, fun ⟨a, b, c⟩ => ⟨a, b, c⟩⟩

theorem ListMark.not_named (mark : ListMark d) (n : Nat) : d ∉ paramName n := by
  have letters : ∀ c ∈ paramMarker, isNameChar c ∨ c = ':' := by decide
  refine not_mem_paramName (fun member => ?_) ?_ n
  · rcases letters d member with letter | colon
    · exact absurd letter (by simp [mark.delimiter.2.1])
    · exact mark.delimiter.2.2 colon
  · exact any_isDigit_of_isNameChar (o := some d) (by simp [mark.delimiter.2.1])

structure FirstCut (d : Char) (t : Text) (m : Mark) (n : Nat) : Prop where
  shorter : (t.drop (n + 1)).length < t.length
  isMark : m.isTopOf d
  marks : scan t = (scan t).take n ++ m :: scan (t.drop (n + 1))
  front : ∀ m ∈ (scan t).take n, m.isTopOf d = false
  placeholders : placeholders t = placeholders (t.take n) + placeholders (t.drop (n + 1))
  named : ∀ issued, scan (numbered issued t) = nameMarks issued ((scan t).take n) ++
    m :: scan (numbered (issued + QueryChain.placeholders (t.take n)) (t.drop (n + 1)))
  namedFront : ∀ issued, markText (nameMarks issued ((scan t).take n)) = numbered issued (t.take n)

theorem exists_firstCut (mark : ListMark d) {m : Mark} {after : Marks}
    (rest : (scan t).dropWhile (!·.isTopOf d) = m :: after) : ∃ n, FirstCut d t m n := by
  obtain ⟨n, text, found, start, front, rfl⟩ := first_separator mark.delimiter.separator rest
  have char : m.char = d := by
    rw [Mark.isTopOf, Bool.and_eq_true, beq_iff_eq] at found
    exact found.1
  have inText : n < t.length := by
    by_contra beyond
    rw [List.drop_eq_nil_of_le (by omega)] at text
    cases text
  have marks : scan t = (scan t).take n ++ m :: scan (t.drop (n + 1)) := by
    rw [← rest, ← front, List.takeWhile_append_dropWhile]
  have other : ¬m.isPlaceholder := fun placeholder =>
    mark.noQuestion (char ▸ (char_of_placeholder placeholder).2)
  have seen : (scan (t.take n)).map Mark.seen = ((scan t).take n).map Mark.seen := by
    have cut := seen_ended (t := t.take n) (u := t.drop n) (loose_of_plain (by
      rw [text, char]
      rintro c ⟨⟩
      exact ⟨mark.delimiter.1, mark.noStar⟩)) {}
    rwa [List.take_append_drop, List.length_take, Nat.min_eq_left inText.le] at cut
  have count : ((scan t).take n).countP Mark.isPlaceholder = placeholders (t.take n) :=
    (numberMarks_of_seen seen 0).2.symm
  refine ⟨n, ?_, found, marks, ?_, ?_, fun issued => ?_, fun issued => ?_⟩
  · rw [List.length_drop]
    omega
  · intro m member
    rw [← front] at member
    simpa using List.mem_takeWhile_imp member
  · conv_lhs => rw [placeholders, marks, List.countP_append, List.countP_cons_of_neg other, count]
    rfl
  · rw [scan_numbered, scan_numbered, ← count]
    conv_lhs => rw [marks, nameMarks_append, nameMarks, if_neg other]
  · rw [markText_nameMarks, ← (numberMarks_of_seen seen issued).1]
    rfl

theorem FirstCut.namedFront_free {m : Mark} (mark : ListMark d) (cut : FirstCut d t m n) (issued : Nat) :
    ∀ m ∈ nameMarks issued ((scan t).take n), m.isTopOf d = false := by
  intro a member
  rcases mem_nameMarks member with old | ⟨-, k, inName⟩
  · exact cut.front a old
  · have other : a.char ≠ d := fun same => mark.not_named k (same ▸ inName)
    simp [Mark.isTopOf, other]

theorem numbered_whole (mark : ListMark d) (whole : ∀ m ∈ scan t, m.isTopOf d = false) (issued : Nat) :
    ∀ m ∈ scan (numbered issued t), m.isTopOf d = false :=
  hasTop_eq_false_iff.mp (hasTop_numbered (mark.not_named) (hasTop_eq_false_iff.mpr whole) issued)

/-- The parts of a text in front of and behind its first delimiter are named in turn. -/
theorem cutTop?_numbered (mark : ListMark d) (issued : Nat) (t : Text) : cutTop? d (numbered issued t) =
    (cutTop? d t).map fun p => (numbered issued p.1, numbered (issued + placeholders p.1) p.2) := by
  cases rest : (scan t).dropWhile (!·.isTopOf d) with
  | nil =>
    have whole : hasTop d t = false := hasTop_eq_false_iff.mpr (by simpa using List.dropWhile_eq_nil_iff.mp rest)
    have named := hasTop_numbered mark.not_named whole issued
    rw [hasTop, Option.isSome_eq_false_iff, Option.isNone_iff_eq_none] at whole named
    rw [whole, named]
    rfl
  | cons m after =>
    obtain ⟨n, cut⟩ := exists_firstCut mark rest
    have parts (ms : Marks) (free : ∀ m ∈ ms, m.isTopOf d = false) (u s : Text) (whole : scan s = ms ++ m :: scan u) :
        cutTop? d s = some (markText ms, u) := by
      have passes : ∀ m ∈ ms, (!m.isTopOf d) = true := fun m member => by simp [free m member]
      have stop : (!m.isTopOf d) = false := by simp [cut.isMark]
      rw [cutTop?, whole, List.dropWhile_append_of_pos passes, List.takeWhile_append_of_pos passes,
        List.dropWhile_cons_of_neg (by simp [stop]), List.takeWhile_cons_of_neg (by simp [stop]), List.append_nil]
      exact congrArg some (Prod.ext rfl (markText_scan u))
    rw [parts _ (cut.namedFront_free mark issued) _ _ (cut.named issued), parts _ cut.front _ _ cut.marks,
      markText_take_scan, cut.namedFront]
    rfl

theorem pieces_numbered (mark : ListMark d) (issued : Nat) (t : Text) :
    ((scan (numbered issued t)).splitOnP (·.isTopOf d)).map markText =
      numberedAll issued (((scan t).splitOnP (·.isTopOf d)).map markText) ∧
    ((((scan t).splitOnP (·.isTopOf d)).map markText).map placeholders).sum = placeholders t := by
  cases rest : (scan t).dropWhile (!·.isTopOf d) with
  | nil =>
    have whole : ∀ m ∈ scan t, m.isTopOf d = false := by
      simpa using List.dropWhile_eq_nil_iff.mp rest
    rw [List.splitOnP_eq_singleton whole, List.splitOnP_eq_singleton (numbered_whole mark whole issued)]
    simp [numberedAll]
  | cons m after =>
    obtain ⟨n, cut⟩ := exists_firstCut mark rest
    have shorter := cut.shorter
    obtain ⟨later, sum⟩ := pieces_numbered mark (issued + placeholders (t.take n)) (t.drop (n + 1))
    have front := List.splitOnP_append_cons_of_forall_mem cut.front m cut.isMark (scan (t.drop (n + 1)))
    rw [← cut.marks] at front
    rw [front, cut.named, List.splitOnP_append_cons_of_forall_mem (cut.namedFront_free mark issued) m cut.isMark,
      List.map_cons, List.map_cons, List.map_cons, List.sum_cons, markText_take_scan, cut.namedFront, later, sum,
      cut.placeholders]
    exact ⟨rfl, rfl⟩
termination_by t.length

theorem map_trim_numberedAll (issued : Nat) (ts : List Text) :
    (numberedAll issued ts).map trim = numberedAll issued (ts.map trim) := by
  induction ts generalizing issued with
  | nil => rfl
  | cons t ts ih =>
    rw [numberedAll, List.map_cons, List.map_cons, numberedAll, ih, numbered_trim, placeholders_trim]

theorem dropEmpty_numberedAll (issued : Nat) (ts : List Text) :
    dropEndWhile List.isEmpty (numberedAll issued ts) = numberedAll issued (dropEndWhile List.isEmpty ts) := by
  induction ts using List.reverseRecOn with
  | nil => rfl
  | append_singleton ts t ih =>
    have empty : (numbered (issued + (ts.map placeholders).sum) t).isEmpty = t.isEmpty := by
      rw [Bool.eq_iff_iff, List.isEmpty_iff, List.isEmpty_iff, numbered_eq_nil_iff]
    have last (us : List Text) (u : Text) : dropEndWhile List.isEmpty (us ++ [u]) =
        if u.isEmpty then dropEndWhile List.isEmpty us else us ++ [u] := by
      rw [dropEndWhile, List.reverse_append, List.reverse_singleton, List.singleton_append, List.dropWhile_cons]
      split
      · rfl
      · simp
    rw [numberedAll_append, numberedAll, numberedAll, last, last, empty, ih]
    split
    · rfl
    · rw [numberedAll_append, numberedAll, numberedAll]

theorem sum_dropEmpty (ts : List Text) :
    ((dropEndWhile List.isEmpty ts).map placeholders).sum = (ts.map placeholders).sum := by
  have kept := dropEndWhile_append_takeWhile List.isEmpty ts
  have none : ((ts.reverse.takeWhile List.isEmpty).reverse.map placeholders).sum = 0 := by
    refine List.sum_eq_zero_iff_forall_eq_nat.mpr fun n member => ?_
    obtain ⟨t, inEnd, rfl⟩ := List.mem_map.mp member
    have empty := List.mem_takeWhile_imp (List.mem_reverse.mp inEnd)
    rw [List.isEmpty_iff.mp empty]
    rfl
  conv_rhs => rw [← kept, List.map_append, List.sum_append, none, Nat.add_zero]

/-- The pieces of a text with its placeholders named are the pieces of the text, named in turn. -/
theorem splitTop_named (mark : ListMark d) (issued : Nat) (t : Text) :
    splitTop d (numbered issued t) = numberedAll issued (splitTop d t) := by
  have pieces := congrArg (List.map trim) (pieces_numbered mark issued t).1
  rw [map_trim_numberedAll, List.map_map, List.map_map] at pieces
  rw [splitTop, splitTop, ← dropEmpty_numberedAll]
  exact congrArg _ pieces

/-- No placeholder of a text is lost between its pieces. -/
theorem placeholders_splitTop (mark : ListMark d) (t : Text) :
    ((splitTop d t).map placeholders).sum = placeholders t := by
  have sum := (pieces_numbered mark 0 t).2
  have trimmed : placeholders ∘ (trim <| markText ·) = placeholders ∘ markText := by
    funext ms
    exact placeholders_trim _
  rw [splitTop, sum_dropEmpty, List.map_map, trimmed, ← List.map_map, sum]

end Delimiter
end QueryChain
