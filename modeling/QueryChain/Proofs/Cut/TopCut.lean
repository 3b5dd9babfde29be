import QueryChain.Proofs.Statement.Bounds
import QueryChain.Proofs.Naming.Lists

namespace QueryChain

/-- The texts between the marks that a predicate holds of, in order. -/
inductive Between (p : Mark → Bool) : Marks → List Text → Prop
  | last {ms : Marks} (whole : ∀ m ∈ ms, p m = false) : Between p ms [markText ms]
  | cut {ms rest : Marks} {m : Mark} {ts : List Text} (whole : ∀ m ∈ ms, p m = false) (cuts : p m)
      (later : Between p rest ts) : Between p (ms ++ m :: rest) (markText ms :: ts)

/-- The texts between the cuts, trimmed, without the empty ones at the end. -/
def CutInto (p : Mark → Bool) (ms : Marks) (pieces : List Text) : Prop :=
  ∃ parts, Between p ms parts ∧ pieces = dropEndWhile List.isEmpty (parts.map trim)

def Padded (t u : Text) : Prop :=
  ∃ front back, u = front ++ t ++ back ∧ (∀ c ∈ front, isBlank c) ∧ ∀ c ∈ back, isBlank c

section Between

variable {p q : Mark → Bool} {ms ns : Marks} {ts : List Text} {d : Char}

theorem between_splitOnP (p : Mark → Bool) (ms : Marks) : Between p ms ((ms.splitOnP p).map markText) := by
  cases rest : ms.dropWhile (!p ·) with
  | nil =>
    have whole : ∀ m ∈ ms, p m = false := by simpa using List.dropWhile_eq_nil_iff.mp rest
    rw [List.splitOnP_eq_singleton whole]
    exact .last whole
  | cons m after =>
    have whole : ∀ m ∈ ms.takeWhile (!p ·), p m = false := fun m member => by
      simpa using List.mem_takeWhile_imp member
    have cuts : p m := by
      have stop := List.head?_dropWhile_not (!p ·) ms
      rw [rest] at stop
      simpa using stop
    have parts : ms.takeWhile (!p ·) ++ m :: after = ms := by rw [← rest, List.takeWhile_append_dropWhile]
    have shorter : after.length < ms.length := by
      have lengths := congrArg List.length parts
      simp only [List.length_append, List.length_cons] at lengths
      omega
    have both := Between.cut whole cuts (between_splitOnP p after)
    rwa [← List.map_cons, ← List.splitOnP_append_cons_of_forall_mem whole m cuts, parts] at both
termination_by ms.length

theorem cutInto_splitOnP (p : Mark → Bool) (ms : Marks) :
    CutInto p ms (dropEndWhile List.isEmpty ((ms.splitOnP p).map (trim <| markText ·))) :=
  ⟨_, between_splitOnP p ms, by rw [List.map_map]; rfl⟩

theorem Between.ne_nil (between : Between p ms ts) : ts ≠ [] := by
  cases between <;> simp

theorem Between.joinWith_eq (between : Between p ms ts) (same : ∀ m ∈ ms, p m → m.char = d) :
    joinWith [d] ts = markText ms := by
  induction between with
  | last whole => exact joinWith_one _ _
  | @cut ms rest m ts whole cuts later ih =>
    obtain ⟨u, us, rfl⟩ := List.exists_cons_of_ne_nil later.ne_nil
    have behind := ih fun n member => same n (by simp [member])
    have char := same m (by simp) cuts
    have first : joinWith [d] (markText ms :: u :: us) = markText ms ++ ([d] ++ joinWith [d] (u :: us)) := by
      simp [joinWith, List.intercalate_cons_cons]
    rw [first, behind, ← char, markText_append]
    rfl

end Between

section Pieces

variable {d : Char} {t u : Text} {ts : List Text}

theorem padded_trim (t : Text) : Padded (trim t) t := trim_spec t

theorem exists_kept (ts : List Text) : ∃ parts blanks, ts = parts ++ blanks ∧
    dropEndWhile List.isEmpty (ts.map trim) = parts.map trim ∧ ∀ u ∈ blanks, trim u = [] := by
  obtain ⟨parts, blanks, rfl, kept, dropped⟩ :=
    List.map_eq_append_iff.mp (dropEndWhile_append_takeWhile List.isEmpty (ts.map trim)).symm
  refine ⟨parts, blanks, rfl, kept.symm, fun u member => ?_⟩
  have inEnd : trim u ∈ blanks.map trim := List.mem_map_of_mem member
  rw [dropped] at inEnd
  simpa using List.mem_takeWhile_imp (List.mem_reverse.mp inEnd)

theorem hasTop_trim (whole : hasTop d t = false) : hasTop d (trim t) = false := by
  rw [hasTop_eq_false_iff] at whole ⊢
  obtain ⟨front, back, parts, blankFront, blankBack⟩ := trim_spec t
  have marks := pad_marks blankFront blankBack (trim t)
  rw [← parts] at marks
  exact fun m member => whole m (by rw [marks]; simp [member])

/-- A delimiter is seen as one, whatever kind of dash stands in front of it. -/
theorem ListMark.blind (mark : ListMark d) (n : Nat) (k k' : MarkKind) :
    Mark.isTopOf d ⟨'-', n, k⟩ = Mark.isTopOf d ⟨'-', n, k'⟩ := by
  have other : ('-' == d) = false := beq_false_of_ne fun same => absurd (same ▸ mark.delimiter.1) (by decide)
  simp [Mark.isTopOf, other]

theorem FirstCut.text {m : Mark} {n : Nat} (cut : FirstCut d t m n) : t = t.take n ++ d :: t.drop (n + 1) := by
  have found := cut.isMark
  rw [Mark.isTopOf, Bool.and_eq_true, beq_iff_eq] at found
  conv_lhs => rw [← markText_scan t, cut.marks, markText_append, markText_take_scan]
  exact congrArg _ (congrArg₂ List.cons found.1 (markText_scan _))

theorem FirstCut.bound {m : Mark} {n : Nat} (cut : FirstCut d t m n) : n ≤ t.length := by
  have length := congrArg List.length cut.text
  simp only [List.length_append, List.length_take, List.length_cons, List.length_drop] at length
  omega

theorem FirstCut.loose {m : Mark} {n : Nat} (mark : ListMark d) (cut : FirstCut d t m n) : Loose (t.drop n) := by
  have rest : t.drop n = d :: t.drop (n + 1) :=
    List.append_cancel_left ((List.take_append_drop n t).trans cut.text)
  rw [rest]
  refine loose_cons ?_ mark.noStar _
  rintro rfl
  exact absurd mark.delimiter.1 (by decide)

/-- What stands in front of the first delimiter is read by itself as it was in the text. -/
theorem FirstCut.whole {m : Mark} {n : Nat} (mark : ListMark d) (cut : FirstCut d t m n) : hasTop d (t.take n) = false := by
  have same := view_ended (f := (·.isTopOf d)) (t := t.take n) (fun n => mark.blind n) (cut.loose mark) {}
  rw [List.take_append_drop, List.length_take, Nat.min_eq_left cut.bound] at same
  refine hasTop_eq_false_iff.mpr fun m member => ?_
  obtain ⟨m', inText, eq⟩ := List.mem_map.mp (same ▸ List.mem_map_of_mem member)
  exact eq.symm.trans (cut.front m' inText)

/-- The texts between the delimiters of a text have none of their own, each read for itself. -/
theorem whole_of_mem_splitOnP (mark : ListMark d) (t : Text) :
    ∀ u ∈ ((scan t).splitOnP (·.isTopOf d)).map markText, hasTop d u = false := by
  cases rest : (scan t).dropWhile (!·.isTopOf d) with
  | nil =>
    have whole : ∀ m ∈ scan t, m.isTopOf d = false := by simpa using List.dropWhile_eq_nil_iff.mp rest
    rw [List.splitOnP_eq_singleton whole]
    simpa [markText_scan] using hasTop_eq_false_iff.mpr whole
  | cons m after =>
    obtain ⟨n, cut⟩ := exists_firstCut mark rest
    have shorter := cut.shorter
    have behind := whole_of_mem_splitOnP mark (t.drop (n + 1))
    rw [cut.marks, List.splitOnP_append_cons_of_forall_mem cut.front m cut.isMark, List.map_cons, markText_take_scan]
    intro u member
    rcases List.mem_cons.mp member with rfl | later
    · exact cut.whole mark
    · exact behind u later
termination_by t.length

theorem listMark_of_mem (delimiter : d ∈ [',', ';', '.']) : ListMark d := by
  have all : ∀ d ∈ [',', ';', '.'], ListMark d := by decide
  exact all d delimiter

/-- Cutting a text at its delimiters loses nothing but blanks and the delimiters at its end, and a piece is not
    cut again, though it is read for itself and not where it stood. -/
theorem splitTop_cuts_faithfully (delimiter : d ∈ [',', ';', '.']) (t : Text) :
    CutInto (·.isTopOf d) (scan t) (splitTop d t) ∧
    (∃ parts blanks, t = joinWith [d] (parts ++ blanks) ∧ List.Forall₂ Padded (splitTop d t) parts ∧
      ∀ u ∈ blanks, Padded [] u) ∧
    (∀ u ∈ splitTop d t, u ≠ [] → (∀ m ∈ scan u, m.isTopOf d = false) ∧ splitTop d u = [u]) ∧
    ((splitTop d t).map placeholders).sum = placeholders t := by
  have mark := listMark_of_mem delimiter
  obtain ⟨parts, blanks, all, kept, empty⟩ := exists_kept (((scan t).splitOnP (·.isTopOf d)).map markText)
  rw [List.map_map] at kept
  have pieces : splitTop d t = parts.map trim := kept
  have joined := (between_splitOnP (·.isTopOf d) (scan t)).joinWith_eq (d := d) fun m _ top => by
    simp only [Mark.isTopOf, Bool.and_eq_true, beq_iff_eq] at top
    exact top.1
  rw [all, markText_scan] at joined
  refine ⟨cutInto_splitOnP _ _, ⟨parts, blanks, joined.symm, ?_, fun u member => ?_⟩, fun u member full => ?_,
    placeholders_splitTop mark t⟩
  · rw [pieces, List.forall₂_map_left_iff]
    exact List.forall₂_same.mpr fun u _ => padded_trim u
  · rw [← empty u member]
    exact padded_trim u
  · rw [pieces] at member
    obtain ⟨v, inParts, rfl⟩ := List.mem_map.mp member
    have whole : hasTop d (trim v) = false :=
      hasTop_trim (whole_of_mem_splitOnP mark t v (by rw [all]; simp [inParts]))
    refine ⟨hasTop_eq_false_iff.mp whole, ?_⟩
    rw [splitTop_whole whole, trim_trim, if_neg full]

def untidyList : Text := "a--, f(?, b) , ?) ,'?, c"

theorem splitTop_cuts_faithfully_untidy :
    splitTop ',' untidyList = ["a--", "f(?, b)", "?)", "'?, c"] ∧ (∀ u ∈ splitTop ',' untidyList, splitTop ',' u = [u]) ∧
    ((splitTop ',' untidyList).map placeholders).sum = 2 := by
  obtain ⟨-, -, again, sum⟩ := splitTop_cuts_faithfully (d := ',') (by decide) untidyList
  have pieces : splitTop ',' untidyList = ["a--", "f(?, b)", "?)", "'?, c"] := by decide +kernel
  have full : ∀ u ∈ splitTop ',' untidyList, u ≠ [] := by
    rw [pieces]
    decide
  exact ⟨pieces, fun u member => (again u member (full u member)).2, sum.trans (by decide +kernel)⟩

end Pieces
end QueryChain
