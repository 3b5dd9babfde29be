import QueryChain.Proofs.Scan.Parted

namespace QueryChain

variable {s e : ScanState} {c : Char} {t u : Text}

namespace ScanState

def calmMarks (s : ScanState) : Text → Marks
  | [] => []
  | c :: t => s.mark c [] :: (s.next c []).calmMarks t

def calmRun (s : ScanState) : Text → ScanState
  | [] => s
  | c :: t => (s.next c []).calmRun t

def Opens (s : ScanState) : Text → Prop
  | [] => True
  | c :: t => ((s.mark c []).isCode → c = ')' → s.depth ≠ 0) ∧ (s.next c []).Opens t

theorem calm_of_free (free : (s.mark c t).kind ≠ .comment) :
    s.mark c t = s.mark c [] ∧ s.next c t = s.next c [] := by
  by_cases code : s.mode = .code
  · obtain ⟨line, block⟩ := role_of_no_comment code free
    have alone : opensLineComment c [] = false := by
      rw [Bool.eq_false_iff]
      intro opens
      have hash : c = '#' := by simpa [opensLineComment_eq] using opens
      subst hash
      cases line
    have role : Role.of c t = Role.of c [] := by
      have blockAlone : opensBlockComment c [] = false := by simp [opensBlockComment]
      rw [Role.of, Role.of, line, block, alone, blockAlone]
    exact mark_of_role role
  · exact rest_indifferent code c _ _

theorem marks_calm (free : ∀ m ∈ s.marks t, m.kind ≠ .comment) : s.marks t = s.calmMarks t ∧ s.run t = s.calmRun t := by
  induction t generalizing s with
  | nil => exact ⟨rfl, rfl⟩
  | cons c t ih =>
    obtain ⟨mark, next⟩ := calm_of_free (free (s.mark c t) (by simp [marks]))
    obtain ⟨later, last⟩ := ih (s := s.next c t) fun m member => free m (by simp [marks, member])
    rw [marks, run, calmMarks, calmRun, mark, later, last, next]
    exact ⟨rfl, rfl⟩

theorem calmMarks_append (s : ScanState) (t u : Text) :
    s.calmMarks (t ++ u) = s.calmMarks t ++ (s.calmRun t).calmMarks u := by
  induction t generalizing s with
  | nil => rfl
  | cons c t ih => rw [List.cons_append, calmMarks, calmMarks, ih, calmRun, List.cons_append]

@[simp] theorem markText_calmMarks (s : ScanState) (t : Text) : markText (s.calmMarks t) = t := by
  induction t generalizing s with
  | nil => rfl
  | cons c t ih => simpa [calmMarks, markText] using ih (s.next c [])

theorem calmRun_append (s : ScanState) (t u : Text) : s.calmRun (t ++ u) = (s.calmRun t).calmRun u := by
  induction t generalizing s with
  | nil => rfl
  | cons c t ih => exact ih _

theorem opens_append (s : ScanState) (t u : Text) : s.Opens (t ++ u) ↔ s.Opens t ∧ (s.calmRun t).Opens u := by
  induction t generalizing s with
  | nil => simp [Opens, calmRun]
  | cons c t ih => rw [List.cons_append, Opens, Opens, ih, calmRun, and_assoc]

theorem calm_roles (code : s.mode = .code) (plain : ∀ c ∈ t, Role.of c [] = .plain) :
    s.calmMarks t = t.map (⟨·, s.depth, .code⟩) ∧ s.calmRun t = s := by
  induction t with
  | nil => exact ⟨rfl, rfl⟩
  | cons c t ih =>
    have role := plain c (by simp)
    have mark : s.mark c [] = ⟨c, s.depth, .code⟩ := by rw [ScanState.mark, code, role]
    have next : s.next c [] = s := by rw [ScanState.next, code, role]
    obtain ⟨marks, run⟩ := ih fun d member => plain d (by simp [member])
    rw [calmMarks, calmRun, mark, next, marks, run]
    exact ⟨rfl, rfl⟩

theorem calm_plain (code : s.mode = .code) (plain : ∀ c ∈ t, isPlain c) :
    s.calmMarks t = t.map (⟨·, s.depth, .code⟩) ∧ s.calmRun t = s ∧ s.Opens t := by
  obtain ⟨marks, run⟩ := calm_roles code fun c member => role_of_plain c [] (plain c member)
  refine ⟨marks, run, ?_⟩
  clear marks run
  induction t with
  | nil => trivial
  | cons c t ih =>
    have here := plain c (by simp)
    rw [Opens, s.next_plain code c [] here]
    refine ⟨fun _ => ?_, ih fun d member => plain d (by simp [member])⟩
    rintro rfl
    cases here

end ScanState

theorem leads_iff_calm : Leads s t e ↔
    (∀ m ∈ s.marks t, m.kind ≠ .comment) ∧ s.Opens t ∧ s.calmRun t = e := by
  constructor
  · intro leads
    refine ⟨leads.free, ?_⟩
    induction leads with
    | nil s => exact ⟨trivial, rfl⟩
    | @cons s e c rest free opened later ih =>
      obtain ⟨mark, next⟩ := ScanState.calm_of_free free
      rw [mark] at opened
      rw [ScanState.Opens, ScanState.calmRun, ← next]
      exact ⟨⟨opened, ih.1⟩, ih.2⟩
  · rintro ⟨free, opens, rfl⟩
    induction t generalizing s with
    | nil => exact .nil s
    | cons c t ih =>
      have here := free (s.mark c t) (by simp [ScanState.marks])
      obtain ⟨mark, next⟩ := ScanState.calm_of_free here
      refine .cons here ?_ ?_
      · rw [mark]
        exact opens.1
      · rw [ScanState.calmRun, ← next]
        refine ih (fun m member => free m (by simp [ScanState.marks, member])) ?_
        rw [next]
        exact opens.2

/-- A complete text without comments, character by character. -/
theorem solid_iff_calm : Solid t ↔ CommentFree t ∧ ({} : ScanState).Opens t ∧ ({} : ScanState).calmRun t = {} :=
  leads_iff_calm

theorem CommentFree.scan_calm (free : CommentFree t) : scan t = ({} : ScanState).calmMarks t :=
  (ScanState.marks_calm free).1

end QueryChain
