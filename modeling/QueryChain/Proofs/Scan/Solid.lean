import QueryChain.Proofs.Params.Numbering
import QueryChain.Sql.Balance

namespace QueryChain

/-- Reading the text leads from one state to the other; no comment is opened on the way, and no group
    is closed that was not opened. -/
inductive Leads : ScanState → Text → ScanState → Prop
  | nil (s : ScanState) : Leads s [] s
  | cons {s e : ScanState} {c : Char} {rest : Text} (free : (s.mark c rest).kind ≠ .comment)
      (opened : (s.mark c rest).isCode → c = ')' → s.depth ≠ 0) (later : Leads (s.next c rest) rest e) :
      Leads s (c :: rest) e

/-- A text that is complete in itself. -/
def Solid (t : Text) : Prop := Leads {} t {}

def Loose (t : Text) : Prop := ∀ c ∈ t.head?, c ≠ '-' ∧ c ≠ '*'

theorem loose_nil : Loose [] := by simp [Loose]

theorem loose_cons {c : Char} (dash : c ≠ '-') (star : c ≠ '*') (rest : Text) : Loose (c :: rest) := by
  rintro d ⟨⟩
  exact ⟨dash, star⟩

theorem role_append {c : Char} {t u : Text} (loose : Loose u) (line : opensLineComment c t = false)
    (block : opensBlockComment c t = false) : Role.of c (t ++ u) = Role.of c t := by
  have sameLine : opensLineComment c (t ++ u) = false := by
    by_cases dash : c = '-'
    · subst dash
      rcases t with _ | ⟨d, _ | ⟨e, t⟩⟩
      · cases u with
        | nil => rfl
        | cons d u =>
          have other := (loose d rfl).1
          simp [opensLineComment, other]
      · by_cases again : d = '-'
        · subst again
          cases line
        · simp [opensLineComment, again]
      · by_cases again : d = '-'
        · subst again
          simpa [opensLineComment] using line
        · simp [opensLineComment, again]
    · by_cases hash : c = '#'
      · subst hash
        simp [opensLineComment] at line
      · simp [opensLineComment, dash]
  have sameBlock : opensBlockComment c (t ++ u) = false := by
    cases t with
    | cons d t => simpa [opensBlockComment] using block
    | nil =>
      cases u with
      | nil => exact block
      | cons d u =>
        have other := (loose d rfl).2
        simp [opensBlockComment, other]
  rw [Role.of, Role.of, sameLine, sameBlock, line, block]

namespace ScanState

theorem mark_append {s : ScanState} {c : Char} {t u : Text} (loose : Loose u)
    (free : (s.mark c t).kind ≠ .comment) :
    s.mark c (t ++ u) = s.mark c t ∧ s.next c (t ++ u) = s.next c t := by
  by_cases code : s.mode = .code
  · obtain ⟨line, block⟩ := role_of_no_comment code free
    have role := role_append loose line block
    rw [mark, mark, next, next, role]
    exact ⟨rfl, rfl⟩
  · exact rest_indifferent code c _ _

end ScanState

namespace Leads

variable {s e f : ScanState} {t u : Text}

theorem run (leads : Leads s t e) : s.run t = e := by
  induction leads with
  | nil => rfl
  | cons free opened later ih => exact ih

theorem free (leads : Leads s t e) : ∀ m ∈ s.marks t, m.kind ≠ .comment := by
  induction leads with
  | nil => simp [ScanState.marks]
  | cons free opened later ih =>
    intro m member
    rcases List.mem_cons.mp member with rfl | inRest
    · exact free
    · exact ih m inRest

theorem marks_append (leads : Leads s t e) (loose : Loose u) :
    s.marks (t ++ u) = s.marks t ++ e.marks u := by
  induction leads with
  | nil => rfl
  | @cons s e c rest free opened later ih =>
    obtain ⟨mark, next⟩ := ScanState.mark_append (u := u) loose free
    rw [List.cons_append, ScanState.marks, ScanState.marks, mark, next, ih]
    rfl

theorem append (leads : Leads s t e) (more : Leads e u f) (loose : Loose u) : Leads s (t ++ u) f := by
  induction leads with
  | nil => exact more
  | @cons s e c rest free opened later ih =>
    obtain ⟨mark, next⟩ := ScanState.mark_append (u := u) loose free
    rw [List.cons_append]
    refine .cons ?_ ?_ ?_
    · rwa [mark]
    · rwa [mark]
    · rw [next]
      exact ih more

theorem plain (code : s.mode = .code) (all : ∀ c ∈ t, isPlain c) : Leads s t s := by
  induction t with
  | nil => exact .nil s
  | cons c t ih =>
    have here := all c (by simp)
    refine .cons ?_ ?_ ?_
    · rw [s.mark_plain code c t here]
      exact MarkKind.noConfusion
    · rintro - rfl
      cases here
    · rw [s.next_plain code c t here]
      exact ih fun d member => all d (by simp [member])

end Leads

def ScanState.inner (s : ScanState) : ScanState := { s with depth := s.depth + 1 }

def Mark.inner (m : Mark) : Mark := { m with depth := m.depth + 1 }

namespace ScanState

theorem mark_inner {s : ScanState} {c : Char} {t : Text}
    (opened : (s.mark c t).isCode → c = ')' → s.depth ≠ 0) :
    s.inner.mark c t = (s.mark c t).inner ∧ s.inner.next c t = (s.next c t).inner := by
  by_cases closes : s.mode = .code ∧ Role.of c t = .closing
  · obtain ⟨code, role⟩ := closes
    have deep : s.depth ≠ 0 := opened (by simp [mark, code, role, Mark.isCode]) (char_of_closing role)
    obtain ⟨mode, depth⟩ := s
    obtain ⟨n, rfl⟩ : ∃ n, depth = n + 1 := ⟨depth - 1, by simp only at deep; omega⟩
    simp only at code
    subst code
    simp [inner, Mark.inner, mark, next, role]
  · obtain ⟨mode, depth⟩ := s
    cases mode with
    | code =>
      cases role : Role.of c t with
      | closing => exact absurd ⟨rfl, role⟩ closes
      | lineComment => simp [inner, Mark.inner, mark, next, role]
      | blockComment => simp [inner, Mark.inner, mark, next, role]
      | quote => simp [inner, Mark.inner, mark, next, role]
      | opening => simp [inner, Mark.inner, mark, next, role]
      | plain => simp [inner, Mark.inner, mark, next, role]
    | quote q escaped =>
      cases escaped with
      | true => exact ⟨rfl, rfl⟩
      | false =>
        refine ⟨rfl, ?_⟩
        simp only [inner, next]
        split_ifs <;> rfl
    | lineComment =>
      refine ⟨rfl, ?_⟩
      simp only [inner, next]
      split_ifs <;> rfl
    | opener => exact ⟨rfl, rfl⟩
    | blockComment star =>
      refine ⟨rfl, ?_⟩
      simp only [inner, next]
      split_ifs <;> rfl

end ScanState

theorem Leads.inner {s e : ScanState} {t : Text} (leads : Leads s t e) :
    Leads s.inner t e.inner ∧ s.inner.marks t = (s.marks t).map Mark.inner := by
  induction leads with
  | nil => exact ⟨.nil _, rfl⟩
  | @cons s e c rest free opened later ih =>
    obtain ⟨mark, next⟩ := ScanState.mark_inner (t := rest) opened
    refine ⟨.cons ?_ ?_ ?_, ?_⟩
    · rw [mark]
      exact free
    · intro _ _ shallow
      cases shallow
    · rw [next]
      exact ih.1
    · rw [ScanState.marks, ScanState.marks, mark, next, ih.2]
      rfl

namespace Solid

variable {s t u : Text}

theorem commentFree (solid : Solid t) : CommentFree t := Leads.free solid

theorem scan_append (solid : Solid s) (loose : Loose u) : scan (s ++ u) = scan s ++ scan u :=
  Leads.marks_append solid loose

theorem append (first : Solid s) (second : Solid u) (loose : Loose u) : Solid (s ++ u) :=
  Leads.append first second loose

theorem plain (all : ∀ c ∈ t, isPlain c) : Solid t := Leads.plain rfl all

theorem nil : Solid [] := Leads.nil _

end Solid

theorem scan_plain {c : Char} (plain : isPlain c) (t : Text) : scan (c :: t) = ⟨c, 0, .code⟩ :: scan t := by
  rw [scan, ScanState.marks, ScanState.mark_plain {} rfl c t plain, ScanState.next_plain {} rfl c t plain]
  rfl

namespace Solid

variable {s t u : Text}

theorem cons {c : Char} (plain : isPlain c) (solid : Solid t) : Solid (c :: t) := by
  refine Leads.cons ?_ ?_ ?_
  · rw [ScanState.mark_plain {} rfl c t plain]
    exact MarkKind.noConfusion
  · rintro - rfl
    cases plain
  · rw [ScanState.next_plain {} rfl c t plain]
    exact solid

theorem of_cons {c : Char} (plain : isPlain c) (solid : Solid (c :: t)) : Solid t := by
  cases solid with
  | cons free opened later => rwa [ScanState.next_plain {} rfl c t plain] at later

/-- A group around a complete text. -/
theorem group (solid : Solid t) : Solid ('(' :: t ++ [')']) ∧
    scan ('(' :: t ++ [')']) = ⟨'(', 0, .code⟩ :: (scan t).map Mark.inner ++ [⟨')', 0, .code⟩] := by
  obtain ⟨inside, marks⟩ := Leads.inner solid
  have closing : Leads (ScanState.inner {}) [')'] {} := by
    refine .cons (by decide) (by decide) ?_
    exact Leads.nil _
  have loose : Loose [')'] := loose_cons (by decide) (by decide) []
  have start (rest : Text) : ({} : ScanState).next '(' rest = ScanState.inner {} ∧
      ({} : ScanState).mark '(' rest = ⟨'(', 0, .code⟩ := by
    simp [ScanState.next, ScanState.mark, role_opening, ScanState.inner]
  obtain ⟨next, mark⟩ := start (t ++ [')'])
  constructor
  · refine Leads.cons ?_ ?_ ?_
    · rw [List.append_eq, mark]
      exact MarkKind.noConfusion
    · rintro - ⟨⟩
    · rw [List.append_eq, next]
      exact inside.append closing loose
  · rw [scan, List.cons_append, ScanState.marks, next, mark, inside.marks_append loose, marks]
    rfl

end Solid

theorem leads_of_survey {t : Text} {v : Survey} (noStray : (v.run t).strayClose = none)
    (free : ∀ m ∈ v.state.marks t, m.kind ≠ .comment) : v.strayClose = none ∧ Leads v.state t (v.state.run t) := by
  induction t generalizing v with
  | nil => exact ⟨noStray, .nil _⟩
  | cons c t ih =>
    obtain ⟨before, later⟩ := ih (v := v.next c t) noStray fun m member =>
      free m (List.mem_cons_of_mem _ member)
    obtain ⟨first, here⟩ := Option.or_eq_none_iff.mp before
    refine ⟨first, .cons (free _ (by simp [ScanState.marks])) ?_ later⟩
    intro code close shallow
    rw [if_pos ⟨code, close, shallow⟩] at here
    cases here

theorem noComment_run {t : Text} {s : ScanState} (no : s.NoComment)
    (free : ∀ m ∈ s.marks t, m.kind ≠ .comment) : (s.run t).NoComment := by
  induction t generalizing s with
  | nil => exact no
  | cons c t ih =>
    exact ih (no.next (free _ (by simp [ScanState.marks]))) fun m member =>
      free m (List.mem_cons_of_mem _ member)

theorem Balanced.solid {t : Text} (balanced : Balanced t) (free : CommentFree t) : Solid t := by
  rw [Balanced, fault?, Survey.fault?] at balanced
  split at balanced
  · cases balanced
  rename_i noStray
  split at balanced
  · cases balanced
  obtain ⟨-, leads⟩ := leads_of_survey (v := {}) (t := t) (by
    rw [Option.eq_none_iff_forall_ne_some]
    exact noStray) free
  have no := noComment_run (.inl rfl) free
  have last : ({} : ScanState).run t = {} := by
    rw [Survey.state_run] at balanced
    generalize ({} : ScanState).run t = e at balanced no
    obtain ⟨mode, depth⟩ := e
    rcases no with code | ⟨q, escaped, quote⟩
    · simp only at code
      subst code
      simp only [ite_eq_right_iff, reduceCtorEq, imp_false, Nat.not_lt, Nat.le_zero] at balanced
      rw [balanced]
    · simp only at quote
      subst quote
      cases balanced
  rw [last] at leads
  exact leads

theorem Survey.run_of_leads {v : Survey} {s e : ScanState} {t : Text} (leads : Leads s t e)
    (start : v.state = s) (noStray : v.strayClose = none) (noHint : v.executable = none) :
    (v.run t).strayClose = none ∧ (v.run t).executable = none := by
  induction leads generalizing v with
  | nil => exact ⟨noStray, noHint⟩
  | @cons s e c rest free opened later ih =>
    subst start
    apply ih rfl
    · refine Option.or_eq_none_iff.mpr ⟨noStray, if_neg ?_⟩
      rintro ⟨code, close, shallow⟩
      exact opened code close shallow
    · refine Option.or_eq_none_iff.mpr ⟨noHint, if_neg ?_⟩
      rintro ⟨code, opens⟩
      have block := (ScanState.role_of_no_comment code free).2
      rw [opensExecutable, block] at opens
      cases opens

theorem Solid.balanced {t : Text} (solid : Solid t) : Balanced t := by
  obtain ⟨noStray, noHint⟩ := Survey.run_of_leads solid (v := {}) rfl rfl rfl
  have last := Leads.run solid
  rw [Balanced, fault?, Survey.fault?, noStray, noHint, Survey.state_run, last]
  rfl

end QueryChain
