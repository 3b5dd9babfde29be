import Mathlib.Data.List.Chain
import QueryChain.Proofs.Params.Names
import QueryChain.Proofs.Params.Numbering

namespace QueryChain

section Roles

variable {s : ScanState} {k : Nat} {c : Char} {t : Text}

theorem char_of_placeholder {m : Mark} (placeholder : m.isPlaceholder) : m.isCode ∧ m.char = '?' := by
  simpa [Mark.isPlaceholder] using placeholder

/-- A question about the first character has the same answer once the placeholders are named, if it
    makes no difference between a placeholder and the start of a name. -/
theorem head?_numberMarks_of {α : Type} {f : Option Char → α} (same : f (some ':') = f (some '?')) (k : Nat)
    (ms : Marks) : f (numberMarks k ms).head? = f (markText ms).head? := by
  cases ms with
  | nil => rfl
  | cons m ms =>
    rw [numberMarks, markText, List.map_cons, List.head?_cons]
    by_cases placeholder : m.isPlaceholder
    · rw [if_pos placeholder, (char_of_placeholder placeholder).2]
      exact same
    · rw [if_neg placeholder, List.head?_cons]

theorem head?_numberMarks {α : Type} {f : Option Char → α} (same : f (some ':') = f (some '?')) :
    f (numberMarks k (s.marks t)).head? = f t.head? := by
  rw [head?_numberMarks_of same, ScanState.markText_marks]

theorem opensLineComment_numberMarks :
    opensLineComment c (numberMarks k (s.marks t)) = opensLineComment c t := by
  by_cases dash : c = '-'
  · subst dash
    cases t with
    | nil => rfl
    | cons d t =>
      rw [ScanState.marks, numberMarks]
      by_cases placeholder : (s.mark d t).isPlaceholder
      · have char := (char_of_placeholder placeholder).2
        rw [ScanState.mark_char] at char
        rw [if_pos placeholder, char]
        rfl
      · rw [if_neg placeholder, ScanState.mark_char]
        by_cases again : d = '-'
        · subst again
          exact head?_numberMarks (f := (·.all isBlank)) (by decide)
        · simp [opensLineComment, again]
  · unfold opensLineComment
    split <;> simp_all

theorem role_numberMarks : Role.of c (numberMarks k (s.marks t)) = Role.of c t := by
  have line := opensLineComment_numberMarks (s := s) (k := k) (c := c) (t := t)
  have block : opensBlockComment c (numberMarks k (s.marks t)) = opensBlockComment c t := by
    have star := head?_numberMarks (s := s) (k := k) (t := t) (f := (· == some '*')) (by decide)
    rw [opensBlockComment, opensBlockComment, star]
  rw [Role.of, Role.of, line, block]

theorem mark_of_role {u : Text} (role : Role.of c u = Role.of c t) :
    s.mark c u = s.mark c t ∧ s.next c u = s.next c t := by
  constructor
  · rw [ScanState.mark, ScanState.mark, role]
  · rw [ScanState.next, ScanState.next, role]

theorem isPlain_of_isDigit {c : Char} (digit : c.isDigit) : isPlain c := by
  have code := (isDigit_iff c).mp digit
  by_contra special
  have cases : c = '#' ∨ c = '-' ∨ c = '/' ∨ c = '\'' ∨ c = '"' ∨ c = '`' ∨ c = '(' ∨ c = ')' := by
    simp only [isPlain, isQuote] at special
    grind
  rcases cases with rfl | rfl | rfl | rfl | rfl | rfl | rfl | rfl <;> revert code <;> decide

theorem isDigit_of_mem_decimal {n : Nat} (member : c ∈ decimal n) : c.isDigit :=
  Nat.isDigit_of_mem_toDigits (by decide) (by decide) member

theorem paramName_eq (n : Nat) : paramName n = ':' :: ("param".toList ++ decimal n) := rfl

theorem isPlain_of_mem_paramName {n : Nat} (member : c ∈ paramName n) : isPlain c := by
  rcases List.mem_append.mp member with marker | digit
  · have all : ∀ c ∈ paramMarker, isPlain c := by decide
    exact all c marker
  · exact isPlain_of_isDigit (isDigit_of_mem_decimal digit)

theorem dashesOnly_numberMarks (dashes : DashesOnly s t) :
    DashesOnly s (numberMarks k (s.marks t)) := by
  induction t generalizing s k with
  | nil => exact dashes
  | cons c t ih =>
    have rest : DashesOnly (s.next c t) t := fun m member => dashes m (by simp [ScanState.marks, member])
    rw [ScanState.marks, numberMarks]
    by_cases placeholder : (s.mark c t).isPlaceholder
    · rw [if_pos placeholder]
      obtain ⟨code, char⟩ := char_of_placeholder placeholder
      rw [ScanState.mark_char] at char
      subst char
      have mode := s.mode_of_code '?' t (by decide) code
      have stays : s.next '?' t = s := s.next_plain mode '?' t (by decide)
      rw [stays] at rest ⊢
      have plain : ∀ c ∈ paramName (k + 1), isPlain c := fun c => isPlain_of_mem_paramName
      generalize paramName (k + 1) = name at plain
      have later := ih rest (k := k + 1)
      induction name with
      | nil => exact later
      | cons d name ihName =>
        have more := ihName fun c member => plain c (by simp [member])
        intro m member comment
        rw [List.cons_append, ScanState.marks, s.next_plain mode d _ (plain d (by simp)),
          s.mark_plain mode d _ (plain d (by simp))] at member
        rcases List.mem_cons.mp member with rfl | inRest
        · cases comment
        · exact more m inRest comment
    · rw [if_neg placeholder, ScanState.mark_char]
      obtain ⟨mark, next⟩ := mark_of_role (s := s) (role_numberMarks (s := s.next c t) (k := k)
        (c := c) (t := t))
      intro m member comment
      rw [ScanState.marks, mark, next] at member
      rcases List.mem_cons.mp member with rfl | inRest
      · exact dashes _ (by simp [ScanState.marks]) comment
      · exact ih rest m inRest comment

end Roles
section Shown

variable {s : ScanState} {k : Nat} {t : Text}

theorem prefix_of_numberMarks {w : Text} {ms : Marks} (no : ':' ∉ w)
    (starts : w <+: numberMarks k ms) : w <+: markText ms := by
  induction w generalizing k ms with
  | nil => exact List.nil_prefix
  | cons c w ih =>
    cases ms with
    | nil => exact starts
    | cons m ms =>
      rw [numberMarks] at starts
      by_cases placeholder : m.isPlaceholder
      · rw [if_pos placeholder] at starts
        have colon := (List.cons_prefix_cons.mp starts).1
        exact absurd (by rw [colon]; exact List.mem_cons_self) no
      · rw [if_neg placeholder] at starts
        obtain ⟨rfl, rest⟩ := List.cons_prefix_cons.mp starts
        exact List.cons_prefix_cons.mpr ⟨rfl, ih (fun member => no (by simp [member])) rest⟩

theorem paramAtStart?_numberMarks {c : Char} {ms : Marks} (free : ¬paramMarker <+: c :: markText ms) :
    paramAtStart? (c :: numberMarks k ms) = none := by
  apply paramAtStart?_eq_none
  intro rest eq
  obtain ⟨rfl, behind⟩ := List.cons.inj eq
  have letters : "param".toList <+: numberMarks k ms := behind ▸ List.prefix_append _ _
  exact free (List.cons_prefix_cons.mpr ⟨rfl, prefix_of_numberMarks (by decide) letters⟩)

theorem paramsWithin_plain {u rest : Text} (plain : ∀ c ∈ u, isPlain c)
    (same : paramsWithin (none, false) rest = namesIn rest) :
    paramsWithin (none, false) (u ++ rest) = namesIn (u ++ rest) := by
  induction u with
  | nil => exact same
  | cons c u ih =>
    have noQuote : isQuote c = false := by
      have isPlain := plain c (by simp)
      by_contra quote
      simp [QueryChain.isPlain, quote] at isPlain
    rw [List.cons_append, paramsWithin_cons, namesIn, if_pos rfl, quotingBehind,
      if_neg (by simp [noQuote])]
    exact congrArg _ (ih fun d member => plain d (by simp [member]))

theorem shown_numberMarks (quiet : s.mode.isQuiet) (dashes : DashesOnly s t)
    (free : ¬paramMarker <:+: t) :
    paramsWithin s.mode.quoting (numberMarks k (s.marks t)) =
      namesIn (numberMarks k (s.marks t)) := by
  induction t generalizing s k with
  | nil => simp [ScanState.marks, numberMarks, paramsWithin, paramsFrom, namesIn]
  | cons c t ih =>
    have rest : DashesOnly (s.next c t) t := fun m member => dashes m (by simp [ScanState.marks, member])
    have freeRest : ¬paramMarker <:+: t := fun inside =>
      free (inside.trans (List.suffix_cons c t).isInfix)
    have here := dashes (s.mark c t) (by simp [ScanState.marks])
    rw [ScanState.mark_char] at here
    obtain ⟨quietNext, quoting⟩ := next_quiet quiet here
    rw [ScanState.marks, numberMarks]
    by_cases placeholder : (s.mark c t).isPlaceholder
    · rw [if_pos placeholder]
      obtain ⟨code, char⟩ := char_of_placeholder placeholder
      rw [ScanState.mark_char] at char
      subst char
      have mode := s.mode_of_code '?' t (by decide) code
      have later := ih quietNext rest freeRest (k := k + 1)
      rw [s.next_plain mode '?' t (by decide), mode] at later
      rw [s.next_plain mode '?' t (by decide), mode]
      exact paramsWithin_plain (fun c => isPlain_of_mem_paramName) later
    · rw [if_neg placeholder, ScanState.mark_char]
      have none : paramAtStart? (c :: numberMarks k ((s.next c t).marks t)) = none := by
        apply paramAtStart?_numberMarks
        rw [ScanState.markText_marks]
        exact fun starts => free starts.isInfix
      rw [paramsWithin_cons, namesIn, none, ← quoting, ih quietNext rest freeRest]
      simp

theorem clear_numbered (dashes : DashesOnly {} t) (free : ¬paramMarker <:+: t) :
    Clear (numbered k t) :=
  ⟨dashesOnly_numberMarks dashes, shown_numberMarks rfl dashes free⟩

end Shown
end QueryChain
