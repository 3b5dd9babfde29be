import Mathlib.Tactic.Common
import QueryChain.Sql.Mark

namespace QueryChain

def isPlain (c : Char) : Bool :=
  c ≠ '#' && c ≠ '-' && c ≠ '/' && !isQuote c && c ≠ '(' && c ≠ ')'

theorem role_of_plain (c : Char) (rest : Text) (plain : isPlain c) : Role.of c rest = .plain := by
  simp only [isPlain, Bool.and_eq_true, decide_eq_true_eq, Bool.not_eq_true'] at plain
  obtain ⟨⟨⟨⟨⟨hash, dash⟩, slash⟩, quote⟩, opening⟩, closing⟩ := plain
  have line : opensLineComment c rest = false := by
    unfold opensLineComment
    split
    · exact absurd rfl hash
    · exact absurd rfl dash
    · rfl
  have block : opensBlockComment c rest = false := by simp [opensBlockComment, slash]
  simp [Role.of, line, block, quote, opening, closing]

theorem role_opening (rest : Text) : Role.of '(' rest = .opening := by
  simp [Role.of, opensLineComment, opensBlockComment, isQuote]

theorem role_closing (rest : Text) : Role.of ')' rest = .closing := by
  simp [Role.of, opensLineComment, opensBlockComment, isQuote]

theorem isPlain_of_isBlank (c : Char) (blank : isBlank c) : isPlain c := by
  by_contra special
  have cases : c = '#' ∨ c = '-' ∨ c = '/' ∨ c = '\'' ∨ c = '"' ∨ c = '`' ∨ c = '(' ∨ c = ')' := by
    simp only [isPlain, isQuote] at special
    grind
  rcases cases with rfl | rfl | rfl | rfl | rfl | rfl | rfl | rfl <;> revert blank <;> decide

theorem char_of_opening {c : Char} {rest : Text} (role : Role.of c rest = .opening) : c = '(' := by
  by_contra other
  rw [Role.of] at role
  split_ifs at role

theorem char_of_closing {c : Char} {rest : Text} (role : Role.of c rest = .closing) : c = ')' := by
  by_contra other
  rw [Role.of] at role
  split_ifs at role

namespace ScanState

/-- Where something is open, what follows a character makes no difference to it. -/
theorem rest_indifferent {s : ScanState} (other : s.mode ≠ .code) (c : Char) (t u : Text) :
    s.mark c t = s.mark c u ∧ s.next c t = s.next c u := by
  obtain ⟨mode, depth⟩ := s
  cases mode with
  | code => exact absurd rfl other
  | quote q escaped => cases escaped <;> exact ⟨rfl, rfl⟩
  | lineComment => exact ⟨rfl, rfl⟩
  | opener => exact ⟨rfl, rfl⟩
  | blockComment star => exact ⟨rfl, rfl⟩

def behind (s : ScanState) : Text → Text → ScanState
  | [], _ => s
  | c :: t, rest => (s.next c (t ++ rest)).behind t rest

@[simp] theorem behind_nil (s : ScanState) (rest : Text) : s.behind [] rest = s := rfl

@[simp] theorem length_marks (s : ScanState) (t : Text) : (s.marks t).length = t.length := by
  induction t generalizing s with
  | nil => rfl
  | cons c rest ih => simp [marks, ih]

theorem behind_append (s : ScanState) (t u rest : Text) :
    s.behind (t ++ u) rest = (s.behind t (u ++ rest)).behind u rest := by
  induction t generalizing s with
  | nil => rfl
  | cons c t ih => simp [behind, ih]

theorem drop_marks (s : ScanState) (t u : Text) :
    (s.marks (t ++ u)).drop t.length = (s.behind t u).marks u := by
  induction t generalizing s with
  | nil => rfl
  | cons c t ih => simpa [marks, behind] using ih (s.next c (t ++ u))

theorem marks_append (s : ScanState) (t u : Text) :
    s.marks (t ++ u) = (s.marks (t ++ u)).take t.length ++ (s.behind t u).marks u := by
  rw [← drop_marks, List.take_append_drop]

theorem next_plain (s : ScanState) (code : s.mode = .code) (c : Char) (rest : Text)
    (plain : isPlain c) : s.next c rest = s := by
  simp [next, code, role_of_plain c rest plain]

theorem mark_plain (s : ScanState) (code : s.mode = .code) (c : Char) (rest : Text)
    (plain : isPlain c) : s.mark c rest = ⟨c, s.depth, .code⟩ := by
  simp [mark, code, role_of_plain c rest plain]

theorem behind_plain (s : ScanState) (code : s.mode = .code) (t rest : Text)
    (plain : ∀ c ∈ t, isPlain c) : s.behind t rest = s := by
  induction t with
  | nil => rfl
  | cons c t ih =>
    rw [behind, next_plain s code c _ (plain c (by simp))]
    exact ih fun d member => plain d (by simp [member])

/-- Only the line feed behind a line comment is code where something is open. -/
theorem mode_of_code (s : ScanState) (c : Char) (rest : Text)
    (noFeed : c ≠ '\n') (code : (s.mark c rest).isCode) : s.mode = .code := by
  obtain ⟨mode, depth⟩ := s
  cases mode <;> simp_all [mark, Mark.isCode]

theorem state_of_plain_top (s : ScanState) (c : Char) (rest : Text) (plain : isPlain c)
    (noFeed : c ≠ '\n') (top : (s.mark c rest).isTop) : s = {} := by
  rw [Mark.isTop, Bool.and_eq_true] at top
  have mode := mode_of_code s c rest noFeed top.1
  have depth := top.2
  rw [mark_plain s mode c rest plain] at depth
  obtain ⟨m, d⟩ := s
  simp_all

end ScanState

inductive SameButDashes : Marks → Marks → Prop
  | same (ms : Marks) : SameButDashes ms ms
  | dashes (ms : Marks) (d : Nat) :
      SameButDashes (ms ++ [⟨'-', d, .comment⟩, ⟨'-', d, .comment⟩])
        (ms ++ [⟨'-', d, .code⟩, ⟨'-', d, .code⟩])

theorem SameButDashes.cons {ms ns : Marks} (m : Mark) (rest : SameButDashes ms ns) :
    SameButDashes (m :: ms) (m :: ns) := by
  cases rest with
  | same => exact .same _
  | dashes ms d => exact .dashes (m :: ms) d

theorem role_cut (c : Char) (t u : Text) (line : opensLineComment c (t ++ u) = false)
    (block : opensBlockComment c (t ++ u) = false) :
    Role.of c t = Role.of c (t ++ u) ∨ c = '-' ∧ t = ['-'] := by
  have sameBlock : opensBlockComment c t = false := by
    cases t with
    | nil => simp [opensBlockComment]
    | cons d t => simpa [opensBlockComment] using block
  by_cases opens : opensLineComment c t
  · right
    unfold opensLineComment at opens line
    split at opens
    · simp at line
    · rename_i after
      refine ⟨rfl, ?_⟩
      cases after with
      | nil => rfl
      | cons d after => simp_all
    · cases opens
  · left
    rw [Bool.not_eq_true] at opens
    simp [Role.of, opens, line, sameBlock, block]

namespace ScanState

theorem role_of_no_comment {s : ScanState} {c : Char} {rest : Text} (code : s.mode = .code)
    (free : (s.mark c rest).kind ≠ .comment) :
    opensLineComment c rest = false ∧ opensBlockComment c rest = false := by
  rw [mark, code] at free
  simp only [Role.of] at free
  cases line : opensLineComment c rest <;> cases block : opensBlockComment c rest <;>
    simp_all

def NoComment (s : ScanState) : Prop := s.mode = .code ∨ ∃ q escaped, s.mode = .quote q escaped

theorem NoComment.next {s : ScanState} {c : Char} {rest : Text} (no : s.NoComment)
    (free : (s.mark c rest).kind ≠ .comment) : (s.next c rest).NoComment := by
  rcases no with code | ⟨q, escaped, quote⟩
  · rw [mark, code] at free
    rw [ScanState.next, code]
    cases role : Role.of c rest <;> simp_all [NoComment]
  · rw [ScanState.next, quote]
    cases escaped with
    | true => simp [NoComment]
    | false =>
      simp only
      split
      · simp [NoComment]
      · split
        · simp [NoComment]
        · simp [NoComment, quote]

theorem marks_cut (s : ScanState) (t u : Text) (no : s.NoComment)
    (free : ∀ m ∈ (s.marks (t ++ u)).take t.length, m.kind ≠ .comment) :
    SameButDashes (s.marks t) ((s.marks (t ++ u)).take t.length) := by
  induction t generalizing s with
  | nil => exact .same _
  | cons c t ih =>
    simp only [List.cons_append, marks, List.length_cons, List.take_succ_cons] at free ⊢
    have here := free (s.mark c (t ++ u)) (by simp)
    have rest := ih (s.next c (t ++ u)) (no.next here) fun m member => free m (by simp [member])
    rcases no with code | ⟨q, escaped, quote⟩
    · obtain ⟨line, block⟩ := role_of_no_comment code here
      rcases role_cut c t u line block with role | ⟨rfl, rfl⟩
      · have sameMark : s.mark c t = s.mark c (t ++ u) := by simp [mark, code, role]
        have sameNext : s.next c t = s.next c (t ++ u) := by simp [next, code, role]
        rw [sameMark, sameNext]
        exact rest.cons _
      · have dash (rest : Text) (free : (s.mark '-' rest).kind ≠ .comment) :
            s.mark '-' rest = ⟨'-', s.depth, .code⟩ ∧ s.next '-' rest = s := by
          obtain ⟨line, block⟩ := role_of_no_comment code free
          simp [mark, next, code, Role.of, line, block, isQuote]
        obtain ⟨first, stay⟩ := dash _ here
        simp only [List.singleton_append] at first stay
        have second := (dash u (free _ (by simp [stay, marks]))).1
        have opens : Role.of '-' ['-'] = .lineComment := by decide
        have fresh : s.mark '-' ['-'] :: (s.next '-' ['-']).marks ['-'] =
            [⟨'-', s.depth, .comment⟩, ⟨'-', s.depth, .comment⟩] := by
          simp [marks, mark, next, code, opens]
        simp only [List.singleton_append, first, stay, marks, second, List.length_singleton,
          List.take_succ_cons, List.take_zero]
        simp only [marks] at fresh
        rw [fresh]
        exact .dashes [] s.depth
    · have sameMark : s.mark c t = s.mark c (t ++ u) := by simp [mark, quote]
      have sameNext : s.next c t = s.next c (t ++ u) := by
        cases escaped <;> simp [next, quote]
      rw [sameMark, sameNext]
      exact rest.cons _

end ScanState
end QueryChain
