import Mathlib.Data.List.Forall2
import QueryChain.Proofs.Scan.Letters
import QueryChain.Proofs.Params.Naming
import QueryChain.Proofs.NormalForm.Settled

namespace QueryChain

/-- What may stand in a string literal: it neither ends the literal nor hides its end. -/
def Inert (body : Text) : Prop := '\'' ∉ body ∧ '\\' ∉ body

instance (body : Text) : Decidable (Inert body) := inferInstanceAs (Decidable (_ ∧ _))

theorem inert_nil : Inert [] := by decide

def literal (body : Text) : Text := '\'' :: (body ++ ['\''])

/-- In what two texts may differ: in the way letters are written, and in the body of a literal. -/
structure Weave where
  body : Text
  body' : Text
  inert : Inert body
  inert' : Inert body'
  same : Char → Char → Prop
  refl : ∀ c, same c c
  letter : ∀ {c d}, same c d → sameLetter c d
  /-- Whether the literal may stand in the texts. It takes that no comment is open: then there are
      none but dashes that end a text. -/
  quiet : Prop

/-- Texts that differ in no more than that, read from a state on; the literal stands in code. -/
inductive Woven (w : Weave) : ScanState → Text → Text → Prop
  | nil (s : ScanState) : Woven w s [] []
  | char {s : ScanState} {c d : Char} {t u : Text} (same : w.same c d)
      (dashes : w.quiet → (s.mark c t).kind = .comment → ∀ a ∈ c :: t, a = '-') (rest : Woven w (s.next c t) t u) :
      Woven w s (c :: t) (d :: u)
  | literal {s : ScanState} {t u : Text} (quiet : w.quiet) (code : s.mode = .code) (rest : Woven w s t u) :
      Woven w s (literal w.body ++ t) (literal w.body' ++ u)

def Weave.Bare (w : Weave) : Text → Text → Prop := List.Forall₂ w.same

section Literal

variable {s : ScanState} {b t : Text}

theorem run_body (inert : Inert b) (quote : s.mode = .quote '\'' false) (t : Text) :
    s.marks (b ++ '\'' :: t) = (b ++ ['\'']).map (⟨·, s.depth, .quoted⟩) ++
      ({ s with mode := .code } : ScanState).marks t := by
  induction b with
  | nil => simp [ScanState.marks, ScanState.mark, ScanState.next, quote]
  | cons c b ih =>
    have noQuote : c ≠ '\'' := fun same => inert.1 (by simp [same])
    have noEscape : c ≠ '\\' := fun same => inert.2 (by simp [same])
    have stays : s.next c (b ++ '\'' :: t) = s := by simp [ScanState.next, quote, noQuote, noEscape]
    have rest := ih ⟨fun member => inert.1 (by simp [member]), fun member => inert.2 (by simp [member])⟩
    rw [List.cons_append, ScanState.marks, stays, rest]
    simp [ScanState.mark, quote]

/-- All of a literal is quoted, and nothing is open behind it. -/
theorem marks_literal (inert : Inert b) (code : s.mode = .code) (t : Text) :
    s.marks (literal b ++ t) = (literal b).map (⟨·, s.depth, .quoted⟩) ++ s.marks t := by
  have role : Role.of '\'' (b ++ '\'' :: t) = .quote := by simp [Role.of, opensLineComment, opensBlockComment, isQuote]
  have opened : s.next '\'' (b ++ '\'' :: t) = { s with mode := .quote '\'' false } := by
    simp [ScanState.next, code, role]
  have closed : ({ s with mode := .code } : ScanState) = s := by rw [← code]
  have whole : literal b ++ t = '\'' :: (b ++ '\'' :: t) := by simp [literal]
  rw [whole, ScanState.marks, opened, run_body inert rfl, closed]
  simp [ScanState.mark, code, role, literal]

end Literal

section Agreement

variable {w : Weave} {s s' : ScanState} {c d : Char} {p p' q t u : Text}

theorem ScanState.Proper.of_code (code : s.mode = .code) : s.Proper := by
  intro q escaped quote
  rw [code] at quote
  cases quote

theorem proper_start : ({} : ScanState).Proper := .of_code rfl

theorem sameLetter_refl (c : Char) : sameLetter c c := by simp [sameLetter]

theorem sameLetter_of_eq {c d : Char} (same : c = d) : sameLetter c d := same ▸ sameLetter_refl c

namespace Woven

theorem sameHead (woven : Woven w s t u) : SameHead t u := by
  cases woven with
  | nil => rfl
  | char same _ _ => simpa [SameHead, sameLetter] using w.letter same
  | literal => rfl

theorem sameStart (woven : Woven w s t u) : SameStart t u := by
  refine ⟨woven.sameHead, fun dash => ?_⟩
  cases woven with
  | nil => rfl
  | char _ _ rest => exact rest.sameHead
  | literal => cases dash

theorem next_eq {s₁ : ScanState} (woven : Woven w s₁ t u) (proper : s.Proper) (same : w.same c d) :
    s.next d u = s.next c t := (ScanState.next_of_same proper (w.letter same) woven.sameStart).symm

theorem mark_eq {s₁ : ScanState} (woven : Woven w s₁ t u) (same : w.same c d) :
    s.mark d u = { s.mark c t with char := d } := by
  rw [ScanState.mark_of_same (w.letter same) woven.sameStart]
  conv_lhs => rw [show s.mark d u = { s.mark d u with char := (s.mark d u).char } from rfl, s.mark_char]

end Woven

theorem ScanState.kind_mark (mode : s.mode = s'.mode) : (s.mark c t).kind = (s'.mark c t).kind := by
  rw [ScanState.mark, ScanState.mark, mode]
  split
  · split <;> rfl
  all_goals rfl

theorem Woven.of_mode (woven : Woven w s t u) (mode : s.mode = s'.mode) : Woven w s' t u := by
  induction woven generalizing s' with
  | nil => exact .nil s'
  | char same dashes _ ih =>
    refine .char same (fun quiet comment => dashes quiet ?_) (ih (ScanState.mode_next mode))
    rw [ScanState.kind_mark mode, comment]
  | literal quiet code _ ih => exact .literal quiet (mode.symm.trans code) (ih mode)

/-- Where the literal may not stand it does not matter what is open. -/
theorem Woven.bare (woven : Woven w s t u) (loud : ¬w.quiet) : w.Bare t u := by
  induction woven with
  | nil => exact .nil
  | char same _ _ ih => exact .cons same ih
  | literal quiet => exact absurd quiet loud

theorem Weave.Bare.woven (bare : w.Bare t u) (loud : ¬w.quiet) : Woven w s t u := by
  induction bare generalizing s with
  | nil => exact .nil s
  | cons same _ ih => exact .char same (fun quiet => absurd quiet loud) ih

theorem Weave.Bare.woven_dashes (bare : w.Bare t u) (dashes : ∀ a ∈ t, a = '-') : Woven w s t u := by
  induction bare generalizing s with
  | nil => exact .nil s
  | cons same _ ih => exact .char same (fun _ _ => dashes) (ih fun a member => dashes a (by simp [member]))

theorem Woven.bare_short (woven : Woven w s p p') (short : p = [] ∨ p = ['-']) : w.Bare p p' := by
  cases woven with
  | nil => exact .nil
  | char same _ rest =>
    rcases short with empty | one
    · cases empty
    · cases one
      cases rest with
      | nil => exact .cons same .nil
  | literal =>
    rcases short with empty | one
    · cases empty
    · simp [QueryChain.literal] at one

/-- What is cut off behind a part does not matter to it. -/
theorem Woven.cons_cut (same : w.same c d)
    (dashes : w.quiet → (s.mark c (p ++ q)).kind = .comment → ∀ a ∈ c :: (p ++ q), a = '-')
    (rest : Woven w (s.next c (p ++ q)) p p') : Woven w s (c :: p) (d :: p') := by
  by_cases quiet : w.quiet
  swap
  · exact .char same (fun yes => absurd yes quiet) ((rest.bare quiet).woven quiet)
  have kept (mark : s.mark c p = s.mark c (p ++ q)) (next : s.next c p = s.next c (p ++ q)) :
      Woven w s (c :: p) (d :: p') := by
    refine .char same (fun _ comment a member => ?_) (by rwa [next])
    rw [mark] at comment
    refine dashes quiet comment a ?_
    rw [← List.cons_append]
    exact List.mem_append_left q member
  by_cases code : s.mode = .code
  swap
  · obtain ⟨mark, next⟩ := ScanState.rest_indifferent code c p (p ++ q)
    exact kept mark next
  have comment (role : Role.of c (p ++ q) = .lineComment ∨ Role.of c (p ++ q) = .blockComment) : c = '-' := by
    refine dashes quiet ?_ c (by simp)
    rw [ScanState.mark, code]
    rcases role with line | block
    · rw [line]
    · rw [block]
  rcases role_cut_dash comment with role | ⟨rfl, short⟩
  · obtain ⟨mark, next⟩ := mark_of_role (s := s) role
    exact kept mark next
  · have bare := rest.bare_short short
    have all : ∀ a ∈ '-' :: p, a = '-' := by rcases short with rfl | rfl <;> simp
    have whole : w.Bare ('-' :: p) (d :: p') := .cons same bare
    exact whole.woven_dashes all

end Agreement
end QueryChain
