import Mathlib.Data.Option.Basic
import QueryChain.Proofs.Params.Numbering
import QueryChain.Sql.NormalForm

namespace QueryChain

theorem cleanUp_normalize (t : Text) : cleanUp (normalize t) = normalize t := by
  fun_induction normalize t with
  | case1 t fixed => exact fixed
  | case2 t changed ih => exact ih

/-- A text in normal form, taken apart by the steps that bring it there. -/
structure IsNormal (t : Text) : Prop where
  collapsed : collapse t = t
  noSemicolon : dropSemicolons t = t
  noStray : dropStrayNull? t = none

theorem isNormal_of_cleanUp {t : Text} (fixed : cleanUp t = t) : IsNormal t := by
  obtain ⟨le, eq⟩ := weight_collapseMarks false false (scan t)
  rw [markText_scan, ← collapse] at le eq
  obtain ⟨le', eq'⟩ := weight_dropEndWhile (fun c => c == ';' || isBlank c) (collapse t)
  rw [← dropSemicolons] at le' eq'
  have same := congrArg weight fixed
  unfold cleanUp dropStrayNull at same
  simp only [Bool.toNat_false, Nat.zero_add, Bool.false_eq_true, if_false, List.nil_append] at le eq
  cases stray : dropStrayNull? (dropSemicolons (collapse t)) with
  | none =>
    rw [stray, Option.getD_none] at same
    have collapsed := eq (by omega)
    have dropped := eq' (by omega)
    rw [collapsed] at dropped stray
    rw [dropped] at stray
    exact ⟨collapsed, dropped, stray⟩
  | some u =>
    have lighter := weight_dropStrayNull? stray
    rw [stray, Option.getD_some] at same
    omega

theorem isNormal_normalize (t : Text) : IsNormal (normalize t) := isNormal_of_cleanUp (cleanUp_normalize t)

theorem isNormal_of_normalize {t : Text} (fixed : normalize t = t) : IsNormal t :=
  fixed ▸ isNormal_normalize t

def Spaced (free : Bool) : Marks → Prop
  | [] => True
  | m :: ms => if m.isGap then free ∧ m.char = ' ' ∧ Spaced false ms else Spaced true ms

theorem weight_collapseMarks_start (ms : Marks) :
    weight (collapseMarks true false ms) ≤ weight (markText ms) := by
  induction ms with
  | nil => simp [collapseMarks]
  | cons m ms ih =>
    have cons : markText (m :: ms) = m.char :: markText ms := rfl
    rw [collapseMarks, cons, weight_cons]
    split
    · exact ih.trans (Nat.le_add_left _ _)
    · have rest := (weight_collapseMarks false true ms).1
      simp only [Bool.toNat_false, Nat.zero_add] at rest
      simp only [Bool.and_false, Bool.false_eq_true, if_false, weight_cons]
      omega

theorem spaced_of_weight (gap inner : Bool) (ms : Marks)
    (heavy : gap.toNat + weight (markText ms) ≤ weight (collapseMarks gap inner ms)) :
    Spaced (inner && !gap) ms := by
  induction ms generalizing gap inner with
  | nil => trivial
  | cons m ms ih =>
    have cons : markText (m :: ms) = m.char :: markText ms := rfl
    rw [collapseMarks, cons, weight_cons] at heavy
    rw [Spaced]
    by_cases isGap : m.isGap
    · rw [if_pos isGap] at heavy ⊢
      have light := (weight_collapseMarks true inner ms).1
      simp only [Bool.toNat_true] at light
      have space : m.char = ' ' := by
        by_contra other
        rw [if_neg other] at heavy
        omega
      rw [if_pos space] at heavy
      have noGap : gap = false := by
        cases gap with
        | false => rfl
        | true => simp only [Bool.toNat_true] at heavy; omega
      subst noGap
      simp only [Bool.toNat_false, Nat.zero_add] at heavy
      have rest := ih true inner (by simpa using heavy)
      refine ⟨?_, space, by simpa using rest⟩
      cases inner with
      | true => rfl
      | false =>
        have start := weight_collapseMarks_start ms
        omega
    · rw [if_neg isGap] at heavy ⊢
      have rest : weight (markText ms) ≤ weight (collapseMarks false true ms) := by
        cases gap <;> cases inner <;> simp at heavy <;> omega
      simpa using ih false true (by simpa using rest)

theorem Spaced.space {free : Bool} {ms : Marks} (spaced : Spaced free ms) :
    ∀ m ∈ ms, m.isGap → m.char = ' ' := by
  induction ms generalizing free with
  | nil => simp
  | cons m ms ih =>
    intro n member isGap
    rw [Spaced] at spaced
    rcases List.mem_cons.mp member with rfl | later
    · rw [if_pos isGap] at spaced
      exact spaced.2.1
    · split at spaced
      · exact ih spaced.2.2 n later isGap
      · exact ih spaced n later isGap

theorem Spaced.left {free : Bool} {ms ns : Marks} (spaced : Spaced free (ms ++ ns)) :
    Spaced free ms := by
  induction ms generalizing free with
  | nil => trivial
  | cons m ms ih =>
    rw [List.cons_append, Spaced] at spaced
    rw [Spaced]
    split at spaced
    · rename_i isGap
      rw [if_pos isGap]
      exact ⟨spaced.1, spaced.2.1, ih spaced.2.2⟩
    · rename_i other
      rw [if_neg other]
      exact ih spaced

theorem Spaced.right {free : Bool} {ms ns : Marks} (spaced : Spaced free (ms ++ ns))
    (starts : ns.head?.any Mark.isGap = false) : Spaced false ns := by
  induction ms generalizing free with
  | nil =>
    cases ns with
    | nil => trivial
    | cons n ns =>
      rw [List.nil_append, Spaced] at spaced
      rw [Spaced]
      have other : ¬n.isGap := by simpa using starts
      rw [if_neg other] at spaced ⊢
      exact spaced
  | cons m ms ih =>
    rw [List.cons_append, Spaced] at spaced
    split at spaced
    · exact ih spaced.2.2
    · exact ih spaced

/-- Collapsing takes at most a space off the end of a spaced text. -/
theorem collapseMarks_of_spaced (gap inner : Bool) (ms : Marks) (started : gap → inner)
    (spaced : Spaced (inner && !gap) ms) :
    ∃ back : Text, (back = [] ∨ back = [' ']) ∧
      collapseMarks gap inner ms ++ back = (if gap then [' '] else []) ++ markText ms := by
  induction ms generalizing gap inner with
  | nil =>
    cases gap with
    | false => exact ⟨[], .inl rfl, rfl⟩
    | true => exact ⟨[' '], .inr rfl, rfl⟩
  | cons m ms ih =>
    have cons : markText (m :: ms) = m.char :: markText ms := rfl
    rw [Spaced] at spaced
    rw [collapseMarks, cons]
    by_cases isGap : m.isGap
    · rw [if_pos isGap] at spaced ⊢
      obtain ⟨free, space, rest⟩ := spaced
      simp only [Bool.and_eq_true, Bool.not_eq_true'] at free
      obtain ⟨rfl, rfl⟩ := free
      obtain ⟨back, small, whole⟩ := ih true true (by simp) (by simpa using rest)
      exact ⟨back, small, by simpa [space] using whole⟩
    · rw [if_neg isGap] at spaced ⊢
      obtain ⟨back, small, whole⟩ := ih false true (by simp) (by simpa using spaced)
      simp only [Bool.false_eq_true, if_false, List.nil_append] at whole
      refine ⟨back, small, ?_⟩
      cases gap with
      | false => simp [whole]
      | true => simp [started rfl, whole]

/-- Gaps at the end leave nothing behind. -/
theorem collapseMarks_gaps (gap inner : Bool) (ms gaps : Marks) (all : ∀ m ∈ gaps, m.isGap) :
    collapseMarks gap inner (ms ++ gaps) = collapseMarks gap inner ms := by
  induction ms generalizing gap inner with
  | nil =>
    rw [List.nil_append, collapseMarks]
    induction gaps generalizing gap with
    | nil => rfl
    | cons m gaps ih =>
      rw [collapseMarks, if_pos (all m (by simp))]
      exact ih (fun n member => all n (by simp [member])) _
  | cons m ms ih => simp only [List.cons_append, collapseMarks, ih]

theorem no_comment_of_spaces (s : ScanState) (t : Text) (no : s.NoComment)
    (spaces : ∀ m ∈ s.marks t, m.kind = .comment → m.char = ' ') :
    ∀ m ∈ s.marks t, m.kind ≠ .comment := by
  induction t generalizing s with
  | nil => simp [ScanState.marks]
  | cons c t ih =>
    have here : (s.mark c t).kind ≠ .comment := by
      intro comment
      have space := spaces _ (by simp [ScanState.marks]) comment
      rw [ScanState.mark_char] at space
      subst space
      rcases no with code | ⟨q, escaped, quote⟩
      · rw [ScanState.mark_plain s code ' ' t (by decide)] at comment
        cases comment
      · rw [ScanState.mark, quote] at comment
        cases comment
    intro m member
    rcases List.mem_cons.mp member with rfl | later
    · exact here
    · exact ih _ (no.next here) (fun n inRest => spaces n (by simp [ScanState.marks, inRest])) m later

theorem IsNormal.spaced {t : Text} (normal : IsNormal t) : Spaced false (scan t) := by
  apply spaced_of_weight false false
  rw [← collapse, normal.collapsed]
  simp

theorem IsNormal.commentFree {t : Text} (normal : IsNormal t) : CommentFree t := by
  apply no_comment_of_spaces {} t (.inl rfl)
  intro m member comment
  exact normal.spaced.space m member (by simp [Mark.isGap, comment])

section Kept

variable {w t : Text} {gap inner : Bool} {ms : Marks}

theorem collapseMarks_gap (ms : Marks) : collapseMarks true true ms = [] ∨
    ∃ rest, collapseMarks true true ms = ' ' :: rest := by
  induction ms with
  | nil => exact .inl rfl
  | cons m ms ih =>
    rw [collapseMarks]
    by_cases isGap : m.isGap
    · rw [if_pos isGap]
      exact ih
    · rw [if_neg isGap]
      exact .inr ⟨_, rfl⟩

theorem prefix_of_collapseMarks (no : ' ' ∉ w) (starts : w <+: collapseMarks false true ms) :
    w <+: markText ms := by
  induction w generalizing ms with
  | nil => exact List.nil_prefix
  | cons c w ih =>
    cases ms with
    | nil => exact starts
    | cons m ms =>
      rw [collapseMarks] at starts
      by_cases isGap : m.isGap
      · rw [if_pos isGap] at starts
        rcases collapseMarks_gap ms with empty | ⟨rest, space⟩
        · rw [empty] at starts
          exact absurd (List.prefix_nil.mp starts) (by simp)
        · rw [space] at starts
          obtain ⟨rfl, -⟩ := List.cons_prefix_cons.mp starts
          exact absurd List.mem_cons_self no
      · rw [if_neg isGap] at starts
        obtain ⟨rfl, rest⟩ := List.cons_prefix_cons.mp starts
        exact List.cons_prefix_cons.mpr ⟨rfl, ih (fun member => no (by simp [member])) rest⟩

theorem infix_of_collapseMarks (full : w ≠ []) (no : ' ' ∉ w)
    (inside : w <:+: collapseMarks gap inner ms) : w <:+: markText ms := by
  induction ms generalizing gap inner with
  | nil => exact inside
  | cons m ms ih =>
    have later (rest : w <:+: markText ms) : w <:+: markText (m :: ms) :=
      rest.trans (List.suffix_cons m.char _).isInfix
    have here (inside : w <:+: m.char :: collapseMarks false true ms) : w <:+: markText (m :: ms) := by
      rcases List.infix_cons_iff.mp inside with starts | rest
      · cases w with
        | nil => exact absurd rfl full
        | cons c w =>
          obtain ⟨rfl, behind⟩ := List.cons_prefix_cons.mp starts
          exact (List.cons_prefix_cons.mpr
            ⟨rfl, prefix_of_collapseMarks (fun member => no (by simp [member])) behind⟩).isInfix
      · exact later (ih rest)
    rw [collapseMarks] at inside
    by_cases isGap : m.isGap
    · rw [if_pos isGap] at inside
      exact later (ih inside)
    rw [if_neg isGap] at inside
    by_cases spaced : gap && inner
    · rw [if_pos spaced] at inside
      rcases List.infix_cons_iff.mp inside with starts | rest
      · cases w with
        | nil => exact absurd rfl full
        | cons c w =>
          obtain ⟨rfl, -⟩ := List.cons_prefix_cons.mp starts
          exact absurd List.mem_cons_self no
      · exact here rest
    · rw [if_neg spaced] at inside
      exact here inside

theorem infix_of_dropStrayNull (noSpace : ' ' ∉ w) (noClosing : ')' ∉ w)
    (inside : w <:+: dropStrayNull t) : w <:+: t := by
  rw [dropStrayNull] at inside
  cases dropped : dropStrayNull? t with
  | none =>
    rw [dropped] at inside
    exact inside
  | some u =>
    rw [dropped, Option.getD_some] at inside
    obtain ⟨⟨head, rest⟩, found, rfl⟩ := Option.map_eq_some_iff.mp dropped
    obtain ⟨c, parts, answer⟩ := Cursor.seekFrom_eq_some found
    simp only [Option.bind_eq_bind, Option.bind_eq_some_iff] at answer
    obtain ⟨_, -, after, match_, _, -, last⟩ := answer
    cases last
    obtain ⟨spelling, text, -⟩ := Cursor.keyword?_eq_some match_
    rw [show (Cursor.start t).marks = scan t from rfl, markText_scan, text] at parts
    have front : trimEnd head <:+: t := by
      have start : trimEnd head <+: head := ⟨_, dropEndWhile_append_takeWhile isBlank head⟩
      exact (start.trans ⟨spelling ++ after.text, parts.symm⟩).isInfix
    have back : trimStart after.text <:+: t :=
      ((List.dropWhile_suffix _).trans ⟨head ++ spelling, by rw [parts, List.append_assoc]⟩).isInfix
    dsimp only at inside
    rw [spaceBefore] at inside
    by_cases close : (trimStart after.text).isEmpty || (trimStart after.text).head? == some ')'
    · rw [if_pos close, List.append_nil] at inside
      cases rest : trimStart after.text with
      | nil =>
        rw [rest, List.append_nil] at inside
        exact inside.trans front
      | cons d more =>
        rw [rest] at close inside back
        obtain rfl : d = ')' := by simpa using close
        rcases infix_of_append_cons noClosing inside with first | second
        · exact first.trans front
        · exact (second.trans (List.suffix_cons _ _).isInfix).trans back
    · rw [if_neg close, List.append_assoc] at inside
      rcases infix_of_append_cons noSpace inside with first | second
      · exact first.trans front
      · exact second.trans back

/-- A normal form has no word in it that was not there before. -/
theorem infix_of_normalize (full : w ≠ []) (noSpace : ' ' ∉ w) (noClosing : ')' ∉ w) (t : Text)
    (inside : w <:+: normalize t) : w <:+: t := by
  fun_induction normalize t with
  | case1 t => exact inside
  | case2 t changed ih =>
    have cleaned := infix_of_dropStrayNull noSpace noClosing (ih inside)
    have shortened : dropSemicolons (collapse t) <+: collapse t :=
      ⟨_, dropEndWhile_append_takeWhile _ (collapse t)⟩
    have collapsed := cleaned.trans shortened.isInfix
    rw [collapse] at collapsed
    have original := infix_of_collapseMarks full noSpace collapsed
    rwa [markText_scan] at original

end Kept
end QueryChain
