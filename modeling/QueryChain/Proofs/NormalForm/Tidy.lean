import Mathlib.Logic.Function.Iterate
import QueryChain.Proofs.Scan.Letters
import QueryChain.Proofs.NormalForm.Settled

namespace QueryChain

variable {t : Text} {front back : Marks} {a b m : Mark}

/-- A text from which a clean-up has nothing to take, told by its marks. -/
structure Tidy (t : Text) : Prop where
  fixed : normalize t = t
  commentFree : ∀ m ∈ scan t, m.kind ≠ .comment
  blanks : ∀ front m back, scan t = front ++ m :: back → m.kind ≠ .quoted → isBlank m.char →
    m.char = ' ' ∧ (∃ n ∈ front.getLast?, isBlank n.char = false) ∧ ∃ n ∈ back.head?, isBlank n.char = false
  start : t.head?.any isBlank = false
  stop : t.getLast?.any (fun c => isBlank c || c == ';') = false
  noStray : ∀ i j, ¬StrayNull t i j

section Passes

/-- Every pass that changes the text makes it lighter, so that the passes come to an end. -/
theorem iterate_cleanUp (t : Text) : ∃ n ≤ weight t, ∀ k ≥ n, cleanUp^[k] t = normalize t := by
  fun_induction normalize t with
  | case1 t fixed => exact ⟨0, Nat.zero_le _, fun k _ => Function.iterate_fixed fixed k⟩
  | case2 t changed ih =>
    obtain ⟨n, short, settled⟩ := ih
    obtain ⟨le, eq⟩ := weight_cleanUp t
    have lighter : weight (cleanUp t) < weight t := Nat.lt_of_le_of_ne le fun same => changed (eq same)
    refine ⟨n + 1, by omega, fun k later => ?_⟩
    obtain ⟨k, rfl⟩ : ∃ l, k = l + 1 := ⟨k - 1, by omega⟩
    exact settled k (by omega)

theorem weight_le (t : Text) : weight t ≤ 2 * t.length := by
  induction t with
  | nil => simp
  | cons c t ih =>
    rw [weight_cons, List.length_cons]
    split <;> omega

end Passes
section Neighbours

theorem isBlank_of_isQuote {c : Char} (quote : isQuote c) : isBlank c = false :=
  Bool.eq_false_iff.mpr fun blank => by simp [noQuote_of_blank blank] at quote

theorem kind_quoted_iff {s : ScanState} {c : Char} {u : Text} : (s.mark c u).kind = .quoted ↔
    (∃ q escaped, s.mode = .quote q escaped) ∨ s.mode = .code ∧ Role.of c u = .quote := by
  obtain ⟨mode, depth⟩ := s
  cases mode with
  | code => cases role : Role.of c u <;> simp [ScanState.mark, role]
  | lineComment => by_cases feed : c = '\n' <;> simp [ScanState.mark, feed]
  | quote q escaped => simp [ScanState.mark]
  | opener => simp [ScanState.mark]
  | blockComment star => simp [ScanState.mark]

theorem isQuote_of_role_quote {c : Char} {u : Text} (role : Role.of c u = .quote) : isQuote c := by
  rcases @isQuote_of_role c u with quote | line | block
  · rw [quote, role]
    rfl
  · rw [role] at line
    cases line
  · rw [role] at block
    cases block

theorem isQuote_of_closed {s : ScanState} {c : Char} {u : Text} (proper : s.Proper)
    (quoted : (s.mark c u).kind = .quoted) (closed : ∀ q escaped, (s.next c u).mode ≠ .quote q escaped) :
    isQuote c := by
  rcases kind_quoted_iff.mp quoted with ⟨q, escaped, mode⟩ | ⟨-, role⟩
  · rw [ScanState.next, mode] at closed
    cases escaped with
    | true => exact absurd rfl (closed q false)
    | false =>
      dsimp only at closed
      by_cases escape : c = '\\' ∧ q ≠ '`'
      · rw [if_pos escape] at closed
        exact absurd rfl (closed q true)
      · rw [if_neg escape] at closed
        by_cases ends : c = q
        · rw [ends]
          exact proper q false mode
        · rw [if_neg ends] at closed
          exact absurd mode (closed q false)
  · exact isQuote_of_role_quote role

theorem isQuote_of_opened {s : ScanState} {c d : Char} {u : Text} (code : (s.mark c (d :: u)).kind = .code)
    (quoted : ((s.next c (d :: u)).mark d u).kind = .quoted) : isQuote d := by
  rcases kind_quoted_iff.mp quoted with ⟨q, escaped, opened⟩ | ⟨-, role⟩
  · obtain ⟨mode, depth⟩ := s
    cases mode with
    | code => cases role : Role.of c (d :: u) <;> simp [ScanState.mark, ScanState.next, role] at code opened
    | lineComment => by_cases feed : c = '\n' <;> simp [ScanState.next, feed] at opened
    | quote q escaped => simp [ScanState.mark] at code
    | opener => simp [ScanState.next] at opened
    | blockComment star => simp [ScanState.mark] at code
  · exact isQuote_of_role_quote role

theorem isQuote_at_border {s : ScanState} (proper : s.Proper) {u : Text}
    (parts : s.marks u = front ++ a :: b :: back) :
    (a.kind = .quoted → b.kind = .code → isQuote a.char) ∧ (a.kind = .code → b.kind = .quoted → isQuote b.char) := by
  induction front generalizing s u with
  | nil =>
    rcases u with _ | ⟨c, _ | ⟨d, rest⟩⟩
    · cases parts
    · cases parts
    · cases parts
      simp only [ScanState.mark_char]
      refine ⟨fun quoted code => isQuote_of_closed proper quoted fun q escaped open_ => ?_, isQuote_of_opened⟩
      rw [kind_quoted_iff.mpr (.inl ⟨q, escaped, open_⟩)] at code
      cases code
  | cons n front ih =>
    cases u with
    | nil => cases parts
    | cons c rest => exact ih (proper.next c rest) (List.cons.inj parts).2

end Neighbours
section Spaced

theorem isBlank_of_code {m : Mark} (code : m.kind = .code) (inked : m.isGap = false) : isBlank m.char = false := by
  simpa [Mark.isGap, code] using inked

theorem CommentFree.kind_cases (free : CommentFree t) (member : m ∈ scan t) : m.kind = .code ∨ m.kind = .quoted := by
  cases kind : m.kind with
  | code => exact .inl rfl
  | quoted => exact .inr rfl
  | comment => exact absurd kind (free m member)

/-- The character beside a blank that is not quoted is code, and no gap, or a quote character. -/
theorem IsNormal.blank_alone (normal : IsNormal t) (parts : scan t = front ++ m :: back)
    (free : m.kind ≠ .quoted) (blank : isBlank m.char) :
    m.char = ' ' ∧ (∃ n ∈ front.getLast?, isBlank n.char = false) ∧ ∃ n ∈ back.head?, isBlank n.char = false := by
  have code : m.kind = .code := (normal.commentFree.kind_cases (by simp [parts])).resolve_right free
  have gap : m.isGap := by simp [Mark.isGap, code, blank]
  have proper : ({} : ScanState).Proper := by simp [ScanState.Proper]
  have spaced := normal.spaced
  have space : m.char = ' ' := spaced.space m (by simp [parts]) gap
  rw [parts] at spaced
  obtain ⟨before, behind⟩ := spaced.around gap
  refine ⟨space, ?_, ?_⟩
  · rcases List.eq_nil_or_concat front with rfl | ⟨first, n, rfl⟩
    · have start := spaced.first
      simp [gap] at start
    · refine ⟨n, by simp, ?_⟩
      rcases normal.commentFree.kind_cases (m := n) (by simp [parts]) with inCode | quoted
      · exact isBlank_of_code inCode (by simpa using before)
      · have border : scan t = first ++ n :: m :: back := by simpa using parts
        exact isBlank_of_isQuote ((isQuote_at_border proper border).1 quoted code)
  · cases back with
    | nil =>
      have last : t.getLast? = some m.char := by rw [← markText_scan t, parts]; simp [markText]
      rw [(getLast?_of_dropSemicolons normal.noSemicolon _ last).2] at blank
      cases blank
    | cons n rest =>
      refine ⟨n, rfl, ?_⟩
      rcases normal.commentFree.kind_cases (m := n) (by simp [parts]) with inCode | quoted
      · exact isBlank_of_code inCode (by simpa using behind.first)
      · exact isBlank_of_isQuote ((isQuote_at_border proper parts).2 code quoted)

end Spaced

theorem IsNormal.tidy (normal : IsNormal t) (fixed : normalize t = t) : Tidy t where
  fixed
  commentFree := normal.commentFree
  blanks _ _ _ parts free blank := normal.blank_alone parts free blank
  start := any_eq_false (head_of_spaced normal.spaced)
  stop := any_eq_false fun c last => by
    simpa [and_comm] using getLast?_of_dropSemicolons normal.noSemicolon c last
  noStray := dropStrayNull?_eq_none normal.noStray

/-- The passes of a clean-up come to an end on every text, balanced or not, and what they end in is tidy. -/
theorem normalize_ends_tidy (t : Text) :
    (∃ n ≤ 2 * t.length, ∀ k ≥ n, cleanUp^[k] t = normalize t) ∧ Tidy (normalize t) := by
  refine ⟨?_, (isNormal_normalize t).tidy ?_⟩
  · obtain ⟨n, short, settled⟩ := iterate_cleanUp t
    exact ⟨n, short.trans (weight_le t), settled⟩
  · rw [normalize.eq_def (normalize t), if_pos (cleanUp_normalize t)]

end QueryChain
