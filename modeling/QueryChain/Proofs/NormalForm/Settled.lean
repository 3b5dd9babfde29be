import QueryChain.Proofs.Condition.Chain
import QueryChain.Proofs.NormalForm.Basic

namespace QueryChain

section Left

variable {s : ScanState} {c : Char} {t u : Text}

theorem opens_glue (line : opensLineComment c (t ++ ' ' :: u) = false)
    (block : opensBlockComment c (t ++ ' ' :: u) = false) :
    opensLineComment c t = false ∧ opensBlockComment c t = false := by
  constructor
  · by_cases dash : c = '-'
    · subst dash
      have space : isBlank ' ' = true := by decide
      rcases t with _ | ⟨d, _ | ⟨e, t⟩⟩
      · rfl
      · by_cases again : d = '-'
        · subst again
          simp [opensLineComment, space] at line
        · simp [opensLineComment, again]
      · by_cases again : d = '-'
        · subst again
          simpa [opensLineComment] using line
        · simp [opensLineComment, again]
    · by_cases hash : c = '#'
      · subst hash
        simp [opensLineComment] at line
      · simp [opensLineComment, dash]
  · cases t with
    | nil => simp [opensBlockComment]
    | cons d t => simpa [opensBlockComment] using block

/-- What is written in front of a space holds no comment that was not there with the space behind it. -/
theorem ScanState.mark_glue (free : (s.mark c (t ++ ' ' :: u)).kind ≠ .comment) :
    s.mark c t = s.mark c (t ++ ' ' :: u) ∧ s.next c t = s.next c (t ++ ' ' :: u) := by
  by_cases code : s.mode = .code
  · obtain ⟨line, block⟩ := role_of_no_comment code free
    obtain ⟨line', block'⟩ := opens_glue line block
    have role := role_append (loose_space u) line' block'
    rw [mark, mark, next, next, role]
    exact ⟨rfl, rfl⟩
  · exact rest_indifferent code c _ _

theorem free_glue (s : ScanState) (t u : Text) (free : ∀ m ∈ s.marks (t ++ ' ' :: u), m.kind ≠ .comment) :
    ∀ m ∈ s.marks t, m.kind ≠ .comment := by
  induction t generalizing s with
  | nil => simp [ScanState.marks]
  | cons c t ih =>
    rw [List.cons_append, ScanState.marks] at free
    have here := free (s.mark c (t ++ ' ' :: u)) (by simp)
    obtain ⟨mark, next⟩ := ScanState.mark_glue here
    intro m member
    rw [ScanState.marks] at member
    rcases List.mem_cons.mp member with rfl | later
    · rwa [mark]
    · rw [next] at later
      exact ih _ (fun n inRest => free n (List.mem_cons_of_mem _ inRest)) m later

theorem CommentFree.left (free : CommentFree (t ++ ' ' :: u)) : CommentFree t := free_glue {} t u free

end Left
section Ends

variable {s u t : Text}

theorem Spaced.first {ms : Marks} (spaced : Spaced false ms) : ms.head?.any Mark.isGap = false := by
  cases ms with
  | nil => rfl
  | cons m ms =>
    rw [Spaced] at spaced
    split at spaced
    · exact absurd spaced.1 (by decide)
    · rename_i other
      simpa using other

/-- No gap stands next to another one. -/
theorem Spaced.around {free : Bool} {ms ns : Marks} {m : Mark} (spaced : Spaced free (ms ++ m :: ns))
    (gap : m.isGap) : ms.getLast?.any Mark.isGap = false ∧ Spaced false ns := by
  induction ms generalizing free with
  | nil =>
    rw [List.nil_append, Spaced, if_pos gap] at spaced
    exact ⟨rfl, spaced.2.2⟩
  | cons n ms ih =>
    rw [List.cons_append, Spaced] at spaced
    have rest : ∃ free, Spaced free (ms ++ m :: ns) := by
      split at spaced
      · exact ⟨_, spaced.2.2⟩
      · exact ⟨_, spaced⟩
    obtain ⟨free', spaced'⟩ := rest
    obtain ⟨last, behind⟩ := ih spaced'
    refine ⟨?_, behind⟩
    cases ms with
    | nil =>
      rw [List.nil_append] at spaced'
      by_cases isGap : n.isGap
      · rw [if_pos isGap] at spaced
        have start := Spaced.first spaced.2.2
        simp [gap] at start
      · simpa using isGap
    | cons p ms => simpa [List.getLast?_cons_cons] using last

def ScanState.Quoting (s : ScanState) : Prop :=
  s.mode = .code ∨ ∃ q escaped, s.mode = .quote q escaped ∧ isQuote q

theorem ScanState.Quoting.next {s : ScanState} {c : Char} {rest : Text} (quoting : s.Quoting)
    (free : (s.mark c rest).kind ≠ .comment) : (s.next c rest).Quoting := by
  rcases quoting with code | ⟨q, escaped, quote, isQ⟩
  · obtain ⟨line, block⟩ := role_of_no_comment code free
    rw [ScanState.next, code]
    by_cases isQ : isQuote c
    · have role : Role.of c rest = .quote := by simp [Role.of, line, block, isQ]
      rw [role]
      exact .inr ⟨c, false, rfl, isQ⟩
    · cases role : Role.of c rest with
      | lineComment => simp [Role.of, line, block, isQ] at role; split_ifs at role
      | blockComment => simp [Role.of, line, block, isQ] at role; split_ifs at role
      | quote => simp [Role.of, line, block, isQ] at role; split_ifs at role
      | opening | closing => exact .inl rfl
      | plain => exact .inl code
  · rw [ScanState.next, quote]
    cases escaped with
    | true => exact .inr ⟨q, false, rfl, isQ⟩
    | false =>
      simp only
      split_ifs
      · exact .inr ⟨q, true, rfl, isQ⟩
      · exact .inl rfl
      · exact .inr ⟨q, false, quote, isQ⟩

theorem Leads.last_blank {s e : ScanState} {t : Text} (leads : Leads s t e) (quoting : s.Quoting)
    (closed : e.mode = .code) {m : Mark} (last : (s.marks t).getLast? = some m) (blank : isBlank m.char) :
    m.isGap := by
  induction leads with
  | nil => cases last
  | @cons s e c rest free opened later ih =>
    cases rest with
    | cons d rest =>
      apply ih (quoting.next free) closed
      rwa [ScanState.marks, ScanState.marks, List.getLast?_cons_cons] at last
    | nil =>
      obtain rfl : s.mark c [] = m := by simpa [ScanState.marks] using last
      rw [ScanState.mark_char] at blank
      have ended := later.run
      rw [ScanState.run] at ended
      rw [← ended] at closed
      rcases quoting with code | ⟨q, escaped, quote, isQ⟩
      · rw [s.mark_plain code c [] (isPlain_of_isBlank c blank)]
        simp [Mark.isGap, blank]
      · rw [ScanState.next, quote] at closed
        cases escaped with
        | true => cases closed
        | false =>
          simp only at closed
          split_ifs at closed with escape close
          · subst close
            rw [noQuote_of_blank blank] at isQ
            cases isQ
          · rw [quote] at closed
            cases closed

theorem isGap_of_first {c : Char} (blank : isBlank c) (rest : Text) :
    (scan (c :: rest)).head?.any Mark.isGap := by
  rw [scan_plain (isPlain_of_isBlank c blank)]
  simp [Mark.isGap, blank]

theorem head_of_spaced (spaced : Spaced false (scan t)) : ∀ c, t.head? = some c → isBlank c = false := by
  intro c first
  obtain ⟨rest, rfl⟩ := List.head?_eq_some_iff.mp first
  by_contra blank
  have gap := isGap_of_first (by simpa using blank) rest
  rw [spaced.first] at gap
  cases gap

theorem getLast?_scan {c : Char} (last : t.getLast? = some c) :
    ∃ m, (scan t).getLast? = some m ∧ m.char = c := by
  rw [← markText_scan t, markText, List.getLast?_map, Option.map_eq_some_iff] at last
  exact last

/-- The part of a spaced text in front of one of its spaces has no blank at either end. -/
theorem Solid.trim_left (solid : Solid s) (spaced : Spaced false (scan (s ++ ' ' :: u))) :
    trim s = s ∧ Spaced false (scan u) := by
  rw [solid.scan_glue] at spaced
  obtain ⟨last, behind⟩ := spaced.around rfl
  refine ⟨trim_eq_self (head_of_spaced spaced.left) ?_, behind⟩
  intro c ending
  obtain ⟨m, lastMark, rfl⟩ := getLast?_scan ending
  by_contra blank
  have gap := Leads.last_blank solid (.inl rfl) rfl lastMark (by simpa using blank)
  rw [lastMark, Option.any_some, gap] at last
  cases last

theorem getLast?_of_dropSemicolons (kept : dropSemicolons t = t) :
    ∀ c, t.getLast? = some c → c ≠ ';' ∧ isBlank c = false := by
  intro c last
  have stop := List.head?_dropWhile_not (fun c => c == ';' || isBlank c) t.reverse
  rw [dropSemicolons, dropEndWhile] at kept
  rw [← List.head?_reverse, ← kept, List.reverse_reverse] at last
  rw [last] at stop
  simpa using stop

theorem IsNormal.trim (normal : IsNormal t) : trim t = t :=
  trim_eq_self (head_of_spaced normal.spaced)
    fun c last => (getLast?_of_dropSemicolons normal.noSemicolon c last).2

end Ends

/-- The operands of a chain in normal form are complete texts with no blanks around them. -/
theorem parts_of_chain (first : Text) (rest : List (Connective × Text))
    (free : CommentFree (first ++ Chain.restText rest))
    (spaced : Spaced false (scan (first ++ Chain.restText rest)))
    (last : ∀ c, (first ++ Chain.restText rest).getLast? = some c → isBlank c = false)
    (balanced : ∀ a ∈ first :: rest.map Prod.snd, a ≠ [] ∧ Balanced a) :
    ∀ a ∈ first :: rest.map Prod.snd, Solid a ∧ trim a = a := by
  induction rest generalizing first with
  | nil =>
    rw [Chain.restText, List.append_nil] at free spaced last
    intro a member
    obtain rfl : a = first := by simpa using member
    exact ⟨(balanced a member).2.solid free, trim_eq_self (head_of_spaced spaced) last⟩
  | cons p rest ih =>
    obtain ⟨k, a⟩ := p
    rw [Chain.restText_cons] at free spaced last
    have solid := (balanced first (by simp)).2.solid free.left
    obtain ⟨trimmed, spacedRest⟩ := solid.trim_left spaced
    obtain ⟨-, spacedLater⟩ := (solid_connective k).trim_left spacedRest
    have full : a ++ Chain.restText rest ≠ [] := by
      intro empty
      exact (balanced a (by simp)).1 (List.append_eq_nil_iff.mp empty).1
    have freeLater : CommentFree (a ++ Chain.restText rest) := by
      intro m member
      apply free
      rw [solid.scan_glue, (solid_connective k).scan_glue]
      simp [member]
    have later := ih a freeLater spacedLater
      (by
        intro c ending
        apply last
        rw [getLast?_append_of_ne_nil (List.cons_ne_nil _ _), ← List.singleton_append,
          getLast?_append_of_ne_nil (by simp), getLast?_append_of_ne_nil (List.cons_ne_nil _ _),
          ← List.singleton_append, getLast?_append_of_ne_nil full]
        exact ending)
      fun b member => balanced b (List.mem_cons_of_mem _ member)
    intro b member
    rcases List.mem_cons.mp member with rfl | inRest
    · exact ⟨solid, trimmed⟩
    · exact later b inRest

theorem untouched_of_chain (first : Text) (rest : List (Connective × Text))
    (solid : ∀ a ∈ first :: rest.map Prod.snd, Solid a) (untouched : Untouched (first ++ Chain.restText rest)) :
    ∀ a ∈ first :: rest.map Prod.snd, Untouched a := by
  have here : Untouched first := by
    rw [Untouched, (solid first (by simp)).scan_append (loose_restText rest)] at untouched
    exact untouched.left_of_append
  induction rest generalizing first with
  | nil =>
    intro a member
    obtain rfl : a = first := by simpa using member
    exact here
  | cons p rest ih =>
    obtain ⟨k, a⟩ := p
    rw [Chain.restText_cons, Untouched, (solid first (by simp)).scan_glue,
      (solid_connective k).scan_glue] at untouched
    have later : Untouched (a ++ Chain.restText rest) :=
      untouched.right_of_append.tail.right_of_append.tail
    have solidLater (b : Text) (member : b ∈ a :: rest.map Prod.snd) : Solid b :=
      solid b (List.mem_cons_of_mem _ member)
    have next : Untouched a := by
      rw [Untouched, (solidLater a (by simp)).scan_append (loose_restText rest)] at later
      exact later.left_of_append
    intro b member
    rcases List.mem_cons.mp member with rfl | inRest
    · exact here
    · exact ih a solidLater later next b inRest

end QueryChain
