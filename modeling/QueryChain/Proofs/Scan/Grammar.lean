import QueryChain.Proofs.Scan.Parted

namespace QueryChain

def StartsLineComment (t : Text) : Prop :=
  t.head? = some '#' ∨ ∃ u, t = '-' :: '-' :: u ∧ ∀ c ∈ u.head?, isBlank c

def StartsBlockComment (t : Text) : Prop := ∃ u, t = '/' :: '*' :: u

def lastBackslashes (t : Text) : Nat := (t.reverse.takeWhile (· = '\\')).length

def Escapes (quote : Char) (t : Text) : Prop := quote ≠ '`' ∧ lastBackslashes t % 2 = 1

/-- The text of a quoted section, up to the first quote character that ends it. -/
def QuoteBody (quote : Char) (body : Text) : Prop :=
  ¬Escapes quote body ∧ ∀ front back, body = front ++ quote :: back → Escapes quote front

/-- The text of a block comment, up to the first star and slash behind its opener, that the database
    does not read as SQL. -/
def CommentBody (body : Text) : Prop :=
  ¬['*', '/'] <:+: body ++ ['*'] ∧ ∀ c ∈ body.head?, c ≠ '!' ∧ c ≠ '+'

/-- From the first text a sequence of comments, quoted sections, groups and other characters can be
    read so that the second is left. -/
inductive Reads : Text → Text → Prop
  | done (t : Text) : Reads t t
  | lineComment {t u : Text} (starts : StartsLineComment t) (later : Reads (t.dropWhile (· ≠ '\n')) u) :
      Reads t u
  | blockComment {body t u : Text} (isBody : CommentBody body) (later : Reads t u) :
      Reads ('/' :: '*' :: (body ++ '*' :: '/' :: t)) u
  | quote {q : Char} {body t u : Text} (opens : isQuote q) (isBody : QuoteBody q body) (later : Reads t u) :
      Reads (q :: (body ++ q :: t)) u
  | group {t rest u : Text} (inside : Reads t (')' :: rest)) (later : Reads rest u) : Reads ('(' :: t) u
  | other {c : Char} {t u : Text} (noLine : ¬StartsLineComment (c :: t)) (noBlock : ¬StartsBlockComment (c :: t))
      (noQuote : ¬isQuote c) (noOpening : c ≠ '(') (noClosing : c ≠ ')') (later : Reads t u) : Reads (c :: t) u

def FaultFree (s : ScanState) : Text → Prop
  | [] => (s.mode = .code ∨ s.mode = .lineComment) ∧ s.depth = 0
  | c :: t =>
    ((s.mark c t).isCode → c = ')' → s.depth ≠ 0) ∧ (s.mode = .code → ¬opensExecutable c t) ∧
      FaultFree (s.next c t) t

section Fault

theorem Survey.fault?_run_eq_none_iff (v : Survey) (t : Text) : (v.run t).fault? = none ↔
    v.strayClose = none ∧ v.executable = none ∧ FaultFree v.state t := by
  induction t generalizing v with
  | nil =>
    rw [run, fault?, FaultFree]
    cases v.strayClose with
    | some n => simp
    | none =>
      cases v.executable with
      | some n => simp
      | none => cases v.state.mode <;> simp
  | cons c t ih =>
    rw [run, ih, FaultFree]
    have close : (v.next c t).strayClose = none ↔ v.strayClose = none ∧
        ((v.state.mark c t).isCode → c = ')' → v.state.depth ≠ 0) := by
      simp [next, Option.or_eq_none_iff]
    have hint : (v.next c t).executable = none ↔ v.executable = none ∧
        (v.state.mode = .code → ¬opensExecutable c t) := by
      simp [next, Option.or_eq_none_iff]
    have state : (v.next c t).state = v.state.next c t := rfl
    rw [close, hint, state]
    tauto

theorem balanced_iff_faultFree (t : Text) : Balanced t ↔ FaultFree {} t := by
  rw [Balanced, QueryChain.fault?, Survey.fault?_run_eq_none_iff]
  simp

end Fault
section Inside

variable {d : Nat} {q : Char} {t f : Text}

theorem lastBackslashes_concat (t : Text) (c : Char) :
    lastBackslashes (t ++ [c]) = if c = '\\' then lastBackslashes t + 1 else 0 := by
  rw [lastBackslashes, List.reverse_append, List.reverse_singleton, List.singleton_append, List.takeWhile_cons]
  by_cases backslash : c = '\\' <;> simp [backslash, lastBackslashes]

theorem escapes_concat (t : Text) (c : Char) :
    Escapes q (t ++ [c]) ↔ q ≠ '`' ∧ c = '\\' ∧ ¬Escapes q t := by
  rw [Escapes, Escapes, lastBackslashes_concat]
  by_cases backslash : c = '\\'
  · rw [if_pos backslash]
    constructor
    · rintro ⟨escaping, odd⟩
      exact ⟨escaping, backslash, fun ⟨_, odd'⟩ => by omega⟩
    · rintro ⟨escaping, -, even⟩
      exact ⟨escaping, by_contra fun even' => even ⟨escaping, by omega⟩⟩
  · simp [backslash]

theorem faultFree_lineComment : FaultFree ⟨.lineComment, d⟩ t ↔ FaultFree ⟨.code, d⟩ (t.dropWhile (· ≠ '\n')) := by
  induction t with
  | nil => simp [FaultFree]
  | cons c t ih =>
    by_cases feed : c = '\n'
    · subst feed
      have plain : isPlain '\n' := by decide
      rw [List.dropWhile_cons_of_neg (by simp), FaultFree, FaultFree, ScanState.next_plain ⟨.code, d⟩ rfl _ _ plain]
      simp [ScanState.next, opensExecutable, opensBlockComment]
    · rw [List.dropWhile_cons_of_pos (by simp [feed]), ← ih, FaultFree]
      simp [ScanState.next, ScanState.mark, Mark.isCode, feed]

/-- A section that a character closes where `Closes` holds of the text of the section before it, and
    that was read up to `f`. -/
theorem faultFree_section (state : Text → ScanState) (last : Char) (Closes : Text → Prop)
    (opened : ∀ f, (state f).mode ≠ .code ∧ (state f).mode ≠ .lineComment)
    (closed : ∀ f t, Closes f → (state f).next last t = ⟨.code, d⟩)
    (goesOn : ∀ f c t, ¬(c = last ∧ Closes f) → (state f).next c t = state (f ++ [c])) (f : Text) :
    FaultFree (state f) t ↔ ∃ body rest, t = body ++ last :: rest ∧ Closes (f ++ body) ∧
      (∀ front back, body = front ++ last :: back → ¬Closes (f ++ front)) ∧ FaultFree ⟨.code, d⟩ rest := by
  induction t generalizing f with
  | nil => simp [FaultFree, opened]
  | cons c t ih =>
    have step : FaultFree (state f) (c :: t) ↔ FaultFree ((state f).next c t) t := by
      rw [FaultFree]
      refine ⟨fun free => free.2.2, fun free => ⟨?_, fun code => absurd code (opened f).1, free⟩⟩
      rintro isCode rfl
      exact absurd (ScanState.mode_of_code _ _ _ (by decide) isCode) (opened f).1
    rw [step]
    by_cases ends : c = last ∧ Closes f
    · obtain ⟨rfl, closes⟩ := ends
      rw [closed f t closes]
      constructor
      · intro free
        exact ⟨[], t, rfl, by simpa using closes, by simp, free⟩
      · rintro ⟨body, rest, parts, -, inside, free⟩
        cases body with
        | nil =>
          cases parts
          exact free
        | cons b body =>
          obtain ⟨rfl, -⟩ := List.cons.inj parts
          exact absurd closes (by simpa using inside [] body rfl)
    · rw [goesOn f c t ends, ih]
      constructor
      · rintro ⟨body, rest, rfl, closes, inside, free⟩
        refine ⟨c :: body, rest, rfl, by simpa using closes, ?_, free⟩
        rintro (_ | ⟨b, front⟩) back parts
        · obtain ⟨rfl, -⟩ := List.cons.inj parts
          simpa using fun closes => ends ⟨rfl, closes⟩
        · obtain ⟨rfl, later⟩ := List.cons.inj parts
          simpa using inside front back later
      · rintro ⟨body, rest, parts, closes, inside, free⟩
        cases body with
        | nil =>
          obtain ⟨rfl, rfl⟩ := List.cons.inj parts
          exact absurd ⟨rfl, by simpa using closes⟩ ends
        | cons b body =>
          obtain ⟨rfl, rfl⟩ := List.cons.inj parts
          refine ⟨body, rest, rfl, by simpa using closes, fun front back parts => ?_, free⟩
          simpa using inside (c :: front) back (by rw [parts]; rfl)

theorem first_unique (Closes : Text → Prop) {last : Char} {body body' rest rest' : Text}
    (same : body ++ last :: rest = body' ++ last :: rest') (closes : Closes body) (closes' : Closes body')
    (first : ∀ front back, body = front ++ last :: back → ¬Closes front)
    (first' : ∀ front back, body' = front ++ last :: back → ¬Closes front) : body = body' ∧ rest = rest' := by
  rcases List.append_eq_append_iff.mp same with ⟨more, longer, rest_⟩ | ⟨more, longer, rest_⟩
  · cases more with
    | nil => exact ⟨by simpa using longer.symm, by simpa using rest_⟩
    | cons c more =>
      obtain ⟨rfl, -⟩ := List.cons.inj rest_
      exact absurd closes (first' body more longer)
  · cases more with
    | nil => exact ⟨by simpa using longer, by simpa using rest_.symm⟩
    | cons c more =>
      obtain ⟨rfl, -⟩ := List.cons.inj rest_
      exact absurd closes' (first body' more longer)

theorem faultFree_quote (quote : isQuote q) : FaultFree ⟨.quote q false, d⟩ t ↔
    ∃ body rest, t = body ++ q :: rest ∧ QuoteBody q body ∧ FaultFree ⟨.code, d⟩ rest := by
  classical
  have noBackslash : q ≠ '\\' := by
    rintro rfl
    cases quote
  have read := faultFree_section (d := d) (t := t) (fun f => ⟨.quote q (decide (Escapes q f)), d⟩) q
    (fun f => ¬Escapes q f) (fun f => ⟨by simp, by simp⟩) ?_ ?_ []
  · have start : ¬Escapes q [] := by simp [Escapes, lastBackslashes]
    simpa [start, QuoteBody, and_assoc] using read
  · intro f t closes
    simp [ScanState.next, closes, noBackslash]
  · intro f c t goesOn
    have escapes := escapes_concat (q := q) f c
    by_cases escaped : Escapes q f
    · simp [ScanState.next, escaped, escapes]
    · have other : c ≠ q := fun same => goesOn ⟨same, escaped⟩
      by_cases backslash : c = '\\' ∧ q ≠ '`'
      · obtain ⟨rfl, noBacktick⟩ := backslash
        have later := escapes.mpr ⟨noBacktick, rfl, escaped⟩
        simp [ScanState.next, escaped, later, noBacktick]
      · simp [ScanState.next, escaped, escapes, backslash, other]
        tauto

theorem not_infix_iff_first {body : Text} : ¬['*', '/'] <:+: body ↔
    ∀ front back, body = front ++ '/' :: back → front.getLast? ≠ some '*' := by
  constructor
  · intro first front back parts star
    obtain ⟨before, rfl⟩ := List.getLast?_eq_some_iff.mp star
    exact first ⟨before, back, by rw [parts]; simp⟩
  · rintro first ⟨before, back, rfl⟩
    exact first (before ++ ['*']) back (by simp) List.getLast?_concat

theorem faultFree_blockComment : FaultFree ⟨.blockComment false, d⟩ t ↔
    ∃ body rest, t = body ++ '*' :: '/' :: rest ∧ ¬['*', '/'] <:+: body ++ ['*'] ∧ FaultFree ⟨.code, d⟩ rest := by
  have read := faultFree_section (d := d) (t := t) (fun f => ⟨.blockComment (f.getLast? == some '*'), d⟩) '/'
    (fun f => f.getLast? = some '*') (fun f => ⟨by simp, by simp⟩) ?_ ?_ []
  · simp only [List.nil_append, ← not_infix_iff_first] at read
    refine read.trans ⟨?_, ?_⟩
    · rintro ⟨body, rest, rfl, star, first, free⟩
      obtain ⟨inner, rfl⟩ := List.getLast?_eq_some_iff.mp star
      exact ⟨inner, rest, by simp, first, free⟩
    · rintro ⟨inner, rest, rfl, first, free⟩
      exact ⟨inner ++ ['*'], rest, by simp, List.getLast?_concat, first, free⟩
  · intro f t closes
    simp [ScanState.next, closes]
  · intro f c t goesOn
    have open_ : ¬(f.getLast? = some '*' ∧ c = '/') := fun both => goesOn both.symm
    simp [ScanState.next, open_]

end Inside
section Start

variable {d : Nat} {c q : Char} {t : Text}

theorem opensLineComment_iff : opensLineComment c t ↔ StartsLineComment (c :: t) := by
  rw [opensLineComment_eq, StartsLineComment]
  cases t with
  | nil => simp
  | cons b t => cases t <;> simp [and_assoc]

theorem opensBlockComment_iff : opensBlockComment c t ↔ StartsBlockComment (c :: t) := by
  rw [opensBlockComment, StartsBlockComment]
  cases t <;> simp

theorem faultFree_startLine (opens : StartsLineComment (c :: t)) :
    FaultFree ⟨.code, d⟩ (c :: t) ↔ FaultFree ⟨.lineComment, d⟩ t := by
  have role : Role.of c t = .lineComment := by rw [Role.of, if_pos (opensLineComment_iff.mpr opens)]
  have noHint : ¬opensExecutable c t := by
    have noSlash : c ≠ '/' := by
      rintro rfl
      obtain first | ⟨u, pair, -⟩ := opens
      · cases first
      · cases pair
    simp [opensExecutable, opensBlockComment, noSlash]
  simp [FaultFree, ScanState.mark, ScanState.next, role, noHint, Mark.isCode]

theorem faultFree_startBlock : FaultFree ⟨.code, d⟩ ('/' :: '*' :: t) ↔
    (∀ c ∈ t.head?, c ≠ '!' ∧ c ≠ '+') ∧ FaultFree ⟨.blockComment false, d⟩ t := by
  have role : Role.of '/' ('*' :: t) = .blockComment := by
    simp [Role.of, opensLineComment_eq, opensBlockComment]
  have opener : FaultFree ⟨.opener, d⟩ ('*' :: t) ↔ FaultFree ⟨.blockComment false, d⟩ t := by
    simp [FaultFree, ScanState.mark, ScanState.next, Mark.isCode]
  have hint : opensExecutable '/' ('*' :: t) = false ↔ ∀ c ∈ t.head?, c ≠ '!' ∧ c ≠ '+' := by
    cases t <;> simp [opensExecutable, opensBlockComment]
  rw [FaultFree, ← opener, ← hint]
  simp [ScanState.mark, ScanState.next, role, Mark.isCode]

theorem faultFree_startQuote (quote : isQuote q) :
    FaultFree ⟨.code, d⟩ (q :: t) ↔ FaultFree ⟨.quote q false, d⟩ t := by
  have other : q ≠ '#' ∧ q ≠ '-' ∧ q ≠ '/' := by
    refine ⟨?_, ?_, ?_⟩ <;> rintro rfl <;> cases quote
  have role : Role.of q t = .quote := by
    simp [Role.of, opensLineComment_eq, opensBlockComment, other, quote]
  simp [FaultFree, ScanState.mark, ScanState.next, role, Mark.isCode, opensExecutable, opensBlockComment, other]

theorem faultFree_startGroup : FaultFree ⟨.code, d⟩ ('(' :: t) ↔ FaultFree ⟨.code, d + 1⟩ t := by
  simp [FaultFree, ScanState.mark, ScanState.next, role_opening, Mark.isCode, opensExecutable, opensBlockComment]

theorem faultFree_endGroup : FaultFree ⟨.code, d⟩ (')' :: t) ↔ d ≠ 0 ∧ FaultFree ⟨.code, d - 1⟩ t := by
  simp [FaultFree, ScanState.mark, ScanState.next, role_closing, Mark.isCode, opensExecutable, opensBlockComment]

theorem faultFree_other (noLine : ¬StartsLineComment (c :: t)) (noBlock : ¬StartsBlockComment (c :: t))
    (noQuote : ¬isQuote c) (noOpening : c ≠ '(') (noClosing : c ≠ ')') :
    FaultFree ⟨.code, d⟩ (c :: t) ↔ FaultFree ⟨.code, d⟩ t := by
  rw [← opensLineComment_iff] at noLine
  rw [← opensBlockComment_iff] at noBlock
  have role : Role.of c t = .plain := by
    rw [Role.of, if_neg noLine, if_neg noBlock, if_neg noQuote, if_neg noOpening, if_neg noClosing]
  simp [FaultFree, ScanState.mark, ScanState.next, role, Mark.isCode, opensExecutable, noBlock, noClosing]

end Start
section Reads

variable {d : Nat} {t u : Text}

theorem dropWhile_startLine {c : Char} (starts : StartsLineComment (c :: t)) :
    (c :: t).dropWhile (· ≠ '\n') = t.dropWhile (· ≠ '\n') := by
  rw [List.dropWhile_cons_of_pos]
  rcases starts with first | ⟨u, pair, -⟩
  · cases first
    decide
  · cases pair
    decide

/-- What is read is no fault, at whatever depth it stands. -/
theorem Reads.faultFree_iff (reads : Reads t u) (d : Nat) :
    FaultFree ⟨.code, d⟩ t ↔ FaultFree ⟨.code, d⟩ u := by
  induction reads generalizing d with
  | done t => rfl
  | @lineComment t u starts later ih =>
    cases t with
    | nil => exact ih d
    | cons c t =>
      rw [faultFree_startLine starts, faultFree_lineComment, ← dropWhile_startLine starts]
      exact ih d
  | @blockComment body t u isBody later ih =>
    obtain ⟨first, plain⟩ := isBody
    have noHint : ∀ c ∈ (body ++ '*' :: '/' :: t).head?, c ≠ '!' ∧ c ≠ '+' := by
      cases body with
      | nil => simp
      | cons b body => simpa using plain
    rw [faultFree_startBlock, faultFree_blockComment, ← ih d]
    constructor
    · rintro ⟨-, body', rest, same, first', free⟩
      have same : (body ++ ['*']) ++ '/' :: t = (body' ++ ['*']) ++ '/' :: rest := by simpa using same
      obtain ⟨-, rfl⟩ := first_unique (fun f => f.getLast? = some '*') same (by simp) (by simp)
        (not_infix_iff_first.mp first) (not_infix_iff_first.mp first')
      exact free
    · exact fun free => ⟨noHint, body, t, rfl, first, free⟩
  | @quote q body t u opens isBody later ih =>
    rw [faultFree_startQuote opens, faultFree_quote opens, ← ih d]
    constructor
    · rintro ⟨body', rest, same, isBody', free⟩
      obtain ⟨-, rfl⟩ := first_unique (fun f => ¬Escapes q f) same isBody.1 isBody'.1
        (fun front back parts => not_not.mpr (isBody.2 front back parts))
        (fun front back parts => not_not.mpr (isBody'.2 front back parts))
      exact free
    · exact fun free => ⟨body, t, rfl, isBody, free⟩
  | @group t rest u inside later ihInside ih =>
    rw [faultFree_startGroup, ihInside, faultFree_endGroup, ← ih d]
    simp
  | @other c t u noLine noBlock noQuote noOpening noClosing later ih =>
    rw [faultFree_other noLine noBlock noQuote noOpening noClosing]
    exact ih d

theorem Reads.length_le (reads : Reads t u) : u.length ≤ t.length := by
  induction reads with
  | done t => exact le_rfl
  | lineComment starts later ih => exact ih.trans (List.dropWhile_sublist _).length_le
  | blockComment isBody later ih => simp; omega
  | quote opens isBody later ih => simp; omega
  | group inside later ihInside ih =>
    simp at ihInside ⊢
    omega
  | other noLine noBlock noQuote noOpening noClosing later ih => simp; omega

def ReadsOut (d : Nat) (t : Text) : Prop :=
  if d = 0 then Reads t [] else ∃ rest, Reads t (')' :: rest) ∧ FaultFree ⟨.code, d - 1⟩ rest

theorem ReadsOut.mono (later : ReadsOut d u) (more : ∀ rest, Reads u rest → Reads t rest) : ReadsOut d t := by
  rw [ReadsOut] at later ⊢
  split
  · rw [if_pos ‹_›] at later
    exact more _ later
  · rw [if_neg ‹_›] at later
    obtain ⟨rest, reads, free⟩ := later
    exact ⟨rest, more _ reads, free⟩

theorem readsOut_of_faultFree (free : FaultFree ⟨.code, d⟩ t) : ReadsOut d t := by
  induction length : t.length using Nat.strong_induction_on generalizing t d with
  | _ n ih =>
    subst length
    cases t with
    | nil =>
      obtain ⟨-, rfl⟩ := free
      exact .done []
    | cons c t =>
      by_cases line : StartsLineComment (c :: t)
      · rw [faultFree_startLine line, faultFree_lineComment] at free
        have shorter := (List.dropWhile_sublist (· ≠ '\n') (l := t)).length_le
        refine (ih _ (by simp only [List.length_cons]; omega) free rfl).mono fun rest reads => .lineComment line ?_
        rwa [dropWhile_startLine line]
      by_cases block : StartsBlockComment (c :: t)
      · obtain ⟨u, pair⟩ := block
        cases pair
        obtain ⟨noHint, free⟩ := faultFree_startBlock.mp free
        obtain ⟨body, rest, rfl, first, free⟩ := faultFree_blockComment.mp free
        have plain : ∀ c ∈ body.head?, c ≠ '!' ∧ c ≠ '+' := by
          cases body with
          | nil => simp
          | cons b body => simpa using noHint
        exact (ih _ (by simp; omega) free rfl).mono fun rest reads => .blockComment ⟨first, plain⟩ reads
      by_cases quote : isQuote c
      · obtain ⟨body, rest, rfl, isBody, free⟩ := (faultFree_quote quote).mp ((faultFree_startQuote quote).mp free)
        exact (ih _ (by simp; omega) free rfl).mono fun rest reads => .quote quote isBody reads
      by_cases opening : c = '('
      · subst opening
        have inside := ih _ (by simp) (faultFree_startGroup.mp free) rfl
        rw [ReadsOut, if_neg (by omega)] at inside
        obtain ⟨rest, reads, free⟩ := inside
        have shorter := reads.length_le
        rw [List.length_cons] at shorter
        exact (ih _ (by simp; omega) free rfl).mono fun _ later => .group reads later
      by_cases closing : c = ')'
      · subst closing
        obtain ⟨deep, free⟩ := faultFree_endGroup.mp free
        rw [ReadsOut, if_neg deep]
        exact ⟨t, .done _, free⟩
      · rw [faultFree_other line block quote opening closing] at free
        exact (ih _ (by simp) free rfl).mono fun rest reads => .other line block quote opening closing reads

/-- The texts without a fault are those that can be read to their end. -/
theorem balanced_iff_reads (t : Text) : Balanced t ↔ Reads t [] := by
  rw [balanced_iff_faultFree]
  constructor
  · exact readsOut_of_faultFree (d := 0)
  · intro reads
    rw [reads.faultFree_iff 0]
    exact ⟨.inl rfl, rfl⟩

end Reads
end QueryChain
