import QueryChain.Proofs.Bytes.Text
import QueryChain.Proofs.Scan.Parted
import QueryChain.Sql.Balance

namespace QueryChain

namespace Bytewise

inductive CommentKind where
  | line
  | block
  deriving DecidableEq, Repr

/-- What a scan remembers: the quote and the comment that are open, with the bytes at which they
    were opened, and the first two faults that no later character can mend. -/
structure Scanner where
  quote : Option (Char × Nat) := none
  comment : Option (CommentKind × Nat) := none
  escaped : Bool := false
  depth : Nat := 0
  strayClose : Option Nat := none
  executable : Option Nat := none
  deriving DecidableEq, Repr

def commentStart? (t : Text) (offset : Nat) (c : Char) : Option (Option CommentKind) := do
  let rest ← from? t offset
  if c = '#' then return some .line
  if c = '-' ∧ ['-', '-'].isPrefixOf rest then
    let behind ← from? rest 2
    return if behind.head?.all isBlank then some .line else none
  return if c = '/' ∧ ['/', '*'].isPrefixOf rest then some .block else none

namespace Scanner

def read (s : Scanner) (offset : Nat) (c : Char) : Scanner × Mark :=
  match s.quote with
  | some (q, _) =>
    (if s.escaped then { s with escaped := false }
      else if c = '\\' ∧ q ≠ '`' then { s with escaped := true }
      else if c = q then { s with quote := none } else s, ⟨c, s.depth, .quoted⟩)
  | none =>
    if isQuote c then ({ s with quote := some (c, offset) }, ⟨c, s.depth, .quoted⟩)
    else if c = '(' then ({ s with depth := s.depth + 1 }, ⟨c, s.depth, .code⟩)
    else if c = ')' then
      ({ s with
          depth := s.depth - 1
          strayClose := if s.depth = 0 then s.strayClose.or (some offset) else s.strayClose },
        ⟨c, s.depth - 1, .code⟩)
    else (s, ⟨c, s.depth, .code⟩)

def step? (t : Text) (s : Scanner) (offset : Nat) (c : Char) : Option (Scanner × Mark) :=
  match s.comment, s.quote with
  | some (.line, _), _ =>
    if c = '\n' then some ({ s with comment := none }.read offset c) else some (s, ⟨c, s.depth, .comment⟩)
  | some (.block, start), _ => do
    if c = '/' ∧ start + 3 ≤ offset then
      let front ← upTo? t offset
      if front.getLast? = some '*' then return ({ s with comment := none }, ⟨c, s.depth, .comment⟩)
    return (s, ⟨c, s.depth, .comment⟩)
  | none, some _ => some (s.read offset c)
  | none, none => do
    match ← commentStart? t offset c with
    | none => return s.read offset c
    | some .line => return ({ s with comment := some (.line, offset) }, ⟨c, s.depth, .comment⟩)
    | some .block =>
      let behind ← from? t (offset + 2)
      let hint := behind.head? == some '!' || behind.head? == some '+'
      return ({ s with
          comment := some (.block, offset)
          executable := if hint then s.executable.or (some offset) else s.executable },
        ⟨c, s.depth, .comment⟩)

def run? (t : Text) (s : Scanner) (offset : Nat) : Text → Option (Scanner × List (Nat × Mark))
  | [] => some (s, [])
  | c :: rest => do
    let (next, m) ← s.step? t offset c
    let (last, later) ← run? t next (offset + c.utf8Size) rest
    return (last, (offset, m) :: later)

def fault? (s : Scanner) : Option Fault :=
  match s.strayClose, s.executable, s.quote, s.comment with
  | some n, _, _, _ => some (.unexpectedClose n)
  | none, some n, _, _ => some (.executableComment n)
  | none, none, some (q, n), _ => some (.unterminatedQuote q n)
  | none, none, none, some (.block, n) => some (.unterminatedComment n)
  | none, none, none, _ => if 0 < s.depth then some (.unclosedGroups s.depth) else none

end Scanner

def scan? (t : Text) : Option (List (Nat × Mark)) := (Scanner.run? t {} 0 t).map Prod.snd

def fault? (t : Text) : Option (Option Fault) := (Scanner.run? t {} 0 t).map fun r => r.1.fault?

end Bytewise

def spots (start : Nat) : Marks → List (Nat × Mark)
  | [] => []
  | m :: ms => (start, m) :: spots (start + m.char.utf8Size) ms

namespace Survey

def scanner (v : Survey) : Bytewise.Scanner where
  quote := match v.state.mode with
    | .quote q _ => some (q, v.opened)
    | _ => none
  comment := match v.state.mode with
    | .lineComment => some (.line, v.opened)
    | .opener | .blockComment _ => some (.block, v.opened)
    | _ => none
  escaped := match v.state.mode with
    | .quote _ escaped => escaped
    | _ => false
  depth := v.state.depth
  strayClose := v.strayClose
  executable := v.executable

structure Behind (v : Survey) (front back : Text) : Prop where
  place : v.place = byteSize front
  opener : v.state.mode = .opener → v.place = v.opened + 1 ∧ back.head? = some '*'
  block : ∀ star, v.state.mode = .blockComment star →
    v.opened + 2 ≤ v.place ∧ (star = true ↔ v.opened + 3 ≤ v.place ∧ front.getLast? = some '*')

theorem fault?_scanner (v : Survey) : v.scanner.fault? = v.fault? := by
  obtain ⟨⟨mode, depth⟩, place, opened, strayClose, executable⟩ := v
  cases strayClose <;> cases executable <;> cases mode <;> rfl

end Survey

namespace Bytewise

section Scan

variable {v : Survey} {front rest t : Text} {c : Char}

theorem upTo?_append (front back : Text) : upTo? (front ++ back) (byteSize front) = some front := by
  rw [upTo?, cutAt?_append]
  rfl

theorem from?_append (front back : Text) : from? (front ++ back) (byteSize front) = some back := by
  rw [from?, cutAt?_append]
  rfl

theorem commentStart?_eq (front rest : Text) (c : Char) : commentStart? (front ++ c :: rest) (byteSize front) c =
    some (if opensLineComment c rest then some .line
      else if opensBlockComment c rest then some .block else none) := by
  rw [commentStart?, from?_append, opensLineComment_eq]
  by_cases hash : c = '#'
  · subst hash
    rfl
  by_cases dash : c = '-' ∧ ['-', '-'].isPrefixOf (c :: rest)
  · obtain ⟨rfl, dashes⟩ := dash
    obtain ⟨after, rfl⟩ : ∃ after, rest = '-' :: after := by
      cases rest with
      | nil => simp at dashes
      | cons d after =>
        obtain rfl : '-' = d := by simpa using dashes
        exact ⟨after, rfl⟩
    have behind : from? ('-' :: '-' :: after) 2 = some after := from?_append ['-', '-'] after
    simp [behind, opensBlockComment]
  · have line : (c == '-' && rest.head? == some '-') = false := by
      rw [Bool.and_eq_false_imp, beq_iff_eq]
      rintro rfl
      rw [beq_eq_false_iff_ne]
      intro first
      obtain ⟨after, rfl⟩ := List.head?_eq_some_iff.mp first
      exact dash ⟨rfl, by simp⟩
    have block : (c = '/' ∧ ['/', '*'].isPrefixOf (c :: rest)) ↔ opensBlockComment c rest = true := by
      rw [opensBlockComment, Bool.and_eq_true, beq_iff_eq, beq_iff_eq]
      refine and_congr_right ?_
      rintro rfl
      cases rest with
      | nil => simp
      | cons d after => simp [@eq_comm _ '*' d]
    simp only [Option.bind_eq_bind, Option.bind_some, if_neg hash, if_neg dash, line, Bool.false_and, Bool.or_false,
      beq_eq_false_iff_ne.mpr hash, Bool.false_eq_true, if_false, block]
    rfl

variable {depth at_ opened : Nat} {strayClose executable : Option Nat}

theorem step?_quote (q : Char) (escaped : Bool) :
    let v : Survey := ⟨⟨.quote q escaped, depth⟩, at_, opened, strayClose, executable⟩
    Scanner.step? t v.scanner at_ c = some ((v.next c rest).scanner, v.state.mark c rest) := by
  simp only [Scanner.step?, Survey.scanner, Scanner.read, Survey.next, ScanState.next, ScanState.mark]
  cases escaped with
  | true => simp [Mark.isCode]
  | false =>
    by_cases escape : c = '\\' ∧ q ≠ '`'
    · simp [escape, Mark.isCode]
    · by_cases close : c = q
      · subst close
        simp [escape, Mark.isCode]
      · simp [escape, close, Mark.isCode]

theorem step?_lineComment :
    let v : Survey := ⟨⟨.lineComment, depth⟩, at_, opened, strayClose, executable⟩
    Scanner.step? t v.scanner at_ c = some ((v.next c rest).scanner, v.state.mark c rest) := by
  by_cases feed : c = '\n'
  · subst feed
    simp [Scanner.step?, Survey.scanner, Scanner.read, Survey.next, ScanState.next, ScanState.mark, isQuote]
  · simp [Scanner.step?, Survey.scanner, Survey.next, ScanState.next, ScanState.mark, feed, Mark.isCode]

theorem step?_blockComment (star : Bool) (place : at_ = byteSize front)
    (looksBack : star = true ↔ opened + 3 ≤ at_ ∧ front.getLast? = some '*') :
    let v : Survey := ⟨⟨.blockComment star, depth⟩, at_, opened, strayClose, executable⟩
    Scanner.step? (front ++ c :: rest) v.scanner at_ c = some ((v.next c rest).scanner, v.state.mark c rest) := by
  have front? : upTo? (front ++ c :: rest) at_ = some front := by rw [place, upTo?_append]
  simp only [Scanner.step?, Survey.scanner, Survey.next, ScanState.next, ScanState.mark, front?]
  by_cases slash : c = '/'
  · subst slash
    by_cases far : opened + 3 ≤ at_
    · by_cases last : front.getLast? = some '*'
      · simp [far, last, looksBack, Mark.isCode]
      · simp [far, last, looksBack, Mark.isCode]
    · simp [far, looksBack, Mark.isCode]
  · simp [slash, Mark.isCode]

theorem step?_opener (place : at_ = opened + 1) :
    let v : Survey := ⟨⟨.opener, depth⟩, at_, opened, strayClose, executable⟩
    Scanner.step? t v.scanner at_ c = some ((v.next c rest).scanner, v.state.mark c rest) := by
  have near : ¬(c = '/' ∧ opened + 3 ≤ at_) := by omega
  simp [Scanner.step?, Survey.scanner, Survey.next, ScanState.next, ScanState.mark, near, Mark.isCode]

theorem step?_code (place : at_ = byteSize front) :
    let v : Survey := ⟨⟨.code, depth⟩, at_, opened, strayClose, executable⟩
    Scanner.step? (front ++ c :: rest) v.scanner at_ c = some ((v.next c rest).scanner, v.state.mark c rest) := by
  have start := commentStart?_eq front rest c
  rw [← place] at start
  simp only [Scanner.step?, Survey.scanner, start, Option.bind_eq_bind, Option.bind_some]
  by_cases line : opensLineComment c rest
  · have role : Role.of c rest = .lineComment := by simp [Role.of, line]
    have noHint : opensExecutable c rest = false := by
      have noSlash : c ≠ '/' := by
        rintro rfl
        rw [opensLineComment_eq] at line
        simp at line
      simp [opensExecutable, opensBlockComment, noSlash]
    simp [line, Survey.next, ScanState.next, ScanState.mark, role, noHint, Mark.isCode]
  · by_cases block : opensBlockComment c rest
    · have role : Role.of c rest = .blockComment := by simp [Role.of, line, block]
      obtain ⟨rfl, first⟩ : c = '/' ∧ rest.head? = some '*' := by simpa [opensBlockComment] using block
      obtain ⟨behind, rfl⟩ := List.head?_eq_some_iff.mp first
      have two : from? (front ++ '/' :: '*' :: behind) (at_ + 2) = some behind := by
        have size : byteSize (front ++ ['/', '*']) = at_ + 2 := by
          rw [byteSize_append, place]
          rfl
        have far := from?_append (front ++ ['/', '*']) behind
        rwa [size, List.append_assoc] at far
      have hint : opensExecutable '/' ('*' :: behind) = (behind.head? == some '!' || behind.head? == some '+') := by
        simp [opensExecutable, block]
      simp only [line, block, if_true, if_false, two, Option.bind_some, Bool.false_eq_true]
      cases hinted : (behind.head? == some '!' || behind.head? == some '+') with
      | true => simp [Survey.next, ScanState.next, ScanState.mark, role, Mark.isCode, hint, hinted]
      | false => simp [Survey.next, ScanState.next, ScanState.mark, role, Mark.isCode, hint, hinted]
    · have noHint : opensExecutable c rest = false := by
        simp [opensExecutable, block]
      simp only [line, block, if_false, Bool.false_eq_true, Scanner.read]
      by_cases quote : isQuote c
      · have role : Role.of c rest = .quote := by simp [Role.of, line, block, quote]
        simp [Survey.next, ScanState.next, ScanState.mark, role, noHint, quote, Mark.isCode]
      · have role : Role.of c rest = if c = '(' then .opening else if c = ')' then .closing else .plain := by
          simp [Role.of, line, block, quote]
        by_cases opening : c = '('
        · subst opening
          simp [Survey.next, ScanState.next, ScanState.mark, role, noHint, quote, Mark.isCode]
        · by_cases closing : c = ')'
          · subst closing
            cases depth with
            | zero => simp [Survey.next, ScanState.next, ScanState.mark, role, noHint, quote, Mark.isCode]
            | succ n => simp [Survey.next, ScanState.next, ScanState.mark, role, noHint, quote, Mark.isCode]
          · simp [Survey.next, ScanState.next, ScanState.mark, role, noHint, quote, opening, closing, Mark.isCode]

theorem step?_scanner (behind : v.Behind front (c :: rest)) :
    Scanner.step? (front ++ c :: rest) v.scanner v.place c = some ((v.next c rest).scanner, v.state.mark c rest) := by
  obtain ⟨place, opener, block⟩ := behind
  obtain ⟨⟨mode, depth⟩, at_, opened, strayClose, executable⟩ := v
  cases mode with
  | code => exact step?_code place
  | quote q escaped => exact step?_quote q escaped
  | lineComment => exact step?_lineComment
  | opener => exact step?_opener (opener rfl).1
  | blockComment star => exact step?_blockComment star place (block star rfl).2

theorem mode_next_opener {s : ScanState} (opens : (s.next c rest).mode = .opener) :
    s.mode = .code ∧ opensBlockComment c rest := by
  obtain ⟨mode, depth⟩ := s
  cases mode with
  | code =>
    refine ⟨rfl, ?_⟩
    simp only [ScanState.next] at opens
    cases role : Role.of c rest with
    | blockComment =>
      rw [Role.of] at role
      by_contra block
      rw [if_neg block] at role
      split_ifs at role
    | lineComment | quote | opening | closing | plain => rw [role] at opens; cases opens
  | quote q escaped =>
    cases escaped with
    | true => cases opens
    | false =>
      simp only [ScanState.next] at opens
      split_ifs at opens
  | lineComment =>
    simp only [ScanState.next] at opens
    split_ifs at opens
  | opener => cases opens
  | blockComment star =>
    simp only [ScanState.next] at opens
    split_ifs at opens

theorem mode_next_blockComment {s : ScanState} {star : Bool} (inside : (s.next c rest).mode = .blockComment star) :
    s.mode = .opener ∧ star = false ∨ (∃ before, s.mode = .blockComment before) ∧ star = (c == '*') := by
  obtain ⟨mode, depth⟩ := s
  cases mode with
  | code =>
    simp only [ScanState.next] at inside
    cases role : Role.of c rest <;> rw [role] at inside <;> cases inside
  | quote q escaped =>
    cases escaped with
    | true => cases inside
    | false =>
      simp only [ScanState.next] at inside
      split_ifs at inside
  | lineComment =>
    simp only [ScanState.next] at inside
    split_ifs at inside
  | opener =>
    cases inside
    exact .inl ⟨rfl, rfl⟩
  | blockComment before =>
    simp only [ScanState.next] at inside
    split_ifs at inside
    cases inside
    exact .inr ⟨⟨before, rfl⟩, rfl⟩

theorem behind_next (behind : v.Behind front (c :: rest)) : (v.next c rest).Behind (front ++ [c]) rest := by
  have positive := c.utf8Size_pos
  have place : (v.next c rest).place = v.place + c.utf8Size := rfl
  refine ⟨by simp [place, behind.place], fun opens => ?_, fun star inside => ?_⟩
  · obtain ⟨code, block⟩ := mode_next_opener opens
    obtain ⟨rfl, first⟩ : c = '/' ∧ rest.head? = some '*' := by simpa [opensBlockComment] using block
    have opened : (v.next '/' rest).opened = v.place := by simp [Survey.next, code]
    exact ⟨by rw [place, opened]; rfl, first⟩
  · have opened (other : v.state.mode ≠ .code) : (v.next c rest).opened = v.opened := by simp [Survey.next, other]
    rcases mode_next_blockComment inside with ⟨opener, rfl⟩ | ⟨⟨before, block⟩, rfl⟩
    · obtain ⟨near, first⟩ := behind.opener opener
      obtain rfl : c = '*' := by simpa using first
      have size : '*'.utf8Size = 1 := rfl
      rw [place, opened (by simp [opener]), near, size]
      simp
    · obtain ⟨far, -⟩ := behind.block before block
      rw [place, opened (by simp [block])]
      simp only [List.getLast?_concat, Option.some.injEq, beq_iff_eq]
      exact ⟨by omega, fun star => ⟨by omega, star⟩, And.right⟩

theorem run?_scanner (behind : v.Behind front rest) :
    Scanner.run? (front ++ rest) v.scanner v.place rest =
      some ((v.run rest).scanner, spots v.place (v.state.marks rest)) := by
  induction rest generalizing v front with
  | nil => rfl
  | cons c rest ih =>
    have later := ih (behind_next behind)
    rw [List.append_assoc, List.singleton_append] at later
    have place : (v.next c rest).place = v.place + c.utf8Size := rfl
    rw [Scanner.run?, step?_scanner behind]
    rw [place] at later
    simp only [Option.bind_eq_bind, Option.bind_some]
    rw [later]
    simp [Survey.run, ScanState.marks, spots, Survey.next]

theorem behind_start (t : Text) : ({} : Survey).Behind [] t := ⟨rfl, nofun, nofun⟩

theorem scan?_eq (t : Text) : scan? t = some (spots 0 (scan t)) := by
  have whole : Scanner.run? t {} 0 t = _ := run?_scanner (behind_start t)
  rw [scan?, whole]
  rfl

theorem fault?_eq (t : Text) : fault? t = some (QueryChain.fault? t) := by
  have whole : Scanner.run? t {} 0 t = _ := run?_scanner (behind_start t)
  rw [fault?, whole]
  rw [QueryChain.fault?, ← Survey.fault?_scanner]
  rfl

end Scan
end Bytewise
end QueryChain
