import QueryChain.Text.Blank

namespace QueryChain

inductive MarkKind where
  | code
  | quoted
  | comment
  deriving DecidableEq, Repr

/-- A character of a text with what stands around it. Both parentheses of a group carry the depth
    outside the group; quote characters are quoted, comment openers are comment. -/
structure Mark where
  char : Char
  depth : Nat
  kind : MarkKind
  deriving DecidableEq, Repr

abbrev Marks := List Mark

def markText (ms : Marks) : Text := ms.map Mark.char

namespace Mark

def isCode (m : Mark) : Bool := m.kind == .code

def isTop (m : Mark) : Bool := m.isCode && m.depth == 0

def isTopOf (c : Char) (m : Mark) : Bool := m.char == c && m.isTop

def isTopBlank (m : Mark) : Bool := isBlank m.char && m.isTop

def isPlaceholder (m : Mark) : Bool := m.isCode && m.char == '?'

end Mark

/-- What a character does where neither a quote nor a comment is open. -/
inductive Role where
  | lineComment
  | blockComment
  | quote
  | opening
  | closing
  | plain
  deriving DecidableEq, Repr

def isQuote (c : Char) : Bool := c == '\'' || c == '"' || c == '`'

/-- Two dashes open a comment only in front of a blank or at the end. -/
def opensLineComment (c : Char) (rest : Text) : Bool :=
  match c, rest with
  | '#', _ => true
  | '-', '-' :: after => after.head?.all isBlank
  | _, _ => false

def opensBlockComment (c : Char) (rest : Text) : Bool := c == '/' && rest.head? == some '*'

def Role.of (c : Char) (rest : Text) : Role :=
  if opensLineComment c rest then .lineComment
  else if opensBlockComment c rest then .blockComment
  else if isQuote c then .quote
  else if c = '(' then .opening
  else if c = ')' then .closing
  else .plain

/-- What is open at a place of a text. A block comment is `opener` until its first star is read,
    and then remembers whether the character before was a star. -/
inductive Mode where
  | code
  | quote (mark : Char) (escaped : Bool)
  | lineComment
  | opener
  | blockComment (star : Bool)
  deriving DecidableEq, Repr

structure ScanState where
  mode : Mode := .code
  depth : Nat := 0
  deriving DecidableEq, Repr

namespace ScanState

def next (s : ScanState) (c : Char) (rest : Text) : ScanState :=
  match s.mode with
  | .code =>
    match Role.of c rest with
    | .lineComment => { s with mode := .lineComment }
    | .blockComment => { s with mode := .opener }
    | .quote => { s with mode := .quote c false }
    | .opening => { s with depth := s.depth + 1 }
    | .closing => { s with depth := s.depth - 1 }
    | .plain => s
  | .quote q true => { s with mode := .quote q false }
  | .quote q false =>
    if c = '\\' ∧ q ≠ '`' then { s with mode := .quote q true }
    else if c = q then { s with mode := .code }
    else s
  | .lineComment => if c = '\n' then { s with mode := .code } else s
  | .opener => { s with mode := .blockComment false }
  | .blockComment star =>
    if star ∧ c = '/' then { s with mode := .code } else { s with mode := .blockComment (c == '*') }

/-- The mark of `c` in front of `rest`. The line feed behind a line comment is code again. -/
def mark (s : ScanState) (c : Char) (rest : Text) : Mark :=
  match s.mode with
  | .code =>
    match Role.of c rest with
    | .lineComment | .blockComment => ⟨c, s.depth, .comment⟩
    | .quote => ⟨c, s.depth, .quoted⟩
    | .closing => ⟨c, s.depth - 1, .code⟩
    | .opening | .plain => ⟨c, s.depth, .code⟩
  | .quote _ _ => ⟨c, s.depth, .quoted⟩
  | .lineComment => ⟨c, s.depth, if c = '\n' then .code else .comment⟩
  | .opener | .blockComment _ => ⟨c, s.depth, .comment⟩

@[simp] theorem mark_char (s : ScanState) (c : Char) (rest : Text) : (s.mark c rest).char = c := by
  unfold mark; split <;> (try split) <;> rfl

def marks (s : ScanState) : Text → Marks
  | [] => []
  | c :: rest => s.mark c rest :: (s.next c rest).marks rest

def run (s : ScanState) : Text → ScanState
  | [] => s
  | c :: rest => (s.next c rest).run rest

@[simp] theorem markText_marks (s : ScanState) (t : Text) : markText (s.marks t) = t := by
  induction t generalizing s with
  | nil => rfl
  | cons c rest ih => simpa [marks, markText] using ih (s.next c rest)

end ScanState

def scan (t : Text) : Marks := ({} : ScanState).marks t

@[simp] theorem markText_scan (t : Text) : markText (scan t) = t := ScanState.markText_marks _ t

/-- The number of `?` outside quotes and comments, at any depth. -/
def placeholders (t : Text) : Nat := (scan t).countP Mark.isPlaceholder

end QueryChain
