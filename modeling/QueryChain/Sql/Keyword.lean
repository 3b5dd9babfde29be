import QueryChain.Sql.Mark
import QueryChain.Text.AsciiCase
import QueryChain.Text.Letter

namespace QueryChain

/-- The words of a keyword; any blanks may stand between them. -/
abbrev Keyword := List Text

/-- A place in a scanned text: the character in front of it and the marks from it on. -/
structure Cursor where
  before : Option Char
  marks : Marks
  deriving DecidableEq, Repr

namespace Cursor

def start (t : Text) : Cursor := ⟨none, scan t⟩

def text (c : Cursor) : Text := markText c.marks

def inCode (c : Cursor) : Bool := c.marks.head?.any Mark.isCode

def atTop (c : Cursor) : Bool := c.marks.head?.any Mark.isTop

def skipBlanks (before : Option Char) : Marks → Cursor
  | [] => ⟨before, []⟩
  | m :: ms => if isBlank m.char then skipBlanks (some m.char) ms else ⟨before, m :: ms⟩

def word? (before : Option Char) : Text → Marks → Option Cursor
  | [], ms => some ⟨before, ms⟩
  | _ :: _, [] => none
  | w :: word, m :: ms => if sameLetter w m.char then word? (some m.char) word ms else none

def words? (c : Cursor) : Keyword → Option Cursor
  | [] => some c
  | [word] => word? c.before word c.marks
  | word :: words =>
    match word? c.before word c.marks with
    | some ⟨before, m :: ms⟩ =>
      if isBlank m.char then (skipBlanks before (m :: ms)).words? words else none
    | _ => none

def keyword? (c : Cursor) (k : Keyword) : Option Cursor :=
  if c.before.any isWordChar then none
  else (c.words? k).filter fun after => !(after.marks.head?.any (isWordChar ·.char))

def startsWith (c : Cursor) (k : Keyword) : Bool := (c.keyword? k).isSome

/-- The first of the keywords that starts here, outside quotes, comments and groups. -/
def topKeyword? (c : Cursor) (ks : List Keyword) : Option Cursor :=
  if c.atTop then ks.findSome? c.keyword? else none

def seekFrom {α : Type} (probe : Cursor → Option α) (before : Option Char) :
    Marks → Option (Text × α)
  | [] => none
  | m :: ms =>
    match probe ⟨before, m :: ms⟩ with
    | some a => some ([], a)
    | none => (seekFrom probe (some m.char) ms).map fun (passed, a) => (m.char :: passed, a)

def seek {α : Type} (c : Cursor) (probe : Cursor → Option α) : Option (Text × α) :=
  seekFrom probe c.before c.marks

/-- The first top-level place of one of the keywords: the text before it, the place behind it. -/
def find? (c : Cursor) (ks : List Keyword) : Option (Text × Cursor) :=
  c.seek (·.topKeyword? ks)

def upTo (c : Cursor) (ks : List Keyword) : Text :=
  match c.find? ks with
  | some (passed, _) => passed
  | none => c.text

def skipRun (ks : List Keyword) : Nat → Cursor → Cursor
  | 0, c => c
  | n + 1, c =>
    match ks.findSome? (skipBlanks c.before c.marks).keyword? with
    | some after => skipRun ks n after
    | none => c

def skipAny (c : Cursor) (ks : List Keyword) : Cursor := c.skipRun ks c.marks.length

def annotate {α : Type} (probe : Cursor → Option α) (before : Option Char) :
    Marks → List (Char × Option α)
  | [] => []
  | m :: ms => (m.char, probe ⟨before, m :: ms⟩) :: annotate probe (some m.char) ms

theorem text_skipBlanks (before : Option Char) (ms : Marks) :
    ∃ blanks, markText ms = blanks ++ (skipBlanks before ms).text ∧ ∀ c ∈ blanks, isBlank c := by
  induction ms generalizing before with
  | nil => exact ⟨[], rfl, by simp⟩
  | cons m ms ih =>
    rw [skipBlanks]
    split
    · rename_i blank
      obtain ⟨blanks, eq, all⟩ := ih (some m.char)
      refine ⟨m.char :: blanks, ?_, by simpa [blank] using all⟩
      simpa [markText] using eq
    · exact ⟨[], by simp [text], by simp⟩

theorem word?_eq_some {before : Option Char} {word : Text} {ms : Marks} {after : Cursor}
    (h : word? before word ms = some after) :
    ∃ spelling, markText ms = spelling ++ after.text ∧ spelling.length = word.length := by
  induction word generalizing before ms with
  | nil => cases h; exact ⟨[], rfl, rfl⟩
  | cons w word ih =>
    cases ms with
    | nil => cases h
    | cons m ms =>
      rw [word?] at h
      split at h
      · obtain ⟨spelling, eq, length⟩ := ih h
        exact ⟨m.char :: spelling, by simpa [markText] using eq, by simp [length]⟩
      · cases h

theorem words?_eq_some {c after : Cursor} {k : Keyword} (h : c.words? k = some after) :
    ∃ spelling, c.text = spelling ++ after.text ∧
      (k.map List.length).sum ≤ spelling.length := by
  fun_induction words? c k with
  | case1 => cases h; exact ⟨[], rfl, by simp⟩
  | case2 c word =>
    obtain ⟨spelling, eq, length⟩ := word?_eq_some h
    exact ⟨spelling, eq, by simp [length]⟩
  | case3 c word words _ before m ms found blank ih =>
    obtain ⟨first, eq, length⟩ := word?_eq_some found
    obtain ⟨blanks, eqBlanks, -⟩ := text_skipBlanks before (m :: ms)
    obtain ⟨spelling, eqRest, lengthRest⟩ := ih h
    refine ⟨first ++ blanks ++ spelling, ?_, ?_⟩
    · rw [text, eq, text, eqBlanks, eqRest]; simp
    · simp only [List.map_cons, List.sum_cons, List.length_append]; omega
  | case4 => cases h
  | case5 => cases h

theorem keyword?_eq_some {c after : Cursor} {k : Keyword} (h : c.keyword? k = some after) :
    ∃ spelling, c.text = spelling ++ after.text ∧
      (k.map List.length).sum ≤ spelling.length := by
  rw [keyword?] at h
  split at h
  · cases h
  · exact words?_eq_some (Option.filter_eq_some_iff.mp h).1

theorem seekFrom_eq_some {α : Type} {probe : Cursor → Option α} {before : Option Char}
    {ms : Marks} {passed : Text} {a : α} (h : seekFrom probe before ms = some (passed, a)) :
    ∃ c, markText ms = passed ++ c.text ∧ probe c = some a := by
  induction ms generalizing before passed with
  | nil => cases h
  | cons m ms ih =>
    rw [seekFrom] at h
    split at h
    · rename_i b answer
      cases h
      exact ⟨_, rfl, answer⟩
    · obtain ⟨⟨passed', a'⟩, found, eq⟩ := Option.map_eq_some_iff.mp h
      cases eq
      obtain ⟨c, eqText, answer⟩ := ih found
      exact ⟨c, by simpa [markText] using eqText, answer⟩

def atByte? (before : Option Char) : Nat → Marks → Option Cursor
  | 0, ms => some ⟨before, ms⟩
  | _ + 1, [] => none
  | n + 1, m :: ms =>
    if m.char.utf8Size ≤ n + 1 then atByte? (some m.char) (n + 1 - m.char.utf8Size) ms else none
  termination_by _ ms => ms.length

/-- The byte of `t` at which a cursor into `t` stands. -/
def place (c : Cursor) (t : Text) : Nat := byteSize t - byteSize c.text

end Cursor

def keywordSpan? (k : Keyword) (least : Nat) (t : Text) : Option (Nat × Nat) :=
  let probe (c : Cursor) := if least ≤ c.place t then c.topKeyword? [k] else none
  ((Cursor.start t).seek probe).map fun (passed, after) => (byteSize passed, after.place t)

def hasKeyword (k : Keyword) (t : Text) : Bool := ((Cursor.start t).find? [k]).isSome

def hasKeywordAtAnyDepth (k : Keyword) (t : Text) : Bool :=
  ((Cursor.start t).seek fun c => if c.inCode then c.keyword? k else none).isSome

def afterKeyword? (k : Keyword) (t : Text) : Option Text :=
  ((Cursor.start t).keyword? k).map Cursor.text

def startsWithKeyword (k : Keyword) (t : Text) : Bool := (afterKeyword? k t).isSome

end QueryChain
