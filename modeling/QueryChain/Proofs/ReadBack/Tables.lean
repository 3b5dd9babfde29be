import QueryChain.Proofs.ReadBack.Entries
import QueryChain.Statement.Table

namespace QueryChain

def isIdentifierChar (c : Char) : Bool := c.isAlphanum || c == '_'

structure Identifier (reserved : ReservedWords) (t : Text) : Prop where
  full : t ≠ []
  chars : ∀ c ∈ t, isIdentifierChar c
  notStandard : upper t ∉ ReservedWords.standard
  notReserved : reserved.contains t = false

theorem isWordChar_of_isIdentifierChar {c : Char} (name : isIdentifierChar c) : isWordChar c := by
  rw [isIdentifierChar, Bool.or_eq_true, beq_iff_eq] at name
  rcases name with alphanumeric | rfl
  · have ascii : c.toNat < 0x80 := by
      rw [Char.isAlphanum, Bool.or_eq_true, isAlpha_iff, isDigit_iff] at alphanumeric
      omega
    simp [isWordChar, isLetterOrNumber, ascii, alphanumeric]
  · decide

theorem isPlain_of_isIdentifierChar {c : Char} (name : isIdentifierChar c) : isPlain c := by
  by_contra special
  have cases : c = '#' ∨ c = '-' ∨ c = '/' ∨ c = '\'' ∨ c = '"' ∨ c = '`' ∨ c = '(' ∨ c = ')' := by
    simp only [isPlain, isQuote] at special
    grind
  rcases cases with rfl | rfl | rfl | rfl | rfl | rfl | rfl | rfl <;> revert name <;> decide

def AllReserved (ks : List Keyword) : Prop := ∀ k ∈ ks, IsKeyword k ∧ k.headD [] ∈ ReservedWords.standard

instance (ks : List Keyword) : Decidable (AllReserved ks) := by unfold AllReserved; infer_instance

namespace Identifier

variable {reserved : ReservedWords} {t : Text} {ks : List Keyword} {d : Char}

theorem not_mem (name : Identifier reserved t) (other : isIdentifierChar d = false) : d ∉ t := by
  intro member
  rw [name.chars d member] at other
  cases other

theorem bare (name : Identifier reserved t) : ∀ c ∈ t, isBlank c = false := by
  intro c member
  by_contra blank
  have word := isWordChar_of_isIdentifierChar (name.chars c member)
  rw [isWordChar_of_isBlank c (by simpa using blank)] at word
  cases word

theorem neat (name : Identifier reserved t) : Neat t := by
  refine .of_plain (fun c member => ⟨isPlain_of_isIdentifierChar (name.chars c member), name.bare c member, ?_⟩)
    name.full
  rintro rfl
  exact name.not_mem (by decide) member

theorem topWords_eq (name : Identifier reserved t) : (topWords t).map Prod.snd = upper t :: t.tail.map fun _ => [] := by
  obtain ⟨c, w, rfl⟩ := List.exists_cons_of_ne_nil name.full
  rw [topWords_word fun d member => ⟨isWordChar_of_isIdentifierChar (name.chars d member),
    isPlain_of_isIdentifierChar (name.chars d member)⟩, List.map_cons, List.map_map]
  rfl

theorem lacks (name : Identifier reserved t) (allReserved : AllReserved ks) : Lacks ks t := by
  apply lacks_of_words fun k member => (allReserved k member).1
  intro k member inside
  obtain ⟨⟨full, words⟩, standard⟩ := allReserved k member
  obtain ⟨w, ws, rfl⟩ := List.exists_cons_of_ne_nil full
  rw [name.topWords_eq, List.headD_cons, List.mem_cons] at inside
  rcases inside with rfl | empty
  · exact name.notStandard standard
  · obtain ⟨-, -, rfl⟩ := List.mem_map.mp empty
    exact (words [] (by simp)).1 rfl

theorem firstWord_eq (name : Identifier reserved t) : firstWord t = upper t := by
  have whole := takeWhile_of_stop (u := []) (fun c member => isWordChar_of_isIdentifierChar (name.chars c member)) rfl
  rw [List.append_nil] at whole
  rw [firstWord, whole]

theorem lastWord_eq (name : Identifier reserved t) : lastWord t = upper t := by
  have whole := takeWhile_of_stop (u := []) (s := t.reverse)
    (fun c member => isWordChar_of_isIdentifierChar (name.chars c (List.mem_reverse.mp member))) rfl
  rw [List.append_nil] at whole
  rw [lastWord, whole, List.reverse_reverse]

theorem hasTop_eq (name : Identifier reserved t) (other : isIdentifierChar d = false) : hasTop d t = false :=
  hasTop_of_not_mem (name.not_mem other)

theorem item (name : Identifier reserved t) : Item t := name.neat.item (name.hasTop_eq (by decide))

theorem noMark (name : Identifier reserved t) : '?' ∉ t := name.not_mem (by decide)

theorem unquoted_eq (name : Identifier reserved t) : unquoted t = t := by
  have noQuote (q : Char) (other : isIdentifierChar q = false) : t.head? ≠ some q := by
    intro first
    exact name.not_mem other (List.mem_of_mem_head? first)
  rw [unquoted, name.neat.trim, if_neg]
  rintro ⟨-, backquoted | quoted⟩
  · exact noQuote '`' (by decide) backquoted.1
  · exact noQuote '"' (by decide) quoted.1

theorem splitTop_eq (name : Identifier reserved t) : splitTop '.' t = [t] := by
  rw [QueryChain.splitTop_eq, topPieces_of_whole (name.hasTop_eq (by decide)), name.neat.trim, dropEndWhile]
  simp [name.full]

theorem segments_eq (name : Identifier reserved t) : segments t = [t] := by
  rw [segments, name.neat.trim, name.splitTop_eq, List.map_singleton, name.unquoted_eq]

theorem plainName_eq (name : Identifier reserved t) : plainName t = t := by
  rw [plainName, name.segments_eq, joinWith_one]

theorem columnName_eq (name : Identifier reserved t) : columnName t = t := by
  rw [columnName, name.segments_eq]
  rfl

end Identifier

structure TableText where
  name : Text
  aliasName : Option (Bool × Text) := none
  deriving DecidableEq, Repr

namespace TableText

def text (t : TableText) : Text :=
  match t.aliasName with
  | none => t.name
  | some (false, a) => t.name ++ ' ' :: a
  | some (true, a) => t.name ++ ' ' :: ("AS".toList ++ ' ' :: a)

def ref (t : TableText) : TableRef :=
  match t.aliasName with
  | none => { table := t.name }
  | some (_, a) => { table := t.name, aliasName := some a, aliasWritten := true }

structure Named (reserved : ReservedWords) (t : TableText) : Prop where
  name : Identifier reserved t.name
  aliasName : ∀ a ∈ t.aliasName, Identifier reserved a.2

variable {reserved : ReservedWords} {t : TableText} {ks : List Keyword}

theorem neat (named : t.Named reserved) : Neat t.text := by
  obtain ⟨name, aliasName⟩ := t
  have first := named.name
  have notAnd : ∀ k ∈ seamKeywords, upper name ∉ k.dropLast := by
    have reservedWords : ∀ k ∈ seamKeywords, ∀ w ∈ k.dropLast, w ∈ ReservedWords.standard := by decide
    intro k member inside
    exact first.notStandard (reservedWords k member _ inside)
  have apart (u : Text) : Uncrossed seamKeywords name u := fun k member =>
    .inl (by rw [first.lastWord_eq]; exact notAnd k member)
  have word : Neat "AS" := Neat.of_plain (by decide) (by decide)
  match aliasName, named.aliasName with
  | none, _ => exact first.neat
  | some (false, a), second => exact first.neat.glue (second (false, a) rfl).neat (apart _)
  | some (true, a), second =>
    refine first.neat.glue (word.glue (second (true, a) rfl).neat ?_) (apart _)
    have other : ∀ k ∈ seamKeywords, lastWord "AS" ∉ k.dropLast := by decide
    exact fun k member => .inl (other k member)

theorem words_eq (named : t.Named reserved) : ∀ w ∈ (topWords t.text).map Prod.snd,
    w = [] ∨ w = "AS".toList ∨ w = upper t.name ∨ ∃ a ∈ t.aliasName, w = upper a.2 := by
  obtain ⟨name, aliasName⟩ := t
  have first := named.name
  have inName {w t : Text} (isName : Identifier reserved t) (member : w ∈ (topWords t).map Prod.snd) :
      w = [] ∨ w = upper t := by
    rw [isName.topWords_eq, List.mem_cons] at member
    rcases member with same | rest
    · exact .inr same
    · obtain ⟨-, -, rfl⟩ := List.mem_map.mp rest
      exact .inl rfl
  have word : (topWords "AS").map Prod.snd = ["AS".toList, []] := by decide
  have solidWord : Solid "AS" := Solid.plain (by decide)
  intro w member
  match aliasName, named.aliasName with
  | none, _ => exact (inName first member).elim .inl fun same => .inr (.inr (.inl same))
  | some (false, a), second =>
    simp only [text, first.neat.solid.topWords_glue, List.map_append, List.map_cons, List.mem_append,
      List.mem_cons] at member
    rcases member with inFirst | empty | inSecond
    · exact (inName first inFirst).elim .inl fun same => .inr (.inr (.inl same))
    · exact .inl empty
    · exact (inName (second _ rfl) inSecond).elim .inl fun same => .inr (.inr (.inr ⟨_, rfl, same⟩))
  | some (true, a), second =>
    simp only [text, first.neat.solid.topWords_glue, solidWord.topWords_glue, List.map_append, List.map_cons,
      word, List.mem_append, List.mem_cons, List.not_mem_nil, or_false] at member
    rcases member with inFirst | empty | (isAs | empty) | empty | inSecond
    · exact (inName first inFirst).elim .inl fun same => .inr (.inr (.inl same))
    · exact .inl empty
    · exact .inr (.inl isAs)
    · exact .inl empty
    · exact .inl empty
    · exact (inName (second _ rfl) inSecond).elim .inl fun same => .inr (.inr (.inr ⟨_, rfl, same⟩))

theorem lacks (named : t.Named reserved) (allReserved : AllReserved ks)
    (noAs : ∀ k ∈ ks, k.headD [] ≠ "AS".toList) : Lacks ks t.text := by
  apply lacks_of_words fun k member => (allReserved k member).1
  intro k member inside
  obtain ⟨⟨full, words⟩, standard⟩ := allReserved k member
  obtain ⟨w, ws, rfl⟩ := List.exists_cons_of_ne_nil full
  rcases words_eq named _ inside with empty | isAs | isName | ⟨a, isAlias, same⟩
  · exact (words w (by simp)).1 empty
  · exact noAs _ member isAs
  · exact named.name.notStandard (isName ▸ standard)
  · exact (named.aliasName a isAlias).notStandard (same ▸ standard)

theorem chars (named : t.Named reserved) : ∀ c ∈ t.text, c = ' ' ∨ isIdentifierChar c := by
  obtain ⟨name, aliasName⟩ := t
  have first := named.name.chars
  have word : ∀ c ∈ "AS".toList, isIdentifierChar c := by decide
  intro c member
  match aliasName, named.aliasName with
  | none, _ => exact .inr (first c member)
  | some (false, a), second =>
    simp only [text, List.mem_append, List.mem_cons] at member
    rcases member with inFirst | space | inSecond
    · exact .inr (first c inFirst)
    · exact .inl space
    · exact .inr ((second _ rfl).chars c inSecond)
  | some (true, a), second =>
    simp only [text, List.mem_append, List.mem_cons] at member
    rcases member with inFirst | space | inWord | space | inSecond
    · exact .inr (first c inFirst)
    · exact .inl space
    · exact .inr (word c inWord)
    · exact .inl space
    · exact .inr ((second _ rfl).chars c inSecond)

theorem not_mem (named : t.Named reserved) {d : Char} (space : d ≠ ' ') (other : isIdentifierChar d = false) :
    d ∉ t.text := by
  intro member
  rcases chars named d member with same | name
  · exact space same
  · rw [name] at other
    cases other

theorem hasTop_eq (named : t.Named reserved) {d : Char} (space : d ≠ ' ') (other : isIdentifierChar d = false) :
    hasTop d t.text = false := hasTop_of_not_mem (not_mem named space other)

theorem item (named : t.Named reserved) : Item t.text := (neat named).item (hasTop_eq named (by decide) (by decide))

theorem head_ne (named : t.Named reserved) {d : Char} (space : d ≠ ' ') (other : isIdentifierChar d = false) :
    t.text.head? ≠ some d := fun first => not_mem named space other (List.mem_of_mem_head? first)

theorem numbered_eq (named : t.Named reserved) (issued : Nat) : numbered issued t.text = t.text :=
  numbered_of_free (not_mem named (by decide) (by decide)) issued

theorem placeholders_eq (named : t.Named reserved) : placeholders t.text = 0 :=
  placeholders_of_free (not_mem named (by decide) (by decide))

theorem tokens_eq (named : t.Named reserved) : tokens t.text = t.name :: match t.aliasName with
    | none => []
    | some (false, a) => [a]
    | some (true, a) => ["AS".toList, a] := by
  obtain ⟨name, aliasName⟩ := t
  have first := named.name
  have token {w : Text} (isName : Identifier reserved w) : tokens w = [w] := tokens_bare isName.bare isName.full
  have solidWord : Solid "AS" := Solid.plain (by decide)
  have word : tokens "AS" = ["AS".toList] := tokens_bare (by decide) (by decide)
  match aliasName, named.aliasName with
  | none, _ => exact token first
  | some (false, a), second =>
    simp only [text, tokens_glue first.neat.solid, token first, token (second _ rfl)]
    rfl
  | some (true, a), second =>
    simp only [text, tokens_glue first.neat.solid, tokens_glue solidWord, word, token first, token (second _ rfl)]
    rfl

/-- A written table is read as what it stands for, with nothing behind it. -/
theorem ofText?_eq (named : t.Named reserved) : TableFragment.ofText? reserved t.text = some ⟨t.ref, []⟩ := by
  have first := named.name
  have noGroup : t.name.contains '(' = false := by
    have absent := first.not_mem (d := '(') (by decide)
    simpa using absent
  have noQuote : (t.name.head? == some '\'') = false := by
    rw [beq_eq_false_iff_ne]
    exact fun start => first.not_mem (d := '\'') (by decide) (List.mem_of_mem_head? start)
  have accepted {a : Text} (isName : Identifier reserved a) : acceptsAlias reserved a := by
    have absent := isName.not_mem (d := '(') (by decide)
    simp [acceptsAlias, isName.full, isName.notReserved, absent]
  have other {a : Text} (isName : Identifier reserved a) : isAs a = false := by
    rw [isAs, Bool.eq_false_iff]
    intro same
    rw [sameLetters_iff] at same
    exact isName.notStandard (same ▸ by decide)
  have isAsWord : isAs "AS" := by decide
  obtain ⟨name, aliasName⟩ := t
  rw [TableFragment.ofText?, tokens_eq named]
  simp only [noGroup, noQuote, Bool.or_false, Bool.false_eq_true, if_false, first.plainName_eq]
  match aliasName, named.aliasName with
  | none, _ => rfl
  | some (false, a), second =>
    have isName := second _ rfl
    simp only [aliasCandidate?, other isName, Bool.false_eq_true, if_false, isName.plainName_eq,
      accepted isName, if_true]
    rfl
  | some (true, a), second =>
    have isName := second _ rfl
    simp only [aliasCandidate?, isAsWord, if_true, isName.plainName_eq, accepted isName]
    rfl

end TableText
end QueryChain
