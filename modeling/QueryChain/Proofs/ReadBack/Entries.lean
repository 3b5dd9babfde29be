import QueryChain.Proofs.ReadBack.Listing
import QueryChain.Statement.Refinement

namespace QueryChain

section Tokens

variable {s t u : Text}

theorem tokens_glue (solid : Solid s) (u : Text) : tokens (s ++ ' ' :: u) = tokens s ++ tokens u := by
  have blank : (⟨' ', 0, .code⟩ : Mark).isTopBlank := by decide
  rw [tokens, solid.scan_glue, List.splitOnP_append_cons _ _ blank, List.filter_append, List.map_append]
  rfl

theorem tokens_bare (bare : ∀ c ∈ t, isBlank c = false) (full : t ≠ []) : tokens t = [t] := by
  have none : ∀ m ∈ scan t, m.isTopBlank = false := by
    intro m member
    have inText : m.char ∈ markText (scan t) := List.mem_map_of_mem member
    rw [markText_scan] at inText
    simp [Mark.isTopBlank, bare m.char inText]
  have some_ : scan t ≠ [] := by
    intro empty
    have length := congrArg List.length empty
    rw [length_scan] at length
    exact full (List.length_eq_zero_iff.mp length)
  rw [tokens, List.splitOnP_eq_singleton none]
  simp [some_]

theorem tokens_ne_nil (full : t ≠ []) (starts : ∀ c ∈ t.head?, isBlank c = false) : tokens t ≠ [] := by
  obtain ⟨c, rest, rfl⟩ := List.exists_cons_of_ne_nil full
  have first : isBlank c = false := starts c rfl
  obtain ⟨m, ms, marks⟩ : ∃ m ms, scan (c :: rest) = m :: ms := ⟨_, _, rfl⟩
  have char : m.char = c := by
    have text := markText_scan (c :: rest)
    rw [marks] at text
    exact (List.cons.inj text).1
  obtain ⟨piece, pieces, parts⟩ := List.exists_cons_of_ne_nil (List.splitOnP_ne_nil Mark.isTopBlank ms)
  rw [tokens, marks, List.splitOnP_cons_eq_if_modifyHead, if_neg (by simp [Mark.isTopBlank, char, first]), parts]
  simp

end Tokens
section Order

variable {e : Text}

def orderText (e : Text × Direction) : Text := e.1 ++ ' ' :: e.2.word

theorem orderItem_text (solid : Solid e) (trimmed : trim e = e) (full : e ≠ []) (d : Direction) :
    orderItem (orderText (e, d)) = ⟨e, d⟩ := by
  have bare : ∀ c ∈ d.word, isBlank c = false := by cases d <;> decide
  have word : d.word ≠ [] := by cases d <;> decide
  have starts : ∀ c ∈ e.head?, isBlank c = false := by
    rw [← trimmed]
    exact fun c => head?_trim
  have some_ := tokens_ne_nil full starts
  obtain ⟨last, more, reversed⟩ := List.exists_cons_of_ne_nil (mt List.reverse_eq_nil_iff.mp some_)
  have found : (tokens (e ++ ' ' :: d.word)).reverse = d.word :: last :: more := by
    rw [tokens_glue solid, tokens_bare bare word, List.reverse_append, reversed]
    rfl
  have field : trim ((e ++ ' ' :: d.word).take ((e ++ ' ' :: d.word).length - d.word.length)) = e := by
    have parts : e ++ ' ' :: d.word = (e ++ [' ']) ++ d.word := by simp
    rw [parts, List.length_append, Nat.add_sub_cancel, List.take_left]
    exact trim_pad (f := []) (by simp) (by decide) trimmed
  rw [orderItem, orderText, found]
  simp only [field]
  cases d with
  | ascending => rw [if_neg (by decide), if_pos (by decide)]
  | descending => rw [if_pos (by decide)]

end Order
section Bounds

inductive BoundText where
  | literal (value : Nat)
  | placeholder
  deriving DecidableEq, Repr

namespace BoundText

def text : BoundText → Text
  | .literal n => decimal n
  | .placeholder => "?"

def bound (issued : Nat) : BoundText → Bound
  | .literal n => .literal n
  | .placeholder => .param (issued + 1)

def Fits (issued : Nat) : BoundText → Prop
  | .literal n => n ≤ largestNumber
  | .placeholder => issued + 1 ≤ largestNumber

instance (issued : Nat) : (b : BoundText) → Decidable (b.Fits issued)
  | .literal n => inferInstanceAs (Decidable (n ≤ largestNumber))
  | .placeholder => inferInstanceAs (Decidable (issued + 1 ≤ largestNumber))

theorem text_cases (b : BoundText) : (∃ c w, b.text = c :: w ∧ ∀ d ∈ c :: w, d.isDigit) ∨ b.text = "?".toList := by
  cases b with
  | literal n =>
    obtain ⟨d, ds, digits⟩ := exists_decimal n
    exact .inl ⟨d, ds, digits, fun c member => isDigit_of_mem_decimal (digits ▸ member)⟩
  | placeholder => exact .inr rfl

theorem neat (b : BoundText) : Neat b.text := by
  rcases b.text_cases with ⟨c, w, text, digits⟩ | text
  · rw [text]
    apply Neat.of_plain _ (by simp)
    intro d member
    refine ⟨isPlain_of_isDigit (digits d member), isBlank_of_isDigit (digits d member), ?_⟩
    rintro rfl
    exact absurd (digits _ member) (by decide)
  · rw [text]
    exact Neat.of_plain (by decide) (by decide)

theorem lacks (b : BoundText) {ks : List Keyword} (areKeywords : ∀ k ∈ ks, IsKeyword k) : Lacks ks b.text := by
  apply lacks_of_words areKeywords
  intro k member inside
  obtain ⟨full, words⟩ := areKeywords k member
  obtain ⟨w, ws, rfl⟩ := List.exists_cons_of_ne_nil full
  obtain ⟨wordFull, capital⟩ := words w (by simp)
  rcases b.text_cases with ⟨c, v, text, digits⟩ | text
  · rw [text, topWords_word fun d member => ⟨isWordChar_of_isDigit (digits d member),
      isPlain_of_isDigit (digits d member)⟩] at inside
    simp only [List.map_cons, List.map_map, List.mem_cons, List.headD_cons] at inside
    rcases inside with same | rest
    · have letter := capital c.toUpper (by rw [same]; simp [upper])
      rw [isCapital_of_isDigit (digits c (by simp))] at letter
      cases letter
    · obtain ⟨d, -, same⟩ := List.mem_map.mp rest
      exact wordFull same.symm
  · rw [text, show topWords "?" = [('?', [])] by decide] at inside
    simp only [List.map_cons, List.map_nil, List.mem_singleton, List.headD_cons] at inside
    exact wordFull inside

theorem item (b : BoundText) : Item b.text := by
  apply b.neat.item
  rcases b.text_cases with ⟨c, v, text, digits⟩ | text
  · rw [text]
    apply hasTop_of_not_mem
    intro inText
    exact absurd (digits _ inText) (by decide)
  · rw [text]
    decide

theorem numbered_placeholder (issued : Nat) : numbered issued "?" = paramName (issued + 1) := by
  have marks : scan "?" = [⟨'?', 0, .code⟩] := by decide
  rw [numbered, marks, numberMarks, if_pos (by decide), numberMarks, List.append_nil]

theorem bound?_numbered (b : BoundText) {issued : Nat} (fits : b.Fits issued) :
    bound? (numbered issued b.text) = some (b.bound issued) := by
  cases b with
  | literal n =>
    have noMark : '?' ∉ decimal n := by
      intro member
      exact absurd (isDigit_of_mem_decimal member) (by decide)
    have trimmed : trim (decimal n) = decimal n := (BoundText.literal n).neat.trim
    have full : decimal n ≠ [] := (BoundText.literal n).neat.ne_nil
    have digits : (decimal n).all Char.isDigit := by
      simpa using fun c => isDigit_of_mem_decimal
    rw [text, numbered_of_free noMark, bound?, trimmed, if_pos ⟨full, digits⟩, number?_decimal fits]
    rfl
  | placeholder =>
    have trimmed : trim (paramName (issued + 1)) = paramName (issued + 1) := by
      rw [← numbered_placeholder]
      exact trim_numbered (by decide) issued
    have rest : after? paramMarker (paramName (issued + 1)) = some (decimal (issued + 1)) := by
      simp [after?, paramName]
    have marked : paramMarker.all Char.isDigit = false := by decide
    have noLiteral : ¬(paramName (issued + 1) ≠ [] ∧ (paramName (issued + 1)).all Char.isDigit) := by
      simp [paramName, marked]
    rw [text, numbered_placeholder, bound?, trimmed, if_neg noLiteral, param?, trimmed, rest, Option.bind_some,
      number?_decimal fits]
    rfl

theorem limit?_numbered (b : BoundText) {issued : Nat} (fits : b.Fits issued) :
    limit? (numbered issued b.text) = some (none, b.bound issued) := by
  have item := b.item.named issued
  have items : ∀ t ∈ [numbered issued b.text], Item t := by simpa using item
  have alone := splitTop_list items
  rw [joinWith_one] at alone
  rw [limit?, alone]
  dsimp only
  rw [b.bound?_numbered fits]
  rfl

end BoundText
end Bounds
end QueryChain
