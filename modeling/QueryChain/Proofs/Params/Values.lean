import QueryChain.Builder.Chain
import QueryChain.Proofs.Params.Pieces
import QueryChain.Statement.Refinement

namespace QueryChain

variable {t : Text}

/-- Either nothing is cut off, or the last piece stands behind the last separator. -/
theorem splitOnP_last {α : Type} (p : α → Bool) (l : List α) :
    l.splitOnP p = [l] ∨ ∃ front sep last, l = front ++ sep :: last ∧ p sep ∧
      l.splitOnP p = front.splitOnP p ++ [last] := by
  have parts := dropEndWhile_append_takeWhile (!p ·) l
  have none : ∀ a ∈ (l.reverse.takeWhile (!p ·)).reverse, p a = false := by
    intro a member
    simpa using List.mem_takeWhile_imp (List.mem_reverse.mp member)
  generalize (l.reverse.takeWhile (!p ·)).reverse = last at parts none
  cases end_ : (dropEndWhile (!p ·) l).getLast? with
  | none =>
    left
    rw [List.getLast?_eq_none_iff] at end_
    rw [end_, List.nil_append] at parts
    rw [← parts]
    exact List.splitOnP_eq_singleton none
  | some sep =>
    right
    have holds : p sep := by
      have stop := List.head?_dropWhile_not (!p ·) l.reverse
      rw [dropEndWhile, List.getLast?_reverse] at end_
      rw [end_] at stop
      simpa using stop
    obtain ⟨front, eq⟩ := List.getLast?_eq_some_iff.mp end_
    have whole : l = front ++ sep :: last := by
      rw [← parts, eq, List.append_assoc]
      rfl
    refine ⟨front, sep, last, whole, holds, ?_⟩
    conv_lhs => rw [whole]
    rw [List.splitOnP_append_cons front last holds, List.splitOnP_eq_singleton none]

/-- The last of several tokens stands behind a blank at the end of the text. -/
theorem last_token {last : Text} {more : List Text} (trimmed : trim t = t)
    (found : (tokens t).reverse = last :: more) (several : more ≠ []) :
    ∃ front b, t = front ++ [b] ++ last ∧ isBlank b := by
  rw [tokens] at found
  rcases splitOnP_last Mark.isTopBlank (scan t) with one | ⟨front, sep, back, whole, holds, pieces⟩
  · rw [one] at found
    by_cases empty : scan t = []
    · simp [empty] at found
    · have pieces : [markText (scan t)] = last :: more := by simpa [empty] using found
      exact absurd (List.cons.inj pieces).2.symm several
  · have blank : isBlank sep.char := by
      rw [Mark.isTopBlank, Bool.and_eq_true] at holds
      exact holds.1
    have text : t = markText front ++ [sep.char] ++ markText back := by
      rw [← markText_scan t, whole]
      simp [markText]
    by_cases empty : back = []
    · exfalso
      have noBlank := getLast?_trim (t := t) (c := sep.char) (by
        rw [trimmed, text, empty]
        simp [markText])
      rw [blank] at noBlank
      cases noBlank
    · rw [pieces, List.filter_append, List.map_append, List.reverse_append] at found
      have end_ : markText back = last := by
        have heads := congrArg List.head? found
        simpa [empty] using heads
      exact ⟨markText front, sep.char, by rw [← end_]; exact text, blank⟩

theorem no_colon_of_word {w u : Text} (capital : ∀ c ∈ w, isCapital c) (same : sameLetters u w) :
    ':' ∉ u := by
  intro member
  have letter := isKeywordChar_of_upper capital (sameLetters_iff.mp same).symm ':' member
  revert letter
  decide

theorem splits_orderItem (trimmed : trim t = t) (clear : Clear t) : Splits t [(orderItem t).field] := by
  cases found : (tokens t).reverse with
  | nil =>
    rw [orderItem, found]
    exact .self clear
  | cons last more =>
    cases more with
    | nil =>
      rw [orderItem, found]
      exact .self clear
    | cons token more =>
      obtain ⟨front, b, text, blank⟩ := last_token trimmed found (by simp)
      have length : t.take (t.length - last.length) = front ++ [b] := by
        conv_lhs => rw [text]
        rw [List.length_append, Nat.add_sub_cancel, List.take_left]
      have field (no : ':' ∉ last) : Splits t [trim (t.take (t.length - last.length))] := by
        rw [length]
        rw [text] at clear ⊢
        have cut := clear.cutEnd no (apart_of_blank_end (by simpa using blank))
        have trimmed := splits_trim cut.clear_one
        exact ⟨trimmed.clear, cut.names_one.trans trimmed.names⟩
      rw [orderItem, found]
      dsimp only
      by_cases descending : sameLetters last "DESC".toList
      · rw [if_pos descending]
        exact field (no_colon_of_word (by decide) descending)
      · rw [if_neg descending]
        by_cases ascending : sameLetters last "ASC".toList
        · rw [if_pos ascending]
          exact field (no_colon_of_word (by decide) ascending)
        · rw [if_neg ascending]
          exact .self clear

theorem digits_of_number? {n : Nat} (read : number? t = some n) : ∀ c ∈ t, c.isDigit := by
  rw [number?] at read
  by_cases digits : t ≠ [] ∧ t.all Char.isDigit
  · simpa using digits.2
  · rw [if_neg digits] at read
    cases read

theorem paramsIn_of_digits (digits : ∀ c ∈ t, c.isDigit) : paramsIn t = [] := by
  apply paramsIn_of_no_colon
  intro member
  have digit := digits ':' member
  revert digit
  decide

theorem paramsIn_of_param? {n : Nat} (clear : Clear t) (read : param? t = some n) : paramsIn t = [n] := by
  obtain ⟨found, -⟩ := Option.filter_eq_some_iff.mp read
  obtain ⟨rest, starts, number⟩ := Option.bind_eq_some_iff.mp found
  have name := after?_eq_some_iff.mp starts
  have trimmed := splits_trim clear
  have digits := digits_of_number? number
  have tail : namesIn ("param".toList ++ rest) = [] := by
    apply namesIn_of_no_colon
    intro member
    rcases List.mem_append.mp member with letter | digit
    · revert letter
      decide
    · have isDigit := digits ':' digit
      revert isDigit
      decide
  have parts : trim t = ':' :: ("param".toList ++ rest) := name
  rw [trimmed.names_one, trimmed.clear_one.shown, parts, namesIn, tail, ← parts, name,
    paramAtStart?_name, List.takeWhile_eq_self_iff.mpr digits, number]
  rfl

theorem params_ofValue (clear : Clear t) : (Arg.ofValue t).params = paramsIn t := by
  rw [Arg.ofValue]
  cases read : param? t with
  | some n => exact (paramsIn_of_param? clear read).symm
  | none => exact (splits_trim clear).names_one.symm

theorem params_bound? {b : Bound} (clear : Clear t) (read : bound? t = some b) :
    b.arg.params = paramsIn t := by
  have trimmed := splits_trim clear
  rw [bound?] at read
  by_cases digits : trim t ≠ [] ∧ (trim t).all Char.isDigit
  · rw [if_pos digits] at read
    obtain ⟨n, -, rfl⟩ := Option.map_eq_some_iff.mp read
    rw [trimmed.names_one, paramsIn_of_digits (by simpa using digits.2)]
    rfl
  · rw [if_neg digits] at read
    obtain ⟨n, param, rfl⟩ := Option.map_eq_some_iff.mp read
    rw [trimmed.names_one, paramsIn_of_param? trimmed.clear_one param]
    rfl

theorem params_limit? {offset : Option Bound} {count : Bound} (clear : Clear t)
    (read : limit? t = some (offset, count)) :
    offset.toList.flatMap (·.arg.params) ++ count.arg.params = paramsIn t := by
  have pieces := splits_splitTop (d := ',') (by decide) clear
  rw [limit?] at read
  split at read
  · rename_i only one
    rw [one] at pieces
    obtain ⟨b, bound, eq⟩ := Option.map_eq_some_iff.mp read
    cases eq
    rw [pieces.names_one, ← params_bound? pieces.clear_one bound]
    rfl
  · rename_i first second two
    rw [two] at pieces
    simp only [Option.bind_eq_bind, Option.bind_eq_some_iff] at read
    obtain ⟨b, bound, b', bound', eq⟩ := read
    cases eq
    rw [pieces.names]
    simp [params_bound? (pieces.clear first (by simp)) bound,
      params_bound? (pieces.clear second (by simp)) bound']
  · cases read

end QueryChain
