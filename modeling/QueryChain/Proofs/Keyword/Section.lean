import QueryChain.Proofs.Keyword.Position
import QueryChain.Statement.Section

namespace QueryChain

/-- Trimming takes blanks off both ends. -/
theorem trim_spec (t : Text) : ∃ front back, t = front ++ trim t ++ back ∧
    (∀ c ∈ front, isBlank c) ∧ ∀ c ∈ back, isBlank c := by
  refine ⟨(trimEnd t).takeWhile isBlank, (t.reverse.takeWhile isBlank).reverse, ?_, ?_, ?_⟩
  · rw [trim, trimStart, List.takeWhile_append_dropWhile, trimEnd, dropEndWhile_append_takeWhile]
  · exact fun c member => List.mem_takeWhile_imp member
  · exact fun c member => List.mem_takeWhile_imp (List.mem_reverse.mp member)

theorem head?_trim {t : Text} {c : Char} (first : (trim t).head? = some c) : isBlank c = false := by
  have stop := List.head?_dropWhile_not isBlank (trimEnd t)
  rw [trim, trimStart] at first
  rw [first] at stop
  simpa using stop

theorem getLast?_trimEnd {t : Text} {c : Char} (last : (trimEnd t).getLast? = some c) :
    isBlank c = false := by
  have stop := List.head?_dropWhile_not isBlank t.reverse
  rw [trimEnd, dropEndWhile, List.getLast?_reverse] at last
  rw [last] at stop
  simpa using stop

theorem getLast?_trim {t : Text} {c : Char} (last : (trim t).getLast? = some c) : isBlank c = false := by
  apply getLast?_trimEnd (t := t)
  have parts := List.takeWhile_append_dropWhile (p := isBlank) (l := trimEnd t)
  rw [← parts, List.getLast?_append]
  rw [trim, trimStart] at last
  rw [last, Option.some_or]

/-- Where no blank stands at either end nothing is trimmed. -/
theorem trim_eq_self {t : Text} (first : ∀ c, t.head? = some c → isBlank c = false)
    (last : ∀ c, t.getLast? = some c → isBlank c = false) : trim t = t := by
  have stays {u : Text} (first : ∀ c, u.head? = some c → isBlank c = false) :
      u.dropWhile isBlank = u := by
    cases u with
    | nil => rfl
    | cons c u => simp [first c rfl]
  have whole : trimEnd t = t := by
    rw [trimEnd, dropEndWhile, stays, List.reverse_reverse]
    rwa [List.head?_reverse]
  rw [trim, trimStart, whole, stays first]

theorem trim_trim (t : Text) : trim (trim t) = trim t :=
  trim_eq_self (fun _ => head?_trim) (fun _ => getLast?_trim)

theorem trim_slice {sql : Text} {b e : Nat} (le : b ≤ e) (bound : e ≤ sql.length) :
    ∃ b' e', b ≤ b' ∧ b' ≤ e' ∧ e' ≤ e ∧ trim (slice b e sql) = slice b' e' sql ∧
      (∀ c ∈ slice b b' sql, isBlank c) ∧ ∀ c ∈ slice e' e sql, isBlank c := by
  obtain ⟨front, back, parts, blankFront, blankBack⟩ := trim_spec (slice b e sql)
  have length := congrArg List.length parts
  rw [length_slice bound, List.length_append, List.length_append] at length
  obtain ⟨first, middle, last⟩ := slice_of_append le bound parts
  refine ⟨b + front.length, e - back.length, by omega, by omega, by omega, middle.symm, ?_, ?_⟩
  · rwa [first]
  · rwa [last]

/-- A section from its keyword at `p` over the start of its body at `b` up to its end at `e`. -/
structure SectionAt (sql : Text) (k : Keyword) (ends : List Keyword) (p b e : Nat) : Prop where
  opens : Stands sql k p b
  first : ∀ i < p, ∀ q, ¬Stands sql k i q
  le : b ≤ e
  bound : e ≤ sql.length
  inside : ∀ i, b ≤ i → i < e → ¬StandsOne sql ends i
  stop : e = sql.length ∨ StandsOne sql ends e

theorem section?_eq_some {sql body : Text} {k : Keyword} {ends : List Keyword}
    (isKeyword : IsKeyword k) (areKeywords : ∀ k ∈ ends, IsKeyword k)
    (found : section? k ends sql = some body) :
    ∃ p b e, SectionAt sql k ends p b e ∧ body = trim (slice b e sql) := by
  obtain ⟨⟨passed, after⟩, here, rfl⟩ := Option.map_eq_some_iff.mp found
  rw [← cursorAt_zero] at here
  obtain ⟨p, -, -, none, k', member, b, opens, rfl⟩ :=
    find?_cursorAt (by simpa using isKeyword) (Nat.zero_le _) here
  obtain rfl := List.mem_singleton.mp member
  obtain ⟨e, le, bound, body, inside, stop⟩ := upTo_cursorAt areKeywords opens.bound
  refine ⟨p, b, e, ⟨opens, ?_, le, bound, inside, stop⟩, ?_⟩
  swap
  · exact congrArg trim body
  intro i below q stands
  exact none i (Nat.zero_le _) below ⟨k', member, q, stands⟩

theorem section?_eq_none {sql : Text} {k : Keyword} {ends : List Keyword}
    (isKeyword : IsKeyword k) (missed : section? k ends sql = none) : ∀ p q, ¬Stands sql k p q := by
  intro p q stands
  rw [section?, Option.map_eq_none_iff, ← cursorAt_zero] at missed
  have before := stands.lt isKeyword
  have bound := stands.bound
  exact find?_cursorAt_eq_none (by simpa using isKeyword) missed p (Nat.zero_le _) (by omega)
    ⟨k, by simp, q, stands⟩

def ApartFrom (k k' : Keyword) : Prop := ∀ w ∈ k.tail, w.head? ≠ (k'.headD []).head?

instance (k k' : Keyword) : Decidable (ApartFrom k k') := by unfold ApartFrom; infer_instance

namespace Stands

variable {sql : Text} {k k' : Keyword} {p q p' q' : Nat}

theorem not_inside (stands : Stands sql k p q) (other : Stands sql k' p' q') (isKeyword : IsKeyword k)
    (isKeyword' : IsKeyword k') (apart : ApartFrom k k') (later : p < p') : q ≤ p' := by
  by_contra inside
  have bound := stands.bound
  have before : (slice p q sql)[p' - 1 - p]? = some sql[p' - 1] := by
    rw [slice_eq_take_drop, List.getElem?_take, if_pos (by omega), List.getElem?_drop,
      List.getElem?_eq_getElem (by omega)]
    congr 1
    congr 1
    omega
  have here : (slice p q sql)[p' - 1 - p + 1]? = some sql[p'] := by
    rw [slice_eq_take_drop, List.getElem?_take, if_pos (by omega), List.getElem?_drop,
      List.getElem?_eq_getElem (by omega)]
    congr 1
    congr 1
    omega
  have notWord : isWordChar sql[p' - 1] = false := by
    have start := other.before
    obtain ⟨n, rfl⟩ : ∃ n, p' = n + 1 := ⟨p' - 1, by omega⟩
    rw [before_cursorAt (by omega)] at start
    simpa using start
  rcases stands.spells.chars isKeyword _ (List.mem_of_getElem? before) with blank | letter
  · obtain ⟨l', d, starts', firstOther, capital', same'⟩ := other.spells.first_letter isKeyword'
    have after := other.lt isKeyword'
    rw [slice_eq_take_drop, List.head?_take, if_neg (by omega), List.head?_drop,
      List.getElem?_eq_getElem (by omega), Option.some.injEq] at firstOther
    subst firstOther
    rcases stands.spells.behind_blank isKeyword _ _ _ blank before here with again | ⟨w, member, l, starts, same⟩
    · rw [isBlank_of_isKeywordChar _ (isKeywordChar_of_sameLetter l' _ capital' same')] at again
      cases again
    · have capital := (isKeyword.2 w (List.mem_of_mem_tail member)).2 l (List.mem_of_mem_head? starts)
      rw [sameLetter, beq_iff_eq, toUpper_of_isCapital _ capital] at same
      rw [sameLetter, beq_iff_eq, toUpper_of_isCapital _ capital'] at same'
      apply apart w member
      rw [starts', Option.mem_def.mp starts, same, same']
  · rw [isWordChar_of_isKeywordChar _ letter] at notWord
    cases notWord

end Stands
end QueryChain
