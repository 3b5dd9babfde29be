import QueryChain.Proofs.Params.Naming
import QueryChain.Proofs.Statement.Reading

namespace QueryChain

section Decimal

variable {n v : Nat} {digits : Text}

theorem number?_digits (full : digits ≠ []) (all : ∀ c ∈ digits, c.isDigit) : number? digits =
    if Nat.ofDigitChars 10 digits 0 ≤ largestNumber then some (Nat.ofDigitChars 10 digits 0) else none := by
  rw [number?, if_pos ⟨full, by simpa using all⟩]

theorem ofDigitChars_decimal : Nat.ofDigitChars 10 (decimal n ++ digits) 0 =
    10 ^ digits.length * n + Nat.ofDigitChars 10 digits 0 := by
  rw [Nat.ofDigitChars_append, decimal, Nat.ofDigitChars_ten_toDigits,
    Nat.ofDigitChars_eq_ofDigitChars_zero]

theorem decimal_append (all : ∀ c ∈ digits, c.isDigit) :
    decimal n ++ digits ≠ [] ∧ ∀ c ∈ decimal n ++ digits, c.isDigit := by
  refine ⟨?_, ?_⟩
  · have full : decimal n ≠ [] := Nat.toDigits_ne_nil
    simp [full]
  · intro c member
    rcases List.mem_append.mp member with first | second
    · exact isDigit_of_mem_decimal first
    · exact all c second

theorem number?_decimal_eq (n : Nat) : number? (decimal n) = if n ≤ largestNumber then some n else none := by
  have whole : decimal n ++ [] ≠ [] ∧ ∀ c ∈ decimal n ++ [], c.isDigit := decimal_append (by simp)
  have value : Nat.ofDigitChars 10 (decimal n ++ []) 0 =
      10 ^ ([] : Text).length * n + Nat.ofDigitChars 10 [] 0 := ofDigitChars_decimal
  simp only [List.append_nil, List.length_nil, Nat.pow_zero, Nat.one_mul, Nat.ofDigitChars_nil,
    Nat.add_zero] at whole value
  rw [number?_digits whole.1 whole.2, value]

theorem number?_decimal (fits : n ≤ largestNumber) : number? (decimal n) = some n := by
  rw [number?_decimal_eq, if_pos fits]

theorem le_of_number? (all : ∀ c ∈ digits, c.isDigit) (read : number? (decimal n ++ digits) = some v) :
    n ≤ v ∧ (0 < n → v = n → digits = []) := by
  obtain ⟨full, isDigit⟩ := decimal_append (n := n) all
  rw [number?_digits full isDigit, ofDigitChars_decimal] at read
  by_cases fits : 10 ^ digits.length * n + Nat.ofDigitChars 10 digits 0 ≤ largestNumber
  · rw [if_pos fits] at read
    obtain rfl := Option.some.inj read
    have one : 1 ≤ 10 ^ digits.length := Nat.one_le_pow _ _ (by decide)
    have grows := Nat.mul_le_mul_right n one
    refine ⟨by omega, ?_⟩
    intro positive same
    by_contra some_
    have ten : 10 ≤ 10 ^ digits.length := by
      have length := List.length_pos_iff.mpr some_
      calc 10 = 10 ^ 1 := rfl
        _ ≤ 10 ^ digits.length := Nat.pow_le_pow_right (by decide) length
    have much := Nat.mul_le_mul_right n ten
    omega
  · rw [if_neg fits] at read
    cases read

end Decimal

/-- No digit directly follows a placeholder, so that the name put there ends where it was put. -/
def DigitFree (t : Text) : Prop := (scan t).IsChain fun m d => ¬(m.isPlaceholder ∧ d.char.isDigit)

section Marks

variable {k : Nat} {m : Mark} {ms : Marks}

theorem namesIn_no_colon_append {w : Text} (no : ':' ∉ w) (t : Text) : namesIn (w ++ t) = namesIn t := by
  induction w with
  | nil => rfl
  | cons c w ih =>
    rw [List.cons_append, namesIn, paramAtStart?_other (fun colon => no (by simp [colon])),
      ih fun member => no (by simp [member])]
    rfl

theorem namesIn_paramName (n : Nat) (t : Text) : namesIn (paramName n ++ t) =
    (number? (decimal n ++ t.takeWhile Char.isDigit)).toList ++ namesIn t := by
  have no : ':' ∉ "param".toList ++ decimal n := by
    intro member
    rcases List.mem_append.mp member with letter | digit
    · revert letter
      decide
    · have isDigit := isDigit_of_mem_decimal digit
      revert isDigit
      decide
  have parts : paramName n ++ t = ':' :: ("param".toList ++ decimal n ++ t) := by
    rw [paramName_eq, List.cons_append]
  have marker : paramName n ++ t = paramMarker ++ (decimal n ++ t) := by
    rw [paramName, List.append_assoc]
  rw [parts, namesIn, namesIn_no_colon_append no, ← parts, marker, paramAtStart?_name,
    List.takeWhile_append_of_pos fun c => isDigit_of_mem_decimal]

theorem names_of_placeholder (placeholder : m.isPlaceholder) :
    namesIn (numberMarks k (m :: ms)) =
      (number? (decimal (k + 1) ++ (numberMarks (k + 1) ms).takeWhile Char.isDigit)).toList ++
        namesIn (numberMarks (k + 1) ms) := by
  rw [numberMarks, if_pos placeholder, namesIn_paramName]

theorem names_of_other (other : ¬m.isPlaceholder) (free : ¬paramMarker <:+: markText (m :: ms)) :
    namesIn (numberMarks k (m :: ms)) = namesIn (numberMarks k ms) := by
  rw [numberMarks, if_neg other, namesIn, paramAtStart?_numberMarks fun starts => free starts.isInfix]
  rfl

theorem free_tail (free : ¬paramMarker <:+: markText (m :: ms)) : ¬paramMarker <:+: markText ms :=
  fun inside => free (inside.trans (List.suffix_cons m.char _).isInfix)

theorem digits_behind : (numberMarks k ms).takeWhile Char.isDigit = [] ↔
    ∀ d ∈ ms.head?, ¬d.char.isDigit := by
  cases ms with
  | nil => simp [numberMarks]
  | cons d ms =>
    rw [numberMarks]
    by_cases placeholder : d.isPlaceholder
    · have char := (char_of_placeholder placeholder).2
      rw [if_pos placeholder]
      simp [paramName_eq, char]
    · rw [if_neg placeholder]
      by_cases digit : d.char.isDigit <;> simp [digit]

theorem isChain_of_placeholder (placeholder : m.isPlaceholder) :
    ((m :: ms).IsChain fun m d => ¬(m.isPlaceholder ∧ d.char.isDigit)) ↔
      (numberMarks k ms).takeWhile Char.isDigit = [] ∧
        ms.IsChain fun m d => ¬(m.isPlaceholder ∧ d.char.isDigit) := by
  rw [List.isChain_cons, digits_behind]
  simp [placeholder]

theorem isChain_of_other (other : ¬m.isPlaceholder) :
    ((m :: ms).IsChain fun m d => ¬(m.isPlaceholder ∧ d.char.isDigit)) ↔
      ms.IsChain fun m d => ¬(m.isPlaceholder ∧ d.char.isDigit) := by
  rw [List.isChain_cons]
  simp [other]

theorem length_names_le (free : ¬paramMarker <:+: markText ms) :
    (namesIn (numberMarks k ms)).length ≤ ms.countP Mark.isPlaceholder := by
  induction ms generalizing k with
  | nil => simp [numberMarks, namesIn]
  | cons m ms ih =>
    have rest := free_tail free
    by_cases placeholder : m.isPlaceholder
    · rw [names_of_placeholder placeholder, List.length_append, List.countP_cons_of_pos placeholder]
      have one := Option.length_toList_le (o := number? (decimal (k + 1) ++
        (numberMarks (k + 1) ms).takeWhile Char.isDigit))
      have more := ih rest (k := k + 1)
      omega
    · rw [names_of_other placeholder free, List.countP_cons_of_neg placeholder]
      exact ih rest

/-- Where no digit follows a placeholder, the names are numbered one after the other, and those that are not
    too large are read. -/
theorem names_eq_filter (free : ¬paramMarker <:+: markText ms)
    (chain : ms.IsChain fun m d => ¬(m.isPlaceholder ∧ d.char.isDigit)) : namesIn (numberMarks k ms) =
      (List.range' (k + 1) (ms.countP Mark.isPlaceholder)).filter (· ≤ largestNumber) := by
  induction ms generalizing k with
  | nil => rfl
  | cons m ms ih =>
    have rest := free_tail free
    by_cases placeholder : m.isPlaceholder
    · obtain ⟨noDigit, chainRest⟩ := (isChain_of_placeholder (k := k + 1) placeholder).mp chain
      rw [List.countP_cons_of_pos placeholder, names_of_placeholder placeholder, noDigit, List.append_nil,
        number?_decimal_eq, ih rest chainRest, List.range'_succ, List.filter_cons]
      by_cases fits : k + 1 ≤ largestNumber <;> simp [fits]
    · rw [List.countP_cons_of_neg placeholder, names_of_other placeholder free]
      exact ih rest ((isChain_of_other placeholder).mp chain)

theorem filter_range_fits {n : Nat} (fits : k + n ≤ largestNumber) :
    (List.range' (k + 1) n).filter (· ≤ largestNumber) = List.range' (k + 1) n := by
  refine List.filter_eq_self.mpr fun v member => ?_
  have inRange := List.mem_range'_1.mp member
  exact decide_eq_true (by omega)

theorem range_le_names (free : ¬paramMarker <:+: markText ms)
    (all : (namesIn (numberMarks k ms)).length = ms.countP Mark.isPlaceholder) :
    List.Forall₂ (· ≤ ·) (List.range' (k + 1) (ms.countP Mark.isPlaceholder))
      (namesIn (numberMarks k ms)) := by
  induction ms generalizing k with
  | nil => exact .nil
  | cons m ms ih =>
    have rest := free_tail free
    by_cases placeholder : m.isPlaceholder
    · rw [names_of_placeholder placeholder] at all ⊢
      rw [List.countP_cons_of_pos placeholder] at all ⊢
      have more := length_names_le rest (k := k + 1)
      cases read : number? (decimal (k + 1) ++
          (numberMarks (k + 1) ms).takeWhile Char.isDigit) with
      | none =>
        rw [read] at all
        simp only [Option.toList_none, List.nil_append] at all
        omega
      | some v =>
        rw [read, Option.toList_some, List.singleton_append, List.length_cons] at all
        rw [Option.toList_some, List.singleton_append, List.range'_succ]
        exact .cons (le_of_number? (fun c => List.mem_takeWhile_imp) read).1 (ih rest (by omega))
    · rw [names_of_other placeholder free] at all ⊢
      rw [List.countP_cons_of_neg placeholder] at all ⊢
      exact ih rest all

theorem isChain_of_names (free : ¬paramMarker <:+: markText ms)
    (names : namesIn (numberMarks k ms) =
      List.range' (k + 1) (ms.countP Mark.isPlaceholder)) :
    ms.IsChain fun m d => ¬(m.isPlaceholder ∧ d.char.isDigit) := by
  induction ms generalizing k with
  | nil => exact .nil
  | cons m ms ih =>
    have rest := free_tail free
    by_cases placeholder : m.isPlaceholder
    · rw [names_of_placeholder placeholder, List.countP_cons_of_pos placeholder, List.range'_succ] at names
      rw [isChain_of_placeholder (k := k + 1) placeholder]
      have more := length_names_le rest (k := k + 1)
      cases read : number? (decimal (k + 1) ++
          (numberMarks (k + 1) ms).takeWhile Char.isDigit) with
      | none =>
        rw [read] at names
        have lengths := congrArg List.length names
        simp only [Option.toList_none, List.nil_append, List.length_cons, List.length_range'] at lengths
        omega
      | some v =>
        rw [read, Option.toList_some, List.singleton_append] at names
        obtain ⟨value, later⟩ := List.cons.inj names
        exact ⟨(le_of_number? (fun c => List.mem_takeWhile_imp) read).2 (by omega) value, ih rest later⟩
    · rw [names_of_other placeholder free, List.countP_cons_of_neg placeholder] at names
      exact (isChain_of_other placeholder).mpr (ih rest names)

end Marks
section Texts

variable {k : Nat} {t : Text} {ts : List Text}

theorem length_names_numberedAll (free : ∀ t ∈ ts, ¬paramMarker <:+: t) :
    ((numberedAll k ts).flatMap namesIn).length ≤ (ts.map placeholders).sum := by
  induction ts generalizing k with
  | nil => simp [numberedAll]
  | cons t ts ih =>
    have freeHere : ¬paramMarker <:+: markText (scan t) := by
      rw [markText_scan]
      exact free t (by simp)
    have first := length_names_le (k := k) freeHere
    have rest := ih (fun u member => free u (by simp [member])) (k := k + placeholders t)
    rw [numberedAll, List.flatMap_cons, List.length_append, List.map_cons, List.sum_cons]
    exact Nat.add_le_add first rest

theorem names_numbered (free : ¬paramMarker <:+: t) (digitFree : DigitFree t)
    (fits : k + placeholders t ≤ largestNumber) :
    namesIn (numbered k t) = List.range' (k + 1) (placeholders t) := by
  rw [numbered, names_eq_filter (by rwa [markText_scan]) digitFree]
  exact filter_range_fits fits

theorem names_numberedAll (free : ∀ t ∈ ts, ¬paramMarker <:+: t) (digitFree : ∀ t ∈ ts, DigitFree t)
    (fits : k + (ts.map placeholders).sum ≤ largestNumber) :
    (numberedAll k ts).flatMap namesIn =
      List.range' (k + 1) (ts.map placeholders).sum := by
  induction ts generalizing k with
  | nil => rfl
  | cons t ts ih =>
    rw [List.map_cons, List.sum_cons] at fits ⊢
    have rest := ih (fun u member => free u (by simp [member]))
      (fun u member => digitFree u (by simp [member])) (k := k + placeholders t) (by omega)
    rw [numberedAll, List.flatMap_cons, rest,
      names_numbered (free t (by simp)) (digitFree t (by simp)) (by omega),
      ← List.range'_append_1, Nat.add_right_comm]

theorem sum_le_of_forall₂ {l l' : List Nat} (le : List.Forall₂ (· ≤ ·) l l') : l.sum ≤ l'.sum := by
  induction le with
  | nil => exact Nat.le_refl _
  | cons first rest ih =>
    rw [List.sum_cons, List.sum_cons]
    omega

theorem eq_of_sum_eq {l l' : List Nat} (le : List.Forall₂ (· ≤ ·) l l') (sum : l.sum = l'.sum) : l = l' := by
  induction le with
  | nil => rfl
  | cons first rest ih =>
    have more := sum_le_of_forall₂ rest
    rw [List.sum_cons, List.sum_cons] at sum
    rw [ih (by omega)]
    congr 1
    omega

theorem range_le_names_all (free : ∀ t ∈ ts, ¬paramMarker <:+: t)
    (all : ((numberedAll k ts).flatMap namesIn).length = (ts.map placeholders).sum) :
    List.Forall₂ (· ≤ ·) (List.range' (k + 1) (ts.map placeholders).sum)
      ((numberedAll k ts).flatMap namesIn) := by
  induction ts generalizing k with
  | nil => exact .nil
  | cons t ts ih =>
    have freeHere : ¬paramMarker <:+: markText (scan t) := by
      rw [markText_scan]
      exact free t (by simp)
    have freeRest : ∀ t ∈ ts, ¬paramMarker <:+: t := fun u member => free u (by simp [member])
    have first := length_names_le (k := k) freeHere
    have rest := length_names_numberedAll (k := k + placeholders t) freeRest
    rw [numberedAll, List.flatMap_cons] at all ⊢
    rw [List.map_cons, List.sum_cons] at all ⊢
    rw [List.length_append] at all
    rw [← placeholders] at first
    rw [← List.range'_append_1]
    have here := range_le_names (k := k) freeHere (by
      rw [← placeholders]
      exact Nat.le_antisymm first (by rw [← numbered]; omega))
    have later := ih freeRest (k := k + placeholders t) (by
      rw [← numbered] at first
      omega)
    rw [Nat.add_right_comm] at later
    exact List.rel_append here later

/-- If the numbers are those of the placeholders in any order, no digit follows one of them. -/
theorem digitFree_of_perm (free : ∀ t ∈ ts, ¬paramMarker <:+: t)
    (perm : ((numberedAll k ts).flatMap namesIn).Perm
      (List.range' (k + 1) (ts.map placeholders).sum)) : ∀ t ∈ ts, DigitFree t := by
  have length := perm.length_eq
  rw [List.length_range'] at length
  have eq := eq_of_sum_eq (range_le_names_all free length) perm.sum_nat.symm
  clear perm length
  induction ts generalizing k with
  | nil => simp
  | cons t ts ih =>
    have freeHere : ¬paramMarker <:+: markText (scan t) := by
      rw [markText_scan]
      exact free t (by simp)
    have freeRest : ∀ t ∈ ts, ¬paramMarker <:+: t := fun u member => free u (by simp [member])
    have first := length_names_le (k := k) freeHere
    have rest := length_names_numberedAll (k := k + placeholders t) freeRest
    have lengths := congrArg List.length eq
    rw [numberedAll, List.flatMap_cons] at eq lengths
    rw [List.map_cons, List.sum_cons] at eq lengths
    rw [List.length_range', List.length_append] at lengths
    rw [← placeholders, ← numbered] at first
    rw [← List.range'_append_1] at eq
    obtain ⟨here, later⟩ := List.append_inj eq (by
      rw [List.length_range']
      omega)
    intro u member
    rcases List.mem_cons.mp member with rfl | inRest
    · exact isChain_of_names freeHere here.symm
    · rw [Nat.add_right_comm] at later
      exact ih freeRest later u inRest

end Texts
end QueryChain
