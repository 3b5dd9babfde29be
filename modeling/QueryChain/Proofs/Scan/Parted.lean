import QueryChain.Proofs.Condition.Chain

namespace QueryChain

variable {s : ScanState} {t u : Text}

theorem opensLineComment_eq (c : Char) (rest : Text) : opensLineComment c rest =
    (c == '#' || c == '-' && rest.head? == some '-' && rest.tail.head?.all isBlank) := by
  unfold opensLineComment
  split
  · rfl
  · rfl
  · rename_i noHash noDash
    have hash : c ≠ '#' := fun same => noHash same
    by_cases dash : c = '-'
    · cases rest with
      | nil => simp [hash]
      | cons d rest =>
        have other : d ≠ '-' := fun same => noDash rest dash (by rw [same])
        simp [hash, other]
    · simp [hash, dash]

theorem role_parted {c : Char} (parted : (c :: t).getLast?.all isBlank ∨ u.head?.all isBlank) :
    Role.of c (t ++ u) = Role.of c t := by
  have apart {d : Char} (blank : isBlank d) : d ≠ '-' ∧ d ≠ '/' ∧ d ≠ '#' ∧ d ≠ '*' := by
    refine ⟨?_, ?_, ?_, ?_⟩ <;> rintro rfl <;> revert blank <;> decide
  have roles : opensLineComment c (t ++ u) = opensLineComment c t ∧
      opensBlockComment c (t ++ u) = opensBlockComment c t := by
    rw [opensLineComment_eq, opensLineComment_eq, opensBlockComment, opensBlockComment]
    rcases t with _ | ⟨d, _ | ⟨e, t⟩⟩
    · rcases parted with blank | blank
      · have other := apart (d := c) (by simpa using blank)
        simp [other.1, other.2.1, other.2.2.1]
      · cases u with
        | nil => exact ⟨rfl, rfl⟩
        | cons d u =>
          have other := apart (d := d) (by simpa using blank)
          simp [other.1, other.2.2.2]
    · rcases parted with blank | blank
      · have other : (d == '-') = false := beq_false_of_ne (apart (by simpa using blank)).1
        exact ⟨by simp [other], rfl⟩
      · exact ⟨by simp [blank], rfl⟩
    · exact ⟨rfl, rfl⟩
  simp only [Role.of, roles.1, roles.2]

theorem marks_parted (parted : t.getLast?.all isBlank ∨ u.head?.all isBlank) (s : ScanState) :
    s.marks (t ++ u) = s.marks t ++ (s.run t).marks u := by
  induction t generalizing s with
  | nil => rfl
  | cons c t ih =>
    obtain ⟨mark, next⟩ := mark_of_role (s := s) (role_parted parted)
    have rest : t.getLast?.all isBlank ∨ u.head?.all isBlank := by
      refine parted.imp_left fun last => ?_
      cases t with
      | nil => rfl
      | cons d t => simpa using last
    rw [List.cons_append, ScanState.marks, mark, next, ih rest]
    rfl

theorem numbered_parted (parted : t.getLast?.all isBlank ∨ u.head?.all isBlank) (issued : Nat) :
    numbered issued (t ++ u) =
      numbered issued t ++ numberMarks (issued + placeholders t) ((({} : ScanState).run t).marks u) := by
  rw [numbered, scan, marks_parted parted, numberMarks_append]
  rfl

theorem countP_marks_of_free (free : '?' ∉ t) (s : ScanState) :
    (s.marks t).countP Mark.isPlaceholder = 0 := by
  rw [List.countP_eq_zero]
  intro m member placeholder
  have inText : m.char ∈ markText (s.marks t) := List.mem_map_of_mem member
  rw [ScanState.markText_marks, (char_of_placeholder placeholder).2] at inText
  exact free inText

theorem numberMarks_of_free (free : '?' ∉ t) (s : ScanState) (issued : Nat) :
    numberMarks issued (s.marks t) = t := by
  rw [numberMarks_of_none issued _ (countP_marks_of_free free s), ScanState.markText_marks]

theorem free_of_blank (blank : ∀ c ∈ t, isBlank c) : '?' ∉ t := fun member =>
  absurd (blank '?' member) (by decide)

theorem pad_marks {front back : Text} (blankFront : ∀ c ∈ front, isBlank c)
    (blankBack : ∀ c ∈ back, isBlank c) (t : Text) :
    scan (front ++ t ++ back) =
      front.map (⟨·, 0, .code⟩) ++ scan t ++ (({} : ScanState).run t).marks back := by
  have plain : ∀ c ∈ front, isPlain c := fun c member => isPlain_of_isBlank c (blankFront c member)
  have parted : back.head?.all isBlank := by
    cases back with
    | nil => rfl
    | cons c back => simpa using blankBack c (by simp)
  rw [scan, List.append_assoc, marks_plain rfl plain, marks_parted (.inr parted), ← List.append_assoc]
  rfl

theorem countP_plain {front : Text} (blank : ∀ c ∈ front, isBlank c) (depth : Nat) :
    (front.map (⟨·, depth, .code⟩) : Marks).countP Mark.isPlaceholder = 0 := by
  rw [List.countP_eq_zero]
  intro m member placeholder
  obtain ⟨c, inFront, rfl⟩ := List.mem_map.mp member
  exact free_of_blank blank ((char_of_placeholder placeholder).2 ▸ inFront)

/-- Naming and trimming do not disturb each other. -/
theorem numbered_trim (issued : Nat) (t : Text) : numbered issued (trim t) = trim (numbered issued t) := by
  obtain ⟨front, back, parts, blankFront, blankBack⟩ := trim_spec t
  have named : numbered issued t = front ++ numbered issued (trim t) ++ back := by
    conv_lhs => rw [parts]
    rw [numbered, pad_marks blankFront blankBack, numberMarks_append, numberMarks_append,
      numberMarks_of_none issued _ (countP_plain blankFront 0), countP_plain blankFront,
      numberMarks_of_free (free_of_blank blankBack), markText, List.map_map]
    simp [numbered, Function.comp_def]
  rw [named, trim_pad blankFront blankBack (trim_numbered (trim_trim t) issued)]

theorem placeholders_trim (t : Text) : placeholders (trim t) = placeholders t := by
  obtain ⟨front, back, parts, blankFront, blankBack⟩ := trim_spec t
  conv_rhs => rw [parts]
  rw [placeholders, placeholders, pad_marks blankFront blankBack, List.countP_append, List.countP_append,
    countP_plain blankFront, countP_marks_of_free (free_of_blank blankBack)]
  omega

/-- What a test of the last character finds once the placeholders are named. -/
theorem getLast?_numberMarks_of {α : Type} {f : Option Char → α}
    (same : ∀ c, c.isDigit → f (some c) = f (some '?')) (issued : Nat) (ms : Marks) :
    f (numberMarks issued ms).getLast? = f (markText ms).getLast? := by
  rcases List.eq_nil_or_concat ms with rfl | ⟨ms, m, rfl⟩
  · rfl
  rw [List.concat_eq_append, numberMarks_append, markText_append, numberMarks, numberMarks,
    show markText [m] = [m.char] from rfl]
  split
  · rename_i placeholder
    have full : decimal (issued + ms.countP Mark.isPlaceholder + 1) ≠ [] :=
      List.ne_nil_of_length_pos (Nat.length_toDigits_pos ..)
    rw [List.append_nil, paramName, ← List.append_assoc, getLast?_append_of_ne_nil full,
      List.getLast?_concat, (char_of_placeholder placeholder).2, List.getLast?_eq_some_getLast full]
    exact same _ (isDigit_of_mem_decimal (List.getLast_mem full))
  · rw [getLast?_append_of_ne_nil (List.cons_ne_nil _ _), List.getLast?_concat]
    rfl

end QueryChain
