import QueryChain.Proofs.Params.Naming
import QueryChain.Proofs.Scan.Solid

namespace QueryChain

def nameOf (n depth : Nat) : Marks := (paramName n).map (⟨·, depth, .code⟩)

def nameMarks (issued : Nat) : Marks → Marks
  | [] => []
  | m :: ms =>
    if m.isPlaceholder then nameOf (issued + 1) m.depth ++ nameMarks (issued + 1) ms
    else m :: nameMarks issued ms

@[simp] theorem markText_append (ms ns : Marks) : markText (ms ++ ns) = markText ms ++ markText ns :=
  List.map_append

theorem markText_nameOf (n depth : Nat) : markText (nameOf n depth) = paramName n := by
  rw [markText, nameOf, List.map_map]
  exact List.map_id _

theorem markText_nameMarks (issued : Nat) (ms : Marks) :
    markText (nameMarks issued ms) = numberMarks issued ms := by
  induction ms generalizing issued with
  | nil => rfl
  | cons m ms ih =>
    rw [nameMarks, numberMarks]
    split
    · rw [markText_append, markText_nameOf, ih]
    · rw [← ih]
      rfl

theorem mem_nameMarks {issued : Nat} {ms : Marks} {m : Mark} (member : m ∈ nameMarks issued ms) :
    m ∈ ms ∨ m.kind = .code ∧ ∃ n, m.char ∈ paramName n := by
  induction ms generalizing issued with
  | nil => exact .inl member
  | cons n ms ih =>
    rw [nameMarks] at member
    split at member
    · rcases List.mem_append.mp member with name | rest
      · obtain ⟨c, inName, rfl⟩ := List.mem_map.mp name
        exact .inr ⟨rfl, _, inName⟩
      · exact (ih rest).imp (List.mem_cons_of_mem _) id
    · rcases List.mem_cons.mp member with rfl | rest
      · exact .inl (by simp)
      · exact (ih rest).imp (List.mem_cons_of_mem _) id

theorem marks_plain {s : ScanState} (code : s.mode = .code) {name : Text}
    (plain : ∀ c ∈ name, isPlain c) (t : Text) :
    s.marks (name ++ t) = name.map (⟨·, s.depth, .code⟩) ++ s.marks t := by
  induction name with
  | nil => rfl
  | cons c name ih =>
    have here := plain c (by simp)
    rw [List.cons_append, ScanState.marks, s.mark_plain code c _ here, s.next_plain code c _ here,
      ih fun d member => plain d (by simp [member])]
    rfl

section Scanned

variable {s e : ScanState} {t : Text}

/-- Once the placeholders are named the text is scanned as before, each name as code. -/
theorem marks_numberMarks (s : ScanState) (t : Text) (issued : Nat) :
    s.marks (numberMarks issued (s.marks t)) = nameMarks issued (s.marks t) := by
  induction t generalizing s issued with
  | nil => rfl
  | cons c t ih =>
    rw [ScanState.marks, numberMarks, nameMarks]
    by_cases placeholder : (s.mark c t).isPlaceholder
    · obtain ⟨code, char⟩ := char_of_placeholder placeholder
      rw [ScanState.mark_char] at char
      subst char
      have mode := s.mode_of_code '?' t (by decide) code
      rw [if_pos placeholder, if_pos placeholder, s.mark_plain mode '?' t (by decide),
        s.next_plain mode '?' t (by decide), marks_plain mode fun c => isPlain_of_mem_paramName, ih]
      rfl
    · obtain ⟨mark, next⟩ := mark_of_role (s := s) (role_numberMarks (s := s.next c t) (k := issued)
        (c := c) (t := t))
      rw [if_neg placeholder, if_neg placeholder, ScanState.mark_char, ScanState.marks, mark, next, ih]

theorem Leads.named (leads : Leads s t e) (issued : Nat) :
    Leads s (numberMarks issued (s.marks t)) e := by
  induction leads generalizing issued with
  | nil => exact .nil _
  | @cons s e c rest free opened later ih =>
    rw [ScanState.marks, numberMarks]
    by_cases placeholder : (s.mark c rest).isPlaceholder
    · obtain ⟨code, char⟩ := char_of_placeholder placeholder
      rw [ScanState.mark_char] at char
      subst char
      have mode := s.mode_of_code '?' rest (by decide) code
      rw [s.next_plain mode '?' rest (by decide)] at ih ⊢
      rw [if_pos placeholder]
      generalize named : paramName (issued + 1) = name
      have plain : ∀ c ∈ name, isPlain c := by
        rw [← named]
        exact fun c => isPlain_of_mem_paramName
      clear named
      induction name with
      | nil => exact ih (issued + 1)
      | cons c name ihName =>
        have here := plain c (by simp)
        refine .cons ?_ ?_ ?_
        · rw [s.mark_plain mode c _ here]
          exact MarkKind.noConfusion
        · rintro - rfl
          cases here
        · rw [s.next_plain mode c _ here]
          exact ihName fun d member => plain d (by simp [member])
    · obtain ⟨mark, next⟩ := mark_of_role (s := s) (role_numberMarks (s := s.next c rest) (k := issued)
        (c := c) (t := rest))
      rw [if_neg placeholder, ScanState.mark_char]
      refine .cons ?_ ?_ ?_
      · rwa [mark]
      · rwa [mark]
      · rw [next]
        exact ih issued

theorem scan_numbered (issued : Nat) (t : Text) : scan (numbered issued t) = nameMarks issued (scan t) :=
  marks_numberMarks {} t issued

theorem Solid.named (solid : Solid t) (issued : Nat) : Solid (numbered issued t) :=
  Leads.named solid issued

end Scanned
section Joined

variable {s t u : Text} {issued : Nat}

@[simp] theorem placeholders_nil : placeholders [] = 0 := rfl

@[simp] theorem numbered_nil (issued : Nat) : numbered issued [] = [] := rfl

theorem Solid.placeholders_append (solid : Solid s) (loose : Loose u) :
    placeholders (s ++ u) = placeholders s + placeholders u := by
  rw [placeholders, solid.scan_append loose, List.countP_append]
  rfl

theorem Solid.numbered_append (solid : Solid s) (loose : Loose u) (issued : Nat) :
    numbered issued (s ++ u) = numbered issued s ++ numbered (issued + placeholders s) u := by
  rw [numbered, solid.scan_append loose, numberMarks_append]
  rfl

theorem placeholders_cons {c : Char} (plain : isPlain c) (other : c ≠ '?') (t : Text) :
    placeholders (c :: t) = placeholders t := by
  rw [placeholders, scan_plain plain, List.countP_cons_of_neg (by simp [Mark.isPlaceholder, other])]
  rfl

theorem numbered_cons {c : Char} (plain : isPlain c) (other : c ≠ '?') (t : Text) (issued : Nat) :
    numbered issued (c :: t) = c :: numbered issued t := by
  rw [numbered, scan_plain plain, numberMarks, if_neg (by simp [Mark.isPlaceholder, other])]
  rfl

/-- A text without question marks takes no names. -/
theorem placeholders_of_free (free : '?' ∉ t) : placeholders t = 0 := by
  rw [placeholders, List.countP_eq_zero]
  intro m member placeholder
  obtain ⟨-, char⟩ := char_of_placeholder placeholder
  have inText : m.char ∈ markText (scan t) := List.mem_map_of_mem member
  rw [markText_scan, char] at inText
  exact free inText

theorem numbered_of_none (none : placeholders t = 0) (issued : Nat) : numbered issued t = t := by
  rw [numbered, numberMarks_of_none issued _ none, markText_scan]

theorem numbered_of_free (free : '?' ∉ t) (issued : Nat) : numbered issued t = t :=
  numbered_of_none (placeholders_of_free free) issued

theorem getLast?_numberMarks {ms : Marks} {c : Char} (last : (numberMarks issued ms).getLast? = some c) :
    c.isDigit ∨ (markText ms).getLast? = some c := by
  rcases List.eq_nil_or_concat ms with rfl | ⟨front, m, rfl⟩
  · cases last
  rw [List.concat_eq_append, numberMarks_append, numberMarks, numberMarks] at last
  rw [List.concat_eq_append, markText_append, show markText [m] = [m.char] from rfl]
  split at last
  · left
    have full : decimal (issued + front.countP Mark.isPlaceholder + 1) ≠ [] :=
      List.ne_nil_of_length_pos (Nat.length_toDigits_pos ..)
    rw [List.append_nil, paramName, ← List.append_assoc, getLast?_append_of_ne_nil full] at last
    exact isDigit_of_mem_decimal (List.mem_of_getLast? last)
  · right
    rw [getLast?_append_of_ne_nil (List.cons_ne_nil _ _)] at last ⊢
    exact last

theorem isBlank_of_isDigit {c : Char} (digit : c.isDigit) : isBlank c = false := by
  by_contra blank
  have far := (blankCodes_apart c.toNat (toNat_mem_blankCodes c (by simpa using blank))).2.2.2.2
  exact far ((isDigit_iff c).mp digit)

/-- Naming leaves no blank at an end where there was none. -/
theorem trim_numbered (trimmed : trim t = t) (issued : Nat) : trim (numbered issued t) = numbered issued t := by
  apply trim_eq_self
  · have same := head?_numberMarks (s := {}) (k := issued) (t := t) (f := (·.any isBlank)) (by decide)
    intro c first
    rw [numbered, scan] at first
    rw [first, Option.any_some] at same
    rw [same]
    cases start : t.head? with
    | none => rfl
    | some d =>
      rw [← trimmed] at start
      exact head?_trim start
  · intro c last
    rcases getLast?_numberMarks last with digit | inText
    · exact isBlank_of_isDigit digit
    · rw [markText_scan, ← trimmed] at inText
      exact getLast?_trim inText

theorem numberMarks_inner (issued : Nat) (ms : Marks) :
    numberMarks issued (ms.map Mark.inner) = numberMarks issued ms := by
  induction ms generalizing issued with
  | nil => rfl
  | cons m ms ih =>
    have same : m.inner.isPlaceholder = m.isPlaceholder := rfl
    rw [List.map_cons, numberMarks, numberMarks, same, ih, ih]
    rfl

theorem Solid.numbered_group (solid : Solid t) (issued : Nat) :
    numbered issued ('(' :: t ++ [')']) = '(' :: numbered issued t ++ [')'] := by
  have closing (n : Nat) : numberMarks n [⟨')', 0, .code⟩] = [')'] := rfl
  rw [numbered, solid.group.2, numberMarks_append, numberMarks, if_neg (by decide), numberMarks_inner,
    closing]
  rfl

theorem Solid.placeholders_group (solid : Solid t) : placeholders ('(' :: t ++ [')']) = placeholders t := by
  have same : (Mark.isPlaceholder ∘ Mark.inner) = Mark.isPlaceholder := rfl
  rw [placeholders, solid.group.2, List.countP_append, List.countP_cons_of_neg (by decide),
    List.countP_map, same]
  rfl

end Joined
end QueryChain
