import QueryChain.Proofs.Join.Clauses
import QueryChain.Proofs.Naming.Words

namespace QueryChain

section Qualifiers

variable {t front word : Text} {issued : Nat}

theorem length_numberMarks_le (issued : Nat) (ms : Marks) :
    ms.length ≤ (numberMarks issued ms).length := by
  induction ms generalizing issued with
  | nil => exact Nat.le_refl _
  | cons m ms ih =>
    rw [numberMarks]
    split
    · have rest := ih (issued + 1)
      rw [paramName, List.length_append, List.length_append, List.length_cons,
        show paramMarker.length = 6 from rfl]
      omega
    · simpa using ih issued

theorem placeholders_lastQualifier? (found : lastQualifier? t = some (front, word)) :
    placeholders front = placeholders t := by
  obtain ⟨spelling, back, rfl, rfl, member, stop, blank⟩ := lastQualifier?_eq_some_iff.mp found
  have free := free_of_qualifier member blank
  rw [placeholders, placeholders, scan, scan, marks_parted (.inl stop), List.countP_append,
    countP_marks_of_free fun inBoth => (free _ inBoth).1 rfl, Nat.add_zero]

theorem dropQualifiers_named (n : Nat) (found : List Text) :
    dropQualifiers n (numbered issued t) found =
      (numbered issued (dropQualifiers n t found).1, (dropQualifiers n t found).2) ∧
    placeholders (dropQualifiers n t found).1 = placeholders t := by
  induction n generalizing t found with
  | zero => exact ⟨rfl, rfl⟩
  | succ n ih =>
    rw [dropQualifiers, dropQualifiers, lastQualifier?_named]
    cases last : lastQualifier? t with
    | none => exact ⟨rfl, rfl⟩
    | some frontWord =>
      obtain ⟨front, word⟩ := frontWord
      obtain ⟨named, count⟩ := ih (t := front) (word :: found)
      exact ⟨named, count.trans (placeholders_lastQualifier? last)⟩

theorem trailingQualifiers_named (issued : Nat) (t : Text) :
    trailingQualifiers (numbered issued t) =
      (numbered issued (trailingQualifiers t).1, (trailingQualifiers t).2) ∧
    placeholders (trailingQualifiers t).1 = placeholders t := by
  have longer := length_numberMarks_le issued (scan t)
  rw [length_scan, ← numbered] at longer
  rw [trailingQualifiers, trailingQualifiers, dropQualifiers_fuel (Nat.le_refl t.length) longer]
  exact dropQualifiers_named _ []

end Qualifiers
section Slices

variable {s : ScanState} {t u : Text} {b e : Nat}

theorem CommentFree.dashes (free : CommentFree t) : DashesOnly {} t := fun m member comment =>
  absurd comment (free m member)

def Mark.seen (m : Mark) : Char × Bool := (m.char, m.isPlaceholder)

theorem numberMarks_of_seen {ms ns : Marks} (same : ms.map Mark.seen = ns.map Mark.seen) (issued : Nat) :
    numberMarks issued ms = numberMarks issued ns ∧
      ms.countP Mark.isPlaceholder = ns.countP Mark.isPlaceholder := by
  induction ms generalizing ns issued with
  | nil =>
    cases ns with
    | nil => exact ⟨rfl, rfl⟩
    | cons n ns => cases same
  | cons m ms ih =>
    cases ns with
    | nil => cases same
    | cons n ns =>
      rw [List.map_cons, List.map_cons, List.cons.injEq] at same
      obtain ⟨char, placeholder⟩ := Prod.mk.inj same.1
      rw [numberMarks, numberMarks, List.countP_cons, List.countP_cons, char, placeholder,
        (ih same.2 issued).1, (ih same.2 (issued + 1)).1, (ih same.2 issued).2]
      exact ⟨rfl, rfl⟩

theorem seen_of_free {ms : Marks} (free : '?' ∉ markText ms) : ms.map Mark.seen = (markText ms).map (·, false) := by
  rw [markText, List.map_map]
  refine List.map_congr_left fun m member => ?_
  have other : m.isPlaceholder = false := by
    rw [Bool.eq_false_iff]
    intro placeholder
    rw [← (char_of_placeholder placeholder).2] at free
    exact free (List.mem_map_of_mem member)
  rw [Mark.seen, other]
  rfl

/-- Where comments are dashes only, cutting the rest of a text off changes nothing that naming sees. -/
theorem seen_cut (quiet : s.mode.isQuiet) (dashes : DashesOnly s (t ++ u)) :
    (s.marks t).map Mark.seen = ((s.marks (t ++ u)).take t.length).map Mark.seen := by
  induction t generalizing s with
  | nil => rfl
  | cons c t ih =>
    have here := dashes (s.mark c (t ++ u)) (by simp [ScanState.marks])
    rw [ScanState.mark_char] at here
    have rest := ih (next_quiet quiet here).1 fun m member => dashes m (by simp [ScanState.marks, member])
    have whole (same : s.mark c t = s.mark c (t ++ u) ∧ s.next c t = s.next c (t ++ u)) :
        (s.marks (c :: t)).map Mark.seen = ((s.marks (c :: t ++ u)).take (c :: t).length).map Mark.seen := by
      rw [List.cons_append, ScanState.marks, ScanState.marks, List.length_cons, List.take_succ_cons,
        List.map_cons, List.map_cons, same.1, same.2, rest]
    obtain ⟨mode, depth⟩ := s
    cases mode with
    | code =>
      rw [kind_comment_iff] at here
      rcases role_cut_dash here with same | ⟨rfl, short⟩
      · exact whole (mark_of_role same)
      · -- only dashes are left, and none of them is named
        have free : '?' ∉ '-' :: t := by rcases short with rfl | rfl <;> decide
        have text : markText (((⟨.code, depth⟩ : ScanState).marks ('-' :: t ++ u)).take ('-' :: t).length) =
            '-' :: t := by
          rw [markText, List.map_take, ← markText, ScanState.markText_marks, List.take_left]
        rw [seen_of_free (by rwa [ScanState.markText_marks]), seen_of_free (by rwa [text]), text,
          ScanState.markText_marks]
    | quote q escaped => exact whole (by cases escaped <;> exact ⟨rfl, rfl⟩)
    | lineComment => exact whole ⟨rfl, rfl⟩
    | opener => cases quiet
    | blockComment star => cases quiet

theorem scan_drop (start : stateAt t b = {}) : scan (t.drop b) = (scan t).drop b := by
  rw [drop_scan, start]
  rfl

theorem DashesOnly.drop (dashes : DashesOnly {} t) (start : stateAt t b = {}) :
    DashesOnly {} (t.drop b) := by
  intro m member
  apply dashes m
  rw [← scan, scan_drop start] at member
  exact List.mem_of_mem_drop member

theorem seen_slice (dashes : DashesOnly {} t) (le : b ≤ e) (bound : e ≤ t.length)
    (start : stateAt t b = {}) :
    (scan (slice b e t)).map Mark.seen = (slice b e (scan t)).map Mark.seen := by
  have whole := scan_drop start
  have parts := slice_append_drop le bound
  have later := dashes.drop start
  rw [← parts] at later whole
  have cut := seen_cut rfl later
  rw [← scan, ← scan, whole, length_slice bound, ← slice_eq_take_drop] at cut
  exact cut

theorem numbered_part (dashes : DashesOnly {} t) (le : b ≤ e) (bound : e ≤ t.length)
    (start : stateAt t b = {}) (issued : Nat) :
    numbered issued (slice b e t) = numberMarks issued (slice b e (scan t)) ∧
      placeholders (slice b e t) = (slice b e (scan t)).countP Mark.isPlaceholder :=
  numberMarks_of_seen (seen_slice dashes le bound start) issued

end Slices
section Cut

variable {κ : Type} {word : κ → Text} {t : Text} {issued : Nat} {l rest : List (Mark × Option κ)}

def nameParts (issued : Nat) : List (κ × Text) → List (κ × Text)
  | [] => []
  | (k, part) :: parts => (k, numbered issued part) :: nameParts (issued + placeholders part) parts

theorem nameWords_of_none (issued : Nat) (none : ∀ p ∈ l, p.2 = .none) (rest : List (Mark × Option κ)) :
    nameWords issued (l ++ rest) = (numberMarks issued (l.map Prod.fst)).map (·, .none) ++
      nameWords (issued + (l.map Prod.fst).countP Mark.isPlaceholder) rest := by
  induction l generalizing issued with
  | nil => rfl
  | cons p l ih =>
    have later : ∀ p ∈ l, p.2 = .none := fun q member => none q (by simp [member])
    rw [List.cons_append, nameWords, List.map_cons, numberMarks]
    by_cases placeholder : p.1.isPlaceholder
    · rw [if_pos placeholder, if_pos placeholder, ih _ later, List.countP_cons_of_pos placeholder,
        List.map_append, List.append_assoc, Nat.add_right_comm, Nat.add_assoc]
    · rw [if_neg placeholder, if_neg placeholder, ih _ later, List.countP_cons_of_neg placeholder,
        none p (by simp)]
      rfl

theorem nameWords_drop (n : Nat) (free : ∀ p ∈ l.take n, ¬p.1.isPlaceholder) :
    (nameWords issued l).drop n = nameWords issued (l.drop n) := by
  induction n generalizing l with
  | zero => rfl
  | succ n ih =>
    cases l with
    | nil => rfl
    | cons p l =>
      rw [nameWords, if_neg (free p (by simp)), List.drop_succ_cons, List.drop_succ_cons,
        ih fun q member => free q (by simp [member])]

theorem plainWords_of_none (none : ∀ p ∈ l, p.2 = .none) (rest : List (Mark × Option κ)) :
    plainWords (l ++ rest) = (markText (l.map Prod.fst)).map (·, .none) ++ plainWords rest := by
  rw [plainWords, List.map_append, markText, List.map_map, List.map_map]
  congr 1
  exact List.map_congr_left fun p member => by rw [none p member]; rfl

theorem free_of_spells {k : Keyword} {u : Text} (isKeyword : IsKeyword k) (spells : Spells k u) : '?' ∉ u := by
  intro member
  rcases spells.chars isKeyword '?' member with blank | letter
  · revert blank
    decide
  · revert letter
    decide

theorem free_of_word {k : κ} {n q : Nat} (marks : l.map Prod.fst = scan t) (isKeyword : IsKeyword [word k])
    (stands : Stands t [word k] n q) : ∀ p ∈ (l.drop n).take (q - n), ¬p.1.isPlaceholder := by
  intro p member placeholder
  have inMarks : p.1 ∈ slice n q (scan t) := by
    rw [slice_eq_take_drop, ← marks, ← List.map_drop, ← List.map_take]
    exact List.mem_map_of_mem member
  have inText : p.1.char ∈ slice n q t := by
    rw [← markText_scan t, markText, ← map_slice]
    exact List.mem_map_of_mem inMarks
  rw [(char_of_placeholder placeholder).2] at inText
  exact free_of_spells isKeyword stands.spells inText

theorem behind_word {k : κ} {m : Mark} {n q : Nat} {more : List (Mark × Option κ)}
    (marks : l.map Prod.fst = scan t) (isKeyword : IsKeyword [word k]) (stands : Stands t [word k] n q)
    (here : l.drop n = (m, some k) :: more) (issued : Nat) :
    ¬m.isPlaceholder ∧ (plainWords more).drop ((word k).length - 1) = plainWords (l.drop q) ∧
      (nameWords issued more).drop ((word k).length - 1) = nameWords issued (l.drop q) := by
  have less := stands.lt isKeyword
  have size := length_of_spells stands.spells
  rw [length_slice stands.bound] at size
  have free := free_of_word marks isKeyword stands
  obtain ⟨j, rfl⟩ : ∃ j, q = n + 1 + j := ⟨q - (n + 1), by omega⟩
  have behind : more.drop j = l.drop (n + 1 + j) := by
    rw [← List.drop_drop, ← List.drop_drop, here]
    rfl
  rw [show n + 1 + j - n = j + 1 by omega] at free size
  rw [here, List.take_succ_cons] at free
  rw [← size, Nat.add_sub_cancel, nameWords_drop j fun p member => free p (by simp [member]), behind, ← behind]
  exact ⟨free (m, some k) (by simp), List.map_drop.symm, rfl⟩

theorem exists_front (l : List (Mark × Option κ)) : ∃ front rest, l = front ++ rest ∧
    (∀ p ∈ front, p.2 = none) ∧ ∀ p ∈ rest.head?, p.2.isSome := by
  refine ⟨l.takeWhile (·.2.isNone), l.dropWhile (·.2.isNone), List.takeWhile_append_dropWhile.symm,
    fun p member => by simpa using List.mem_takeWhile_imp member, ?_⟩
  intro p first
  have stop := List.head?_dropWhile_not (fun p : Mark × Option κ => p.2.isNone) l
  rw [Option.mem_def.mp first] at stop
  simpa using stop

theorem front_eq {a : Nat} {front : List (Mark × Option κ)} (marks : l.map Prod.fst = scan t)
    (dashes : DashesOnly {} t) (start : stateAt t a = {}) (inText : a ≤ t.length)
    (split : l.drop a = front ++ rest) (issued : Nat) :
    a + front.length ≤ t.length ∧
    markText (front.map Prod.fst) = slice a (a + front.length) t ∧
    numberMarks issued (front.map Prod.fst) = numbered issued (slice a (a + front.length) t) ∧
    (front.map Prod.fst).countP Mark.isPlaceholder = placeholders (slice a (a + front.length) t) := by
  have length : l.length = t.length := by rw [← length_scan, ← marks, List.length_map]
  have sizes := congrArg List.length split
  rw [List.length_drop, List.length_append] at sizes
  have inPlace : front.map Prod.fst = slice a (a + front.length) (scan t) := by
    rw [slice_eq_take_drop, Nat.add_sub_cancel_left, ← marks, ← List.map_drop, split, List.map_append,
      List.take_left' (List.length_map _)]
  obtain ⟨named, count⟩ := numbered_part dashes (Nat.le_add_right a front.length) (by omega) start issued
  refine ⟨by omega, ?_, by rw [inPlace, named], by rw [inPlace, count]⟩
  rw [inPlace, markText, map_slice, ← markText, markText_scan]

/-- Naming the placeholders first and then cutting at words gives what cutting first and then naming
    the parts in turn gives. -/
theorem cutWords_named (marks : l.map Prod.fst = scan t) (dashes : DashesOnly {} t)
    (isKeyword : ∀ k, IsKeyword [word k])
    (stands : ∀ n m k, l[n]? = some (m, some k) → ∃ q, Stands t [word k] n q) {a : Nat} {head : Text}
    {parts : List (κ × Text)} (start : stateAt t a = {}) (inText : a ≤ t.length)
    (cut : cutWords (fun k => (word k).length) 0 (plainWords (l.drop a)) = (head, parts)) (issued : Nat) :
    cutWords (fun k => (word k).length) 0 (nameWords issued (l.drop a)) =
      (numbered issued head, nameParts (issued + placeholders head) parts) := by
  have length : l.length = t.length := by rw [← length_scan, ← marks, List.length_map]
  obtain ⟨front, rest, split, none, next⟩ := exists_front (l.drop a)
  obtain ⟨bound, text, named, count⟩ := front_eq marks dashes start inText split issued
  rw [split, plainWords_of_none none, cutWords_none, text] at cut
  rw [split, nameWords_of_none issued none, cutWords_none, named, count]
  cases rest with
  | nil =>
    rw [plainWords, List.map_nil, cutWords, List.append_nil] at cut
    cases cut
    rw [nameWords, cutWords, List.append_nil, nameParts]
  | cons p more =>
    obtain ⟨m, found⟩ := p
    obtain ⟨k, rfl⟩ := Option.isSome_iff_exists.mp (next _ rfl)
    have here : l.drop (a + front.length) = (m, some k) :: more := by
      rw [← List.drop_drop, split, List.drop_left]
    obtain ⟨q, opens⟩ := stands (a + front.length) m k (by rw [← List.head?_drop, here]; rfl)
    have less := opens.lt (isKeyword k)
    have inList := opens.bound
    obtain ⟨code, plain, renamed⟩ := behind_word marks (isKeyword k) opens here
      (issued + placeholders (slice a (a + front.length) t))
    have later := cutWords_named marks dashes isKeyword stands (opens.state_eq_end (isKeyword k)) opens.bound rfl
      (issued + placeholders (slice a (a + front.length) t))
    have letters : plainWords ((m, some k) :: more) = (m.char, some k) :: plainWords more := rfl
    rw [letters, cutWords, cutWords_skip, plain, List.append_nil] at cut
    cases cut
    rw [nameWords, if_neg code, cutWords, cutWords_skip, renamed, later, List.append_nil, nameParts]
termination_by l.length - a

end Cut
section First

variable {κ : Type} {word : κ → Text} {t : Text} {issued : Nat} {l : List (Mark × Option κ)}

def firstWord? (size : κ → Nat) : List (Char × Option κ) → Option (Text × Text)
  | [] => none
  | (c, none) :: rest => (firstWord? size rest).map fun (passed, after) => (c :: passed, after)
  | (_, some k) :: rest => some ([], (rest.map Prod.fst).drop (size k - 1))

theorem firstWord?_append (size : κ → Nat) (s : Text) (rest : List (Char × Option κ)) :
    firstWord? size (s.map (·, none) ++ rest) =
      (firstWord? size rest).map fun p => (s ++ p.1, p.2) := by
  induction s with
  | nil => simp
  | cons c s ih =>
    rw [List.map_cons, List.cons_append, firstWord?, ih, Option.map_map]
    rfl

theorem map_fst_plainWords (l : List (Mark × Option κ)) :
    (plainWords l).map Prod.fst = markText (l.map Prod.fst) := by
  rw [plainWords, markText, List.map_map, List.map_map]
  rfl

theorem map_fst_nameWords (issued : Nat) (l : List (Mark × Option κ)) :
    (nameWords issued l).map Prod.fst = numberMarks issued (l.map Prod.fst) := by
  induction l generalizing issued with
  | nil => rfl
  | cons p l ih =>
    rw [nameWords, List.map_cons, numberMarks]
    split
    · rw [List.map_append, List.map_map, ih, show (Prod.fst ∘ fun c : Char => (c, (none : Option κ))) = id from rfl,
        List.map_id]
    · rw [List.map_cons, ih]

theorem topKeyword?_words {all : List κ} (areKeywords : ∀ k ∈ all, IsKeyword [word k]) (c : Cursor) :
    c.topKeyword? (all.map fun k => [word k]) =
      (if c.atTop then all.find? fun k => c.startsWith [word k] else none).map
        fun k => c.skip (word k).length := by
  rw [Cursor.topKeyword?]
  split
  · induction all with
    | nil => rfl
    | cons k all ih =>
      have rest := ih fun k member => areKeywords k (by simp [member])
      rw [List.map_cons, List.findSome?_cons, List.find?_cons, Cursor.startsWith]
      cases found : c.keyword? [word k] with
      | none => simpa using rest
      | some after =>
        obtain ⟨-, u, -, -, spells, -, rfl⟩ :=
          (Cursor.keyword?_eq_some_iff (areKeywords k (by simp))).mp found
        rw [length_of_spells spells]
        rfl
  · rfl

/-- A search for words stops at the first that is found. -/
theorem find?_words {all : List κ} {probe : Cursor → Option κ}
    (areKeywords : ∀ k ∈ all, IsKeyword [word k])
    (probes : ∀ c, probe c = if c.atTop then all.find? fun w => c.startsWith [word w] else none)
    (c : Cursor) :
    (c.find? (all.map fun k => [word k])).map (fun p => (p.1, p.2.text)) =
      firstWord? (fun k => (word k).length) (Cursor.annotate probe c.before c.marks) := by
  obtain ⟨before, ms⟩ := c
  rw [Cursor.find?, Cursor.seek]
  induction ms generalizing before with
  | nil => rfl
  | cons m ms ih =>
    have rest := ih (some m.char)
    rw [Cursor.seekFrom, topKeyword?_words areKeywords, ← probes, Cursor.annotate]
    cases found : probe ⟨before, m :: ms⟩ with
    | none =>
      rw [Option.map_none, firstWord?, ← rest, Option.map_map, Option.map_map]
      rfl
    | some k =>
      have full : (word k).length ≠ 0 := by
        rw [probes] at found
        split_ifs at found
        have isKeyword := areKeywords k (List.mem_of_find?_eq_some found)
        exact mt List.eq_nil_of_length_eq_zero (isKeyword.2 (word k) (by simp)).1
      obtain ⟨n, size⟩ := Nat.exists_eq_succ_of_ne_zero full
      rw [Option.map_some, Option.map_some, firstWord?, Cursor.text_skip, Cursor.text_mk, map_fst_annotate, size]
      rfl

/-- Naming the placeholders first and then looking for words gives what looking first and then naming
    both sides gives. -/
theorem firstWord?_named (marks : l.map Prod.fst = scan t) (dashes : DashesOnly {} t)
    (isKeyword : ∀ k, IsKeyword [word k])
    (stands : ∀ n m k, l[n]? = some (m, some k) → ∃ q, Stands t [word k] n q) (issued : Nat) :
    firstWord? (fun k => (word k).length) (nameWords issued l) =
      (firstWord? (fun k => (word k).length) (plainWords l)).map fun p =>
        (numbered issued p.1, numbered (issued + placeholders p.1) p.2) := by
  obtain ⟨front, rest, split, none, next⟩ := exists_front (l.drop 0)
  obtain ⟨bound, text, named, count⟩ := front_eq marks dashes stateAt_zero (Nat.zero_le _) split issued
  rw [List.drop_zero] at split
  rw [Nat.zero_add] at text named count
  rw [split, plainWords_of_none none, nameWords_of_none issued none, firstWord?_append, firstWord?_append, text,
    named, count]
  cases rest with
  | nil => rfl
  | cons p more =>
    obtain ⟨m, found⟩ := p
    obtain ⟨k, rfl⟩ := Option.isSome_iff_exists.mp (next _ rfl)
    have here : l.drop front.length = (m, some k) :: more := by rw [split, List.drop_left]
    obtain ⟨q, opens⟩ := stands front.length m k (by rw [← List.head?_drop, here]; rfl)
    obtain ⟨code, plain, renamed⟩ := behind_word marks (isKeyword k) opens here
      (issued + placeholders (slice 0 front.length t))
    have letters : plainWords ((m, some k) :: more) = (m.char, some k) :: plainWords more := rfl
    have start := opens.state_eq_end (isKeyword k)
    have after : (l.drop q).map Prod.fst = scan (t.drop q) := by rw [List.map_drop, marks, scan_drop start]
    rw [letters, nameWords, if_neg code, firstWord?, firstWord?, ← List.map_drop, ← List.map_drop, plain, renamed,
      map_fst_plainWords, map_fst_nameWords, after, markText_scan]
    simp [numbered]

end First
end QueryChain
