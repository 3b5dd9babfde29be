import QueryChain.Proofs.Naming.Cuts

namespace QueryChain

section Group

variable {s e : ScanState} {t : Text} {issued : Nat}

theorem Leads.of_named (leads : Leads s (numberMarks issued (s.marks t)) e) : Leads s t e := by
  induction t generalizing s issued with
  | nil => exact leads
  | cons c t ih =>
    rw [ScanState.marks, numberMarks] at leads
    by_cases placeholder : (s.mark c t).isPlaceholder
    · obtain ⟨code, char⟩ := char_of_placeholder placeholder
      rw [ScanState.mark_char] at char
      subst char
      have mode := s.mode_of_code '?' t (by decide) code
      rw [if_pos placeholder] at leads
      rw [s.next_plain mode '?' t (by decide)] at leads
      have plain : ∀ c ∈ paramName (issued + 1), isPlain c := fun c => isPlain_of_mem_paramName
      have later : Leads s (numberMarks (issued + 1) (s.marks t)) e := by
        generalize paramName (issued + 1) = name at leads plain
        induction name with
        | nil => exact leads
        | cons d name ihName =>
          cases leads with
          | cons _ _ rest =>
            rw [s.next_plain mode d _ (plain d (by simp))] at rest
            exact ihName rest fun b member => plain b (by simp [member])
      refine .cons ?_ ?_ ?_
      · rw [s.mark_plain mode '?' t (by decide)]
        exact MarkKind.noConfusion
      · rintro - closing
        cases closing
      · rw [s.next_plain mode '?' t (by decide)]
        exact ih later
    · obtain ⟨mark, next⟩ := mark_of_role (s := s) (role_numberMarks (s := s.next c t) (k := issued)
        (c := c) (t := t))
      rw [if_neg placeholder, ScanState.mark_char] at leads
      cases leads with
      | cons free opened later =>
        rw [mark] at free opened
        rw [next] at later
        exact .cons free opened (ih later)

theorem CommentFree.trim (free : CommentFree t) : CommentFree (trim t) := by
  obtain ⟨front, back, parts, blankFront, blankBack⟩ := trim_spec t
  intro m member
  apply free m
  rw [parts, pad_marks blankFront blankBack]
  simp [member]

theorem CommentFree.named (free : CommentFree t) (issued : Nat) : CommentFree (numbered issued t) := by
  intro m member comment
  rw [scan_numbered] at member
  rcases mem_nameMarks member with old | ⟨code, -⟩
  · exact free m old comment
  · rw [code] at comment
    cases comment

theorem balanced_numbered_iff (free : CommentFree t) (issued : Nat) :
    Balanced (numbered issued t) ↔ Balanced t :=
  ⟨fun balanced => Solid.balanced (Leads.of_named (balanced.solid (free.named issued))),
    fun balanced => ((balanced.solid free).named issued).balanced⟩

theorem any_nameMarks {p : Mark → Bool} (other : ∀ c d, isPlain c → p ⟨c, d, .code⟩ = false) (issued : Nat)
    (ms : Marks) : (nameMarks issued ms).any p = ms.any p := by
  induction ms generalizing issued with
  | nil => rfl
  | cons m ms ih =>
    rw [nameMarks, List.any_cons]
    split
    · rename_i placeholder
      obtain ⟨code, char⟩ := char_of_placeholder placeholder
      have question : p m = false := by
        obtain ⟨c, d, k⟩ := m
        dsimp only at char
        subst char
        rw [Mark.isCode, beq_iff_eq] at code
        dsimp only at code
        subst code
        exact other '?' d (by decide)
      have name : (nameOf (issued + 1) m.depth).any p = false := by
        rw [List.any_eq_false]
        intro n member
        obtain ⟨c, inName, rfl⟩ := List.mem_map.mp member
        rw [other c _ (isPlain_of_mem_paramName inName)]
        exact Bool.false_ne_true
      rw [List.any_append, ih, name, question]
    · rw [List.any_cons, ih]

theorem nameMarks_append (issued : Nat) (ms ns : Marks) : nameMarks issued (ms ++ ns) =
    nameMarks issued ms ++ nameMarks (issued + ms.countP Mark.isPlaceholder) ns := by
  induction ms generalizing issued with
  | nil => rfl
  | cons m ms ih =>
    rw [List.cons_append, nameMarks, nameMarks]
    by_cases placeholder : m.isPlaceholder
    · rw [if_pos placeholder, if_pos placeholder, ih, List.countP_cons_of_pos placeholder, List.append_assoc,
        Nat.add_right_comm, Nat.add_assoc]
    · rw [if_neg placeholder, if_neg placeholder, ih, List.countP_cons_of_neg placeholder, List.cons_append]

theorem isGroup_numbered (free : CommentFree t) (issued : Nat) : isGroup (numbered issued t) = isGroup t := by
  have first := head?_numberMarks (s := {}) (k := issued) (t := trim t) (f := (· == some '(')) (by decide)
  have last := getLast?_numberMarks_of (f := (· == some ')'))
    (fun c digit => beq_false_of_ne fun same => by
      cases same
      cases digit) issued (scan (trim t))
  rw [← scan, ← numbered] at first
  rw [← numbered, markText_scan] at last
  have fault : (fault? (numbered issued (trim t))).isNone = (fault? (trim t)).isNone := by
    rw [Bool.eq_iff_iff, Option.isNone_iff_eq_none, Option.isNone_iff_eq_none]
    exact balanced_numbered_iff free.trim issued
  rw [isGroup, isGroup, ← numbered_trim, first, last, fault, scan_numbered]
  by_cases closed : (trim t).getLast? = some ')'
  swap
  · rw [beq_false_of_ne closed, Bool.and_false, Bool.false_and, Bool.false_and, Bool.false_and, Bool.false_and]
  obtain ⟨ms, m, marks⟩ : ∃ ms m, scan (trim t) = ms ++ [m] := by
    rcases List.eq_nil_or_concat (scan (trim t)) with none | ⟨ms, m, marks⟩
    · rw [← markText_scan (trim t), none] at closed
      cases closed
    · exact ⟨ms, m, by rw [marks, List.concat_eq_append]⟩
  have char : m.char = ')' := by
    rw [← markText_scan (trim t), marks, markText_append] at closed
    simpa [markText] using closed
  have code : ¬m.isPlaceholder := fun placeholder => by
    rw [(char_of_placeholder placeholder).2] at char
    cases char
  have closing : ∀ c d, isPlain c → (⟨c, d, .code⟩ : Mark).isTopOf ')' = false := by
    intro c d plain
    have other : c ≠ ')' := by
      rintro rfl
      cases plain
    simp [Mark.isTopOf, other]
  rw [marks, nameMarks_append, nameMarks, if_neg code, nameMarks, List.dropLast_concat, List.dropLast_concat,
    any_nameMarks closing]

end Group
section Conditions

variable {t : Text} {issued : Nat}

def readLogic : Text → Option LogicWord := lookUp LogicWord.all LogicWord.word

def nameConditions (issued : Nat) : List Condition → List Condition
  | [] => []
  | c :: cs => { c with text := numbered issued c.text } :: nameConditions (issued + placeholders c.text) cs

def topConditions (t : Text) : List Condition :=
  if t = [] then []
  else if isGroup t ∨ (conditionPieces t).length < 2 then [⟨t, none⟩]
  else conditionPieces t

theorem splitConditions_eq (t : Text) : splitConditions t = foldPrecedence (topConditions t) := by
  rw [splitConditions, topConditions]
  by_cases empty : t = []
  · rw [if_pos empty, if_pos empty, foldPrecedence]
  · rw [if_neg empty, if_neg empty]
    by_cases group : isGroup t
    · rw [if_pos group, if_pos (.inl group)]
      rfl
    · rw [if_neg group]
      by_cases single : (conditionPieces t).length < 2
      · rw [if_pos single, if_pos (.inr single)]
        rfl
      · rw [if_neg single, if_neg (not_or.mpr ⟨group, single⟩)]

theorem splitPoints_named (l : List (Mark × Option LogicWord)) (caseDepth : Nat) (between : Bool)
    (none : ∀ p ∈ l, p.1.isPlaceholder → p.2 = none) :
    ∃ points : List (Mark × Option Connective), points.map Prod.fst = l.map Prod.fst ∧
      plainWords points = splitPoints caseDepth between (plainWords l) ∧
      ∀ issued, nameWords issued points = splitPoints caseDepth between (nameWords issued l) := by
  induction l generalizing caseDepth between with
  | nil => exact ⟨[], rfl, rfl, fun _ => rfl⟩
  | cons p l ih =>
    obtain ⟨k, caseDepth', between', step⟩ := splitPoints_step caseDepth between p.2
    by_cases placeholder : p.1.isPlaceholder
    · have here := none p (by simp) placeholder
      obtain ⟨points, marks, plain, named⟩ := ih caseDepth between fun q member => none q (by simp [member])
      refine ⟨(p.1, .none) :: points, by rw [List.map_cons, marks]; rfl, ?_, fun issued => ?_⟩
      · rw [plainWords, List.map_cons, ← plainWords, plain, plainWords, plainWords, List.map_cons, here, splitPoints]
      · rw [nameWords, nameWords, if_pos placeholder, if_pos placeholder, splitPoints_none, named]
    · obtain ⟨points, marks, plain, named⟩ := ih caseDepth' between' fun q member => none q (by simp [member])
      refine ⟨(p.1, k) :: points, by rw [List.map_cons, marks]; rfl, ?_, fun issued => ?_⟩
      · rw [plainWords, List.map_cons, ← plainWords, plain, plainWords, plainWords, List.map_cons, step]
      · rw [nameWords, nameWords, if_neg placeholder, if_neg placeholder, step, named]

theorem wordMarks_placeholder {κ : Type} {f : Text → Option κ} (reads : ReadsWords f) (b : Option Char)
    (ms : Marks) : ∀ p ∈ wordMarks f b ms, p.1.isPlaceholder → p.2 = none := by
  induction ms generalizing b with
  | nil => simp [wordMarks]
  | cons m ms ih =>
    intro p member placeholder
    rcases List.mem_cons.mp member with rfl | later
    · rw [topWord_of_placeholder placeholder, reads.nil]
    · exact ih _ p later placeholder

theorem getElem?_plainWords {κ : Type} {l : List (Mark × Option κ)} {n : Nat} {m : Mark} {w : Option κ}
    (at_ : l[n]? = some (m, w)) : (plainWords l)[n]? = some (m.char, w) := by
  rw [plainWords, List.getElem?_map, at_]
  rfl

theorem conditions_nameParts (issued : Nat) (parts : List (Connective × Text)) :
    (nameParts issued parts).map (fun (k, body) => (⟨trim body, some k⟩ : Condition)) =
      nameConditions issued (parts.map fun (k, body) => ⟨trim body, some k⟩) := by
  induction parts generalizing issued with
  | nil => rfl
  | cons part parts ih =>
    rw [nameParts, List.map_cons, List.map_cons, nameConditions, ih, numbered_trim, placeholders_trim]

theorem filter_nameConditions (issued : Nat) (cs : List Condition) :
    (nameConditions issued cs).filter (·.text ≠ []) = nameConditions issued (cs.filter (·.text ≠ [])) := by
  induction cs generalizing issued with
  | nil => rfl
  | cons c cs ih =>
    rw [nameConditions, List.filter_cons, List.filter_cons, ih]
    by_cases empty : c.text = []
    · simp [empty]
    · have full := mt (numbered_eq_nil_iff issued c.text).mp empty
      simp [empty, full, nameConditions]

theorem length_nameConditions (issued : Nat) (cs : List Condition) :
    (nameConditions issued cs).length = cs.length := by
  induction cs generalizing issued with
  | nil => rfl
  | cons c cs ih => rw [nameConditions, List.length_cons, List.length_cons, ih]

theorem conditionPieces_named (free : CommentFree t) (kept : KeepsWords readLogic t) (issued : Nat) :
    conditionPieces (numbered issued t) = nameConditions issued (conditionPieces t) := by
  have words : logicMarks t = plainWords (wordMarks readLogic none (scan t)) := by
    rw [logicMarks_eq, ← readWords_wordsFrom]
    rfl
  have named : logicMarks (numbered issued t) = nameWords issued (wordMarks readLogic none (scan t)) := by
    rw [logicMarks_eq, ← kept.named readsWords_logic]
    rfl
  obtain ⟨points, marks, plain, renamed⟩ := splitPoints_named (wordMarks readLogic none (scan t)) 0 false
    (wordMarks_placeholder readsWords_logic none (scan t))
  rw [map_fst_wordMarks] at marks
  have stands : ∀ n m k, points[n]? = some (m, some k) → ∃ q, Stands t [Connective.word k] n q := by
    intro n m k at_
    have there := getElem?_plainWords at_
    rw [plain, ← words] at there
    exact stands_of_annotate (k := LogicWord.connective k) (isKeyword_connective k) (fun _ => rfl)
      (connective_of_splitPoints there)
  rcases cut : cutWords (fun k => (Connective.word k).length) 0 (plainWords points) with ⟨head, parts⟩
  have cutNamed := cutWords_named (a := 0) marks free.dashes isKeyword_connective stands stateAt_zero (Nat.zero_le _)
    cut issued
  rw [List.drop_zero, renamed, ← named] at cutNamed
  rw [plain, ← words] at cut
  rw [conditionPieces, conditionPieces, ← logicMarks, ← logicMarks]
  dsimp only
  rw [cut, cutNamed]
  dsimp only
  have pieces : (⟨trim (numbered issued head), none⟩ ::
      (nameParts (issued + placeholders head) parts).map fun (k, body) => ⟨trim body, some k⟩ : List Condition) =
      nameConditions issued (⟨trim head, none⟩ :: parts.map fun (k, body) => ⟨trim body, some k⟩) := by
    rw [conditions_nameParts, nameConditions, numbered_trim, placeholders_trim]
  rw [pieces, filter_nameConditions]
  cases (⟨trim head, none⟩ :: parts.map fun (k, body) => ⟨trim body, some k⟩ : List Condition).filter (·.text ≠ []) with
  | nil => rfl
  | cons first rest => rfl

theorem topConditions_named (free : CommentFree t) (kept : KeepsWords readLogic t) (issued : Nat) :
    topConditions (numbered issued t) = nameConditions issued (topConditions t) := by
  rw [topConditions, topConditions, conditionPieces_named free kept, isGroup_numbered free, length_nameConditions]
  by_cases empty : t = []
  · rw [if_pos empty, if_pos ((numbered_eq_nil_iff issued t).mpr empty), nameConditions]
  · rw [if_neg empty, if_neg (mt (numbered_eq_nil_iff issued t).mp empty)]
    split <;> rfl

end Conditions
section Joins

variable {t : Text} {issued : Nat}

def readJoin : Text → Option JoinWord := lookUp [.join, .straightJoin] JoinWord.word

inductive TableEnd where
  | on
  | using
  deriving DecidableEq, Repr

def TableEnd.word : TableEnd → Text
  | .on => "ON"
  | .using => "USING"

theorem isKeyword_tableEnd (w : TableEnd) : IsKeyword [w.word] := by cases w <;> decide

def readTableEnd : Text → Option TableEnd := lookUp [.on, .using] TableEnd.word

/-- No placeholder's name runs into a word that the joins of a text are cut at. -/
structure KeepsJoins (t : Text) : Prop where
  joins : KeepsWords readJoin t
  segments : ∀ j ∈ (cutJoins t).2, KeepsWords readTableEnd j.body

def nameJoins (issued : Nat) : List JoinText → List JoinText
  | [] => []
  | j :: js => { j with body := numbered issued j.body } :: nameJoins (issued + placeholders j.body) js

def JoinText.namedSegment (issued : Nat) (j : JoinText) : JoinSegment :=
  { j.segment with
    table := numbered issued j.segment.table
    condition := j.segment.condition.map
      (numbered (issued + placeholders ((Cursor.start j.body).upTo [["ON"]]))) }

def namedSegments (issued : Nat) : List JoinText → List JoinSegment
  | [] => []
  | j :: js => j.namedSegment issued :: namedSegments (issued + placeholders j.body) js

theorem assignQualifiers_named (front : Text) (parts : List (JoinWord × Text)) (issued : Nat) :
    assignQualifiers (numbered issued front) (nameParts (issued + placeholders front) parts) =
      (numbered issued (assignQualifiers front parts).1,
        nameJoins (issued + placeholders front) (assignQualifiers front parts).2) ∧
    placeholders (assignQualifiers front parts).1 = placeholders front := by
  induction parts generalizing front issued with
  | nil => exact ⟨rfl, rfl⟩
  | cons part parts ih =>
    obtain ⟨word, behind⟩ := part
    obtain ⟨rest, count⟩ := ih behind (issued + placeholders front)
    cases word with
    | join =>
      obtain ⟨named, same⟩ := trailingQualifiers_named issued front
      rw [nameParts, assignQualifiers, assignQualifiers, rest, named, nameJoins, count]
      exact ⟨rfl, same⟩
    | straightJoin =>
      rw [nameParts, assignQualifiers, assignQualifiers, rest, nameJoins, count]
      exact ⟨rfl, rfl⟩

theorem cutJoins_named (dashes : DashesOnly {} t) (kept : KeepsWords readJoin t) (issued : Nat) :
    cutJoins (numbered issued t) =
      (numbered issued (cutJoins t).1, nameJoins (issued + placeholders (cutJoins t).1) (cutJoins t).2) := by
  have words : joinMarks t = plainWords (wordMarks readJoin none (scan t)) := by
    rw [joinMarks_eq, ← readWords_wordsFrom]
    rfl
  have named : joinMarks (numbered issued t) = nameWords issued (wordMarks readJoin none (scan t)) := by
    rw [joinMarks_eq, ← kept.named readsWords_join]
    rfl
  have stands : ∀ n m w, (wordMarks readJoin none (scan t))[n]? = some (m, some w) →
      ∃ q, Stands t [JoinWord.word w] n q := by
    intro n m w at_
    have there := getElem?_plainWords at_
    rw [← words] at there
    exact stands_of_annotate (isKeyword_joinWord w) (fun _ => rfl) there
  rcases cut : cutWords (fun w => (JoinWord.word w).length) 0 (plainWords (wordMarks readJoin none (scan t)))
    with ⟨front, parts⟩
  have cutNamed := cutWords_named (a := 0) (map_fst_wordMarks _ _ _) dashes isKeyword_joinWord stands stateAt_zero
    (Nat.zero_le _) cut issued
  rw [List.drop_zero, ← named] at cutNamed
  rw [← words] at cut
  obtain ⟨assigned, count⟩ := assignQualifiers_named front parts issued
  rw [cutJoins, cutJoins, ← joinMarks, ← joinMarks]
  dsimp only
  rw [cut, cutNamed]
  dsimp only
  rw [assigned, count]

/-- Fewer words are kept where more are. -/
theorem KeepsWords.mono {κ : Type} {f g : Text → Option κ} (fewer : ∀ w, f w = none → g w = none)
    (kept : KeepsWords f t) : KeepsWords g t := by
  have marks (b : Option Char) (ms : Marks) (chain : (wordMarks f b ms).IsChain Freed) :
      (wordMarks g b ms).IsChain Freed := by
    induction ms generalizing b with
    | nil => exact .nil
    | cons m ms ih =>
      rw [wordMarks, List.isChain_cons] at chain ⊢
      refine ⟨?_, ih _ chain.2⟩
      cases ms with
      | nil => simp [wordMarks]
      | cons n ms =>
        simp only [wordMarks, List.head?_cons, Option.mem_some_iff, forall_eq'] at chain ⊢
        exact fun placeholder => fewer _ (chain.1 placeholder)
  exact marks none (scan t) kept

/-- Naming the placeholders first and then looking for words gives what looking first and then naming
    what stands before and behind the word gives. -/
theorem find?_named {all : List TableEnd} (dashes : DashesOnly {} t)
    (kept : KeepsWords (lookUp all TableEnd.word) t) (issued : Nat) :
    ((Cursor.start (numbered issued t)).find? (all.map fun w => [w.word])).map (fun p => (p.1, p.2.text)) =
      ((Cursor.start t).find? (all.map fun w => [w.word])).map fun p =>
        (numbered issued p.1, numbered (issued + placeholders p.1) p.2.text) := by
  have areKeywords : ∀ w ∈ all, IsKeyword [w.word] := fun w _ => isKeyword_tableEnd w
  have reads : ReadsWords (lookUp all TableEnd.word) := readsWords_lookUp areKeywords
  let probe : Cursor → Option TableEnd := fun c =>
    if c.atTop then all.find? fun w => c.startsWith [w.word] else none
  have words (u : Text) : Cursor.annotate probe none (scan u) = readWords (lookUp all TableEnd.word) (topWords u) :=
    annotate_eq areKeywords (fun _ => rfl) none (scan u)
  have plain : Cursor.annotate probe none (scan t) = plainWords (wordMarks (lookUp all TableEnd.word) none (scan t)) := by
    rw [words, topWords, readWords_wordsFrom]
  have stands : ∀ n m w, (wordMarks (lookUp all TableEnd.word) none (scan t))[n]? = some (m, some w) →
      ∃ q, Stands t [w.word] n q := by
    intro n m w at_
    have there := getElem?_plainWords at_
    rw [← plain] at there
    exact stands_of_annotate (isKeyword_tableEnd w) (fun _ => rfl) there
  have probes (c : Cursor) : probe c = if c.atTop then all.find? fun w => c.startsWith [w.word] else none := rfl
  have here := find?_words areKeywords probes (Cursor.start t)
  have there := find?_words areKeywords probes (Cursor.start (numbered issued t))
  have first := firstWord?_named (map_fst_wordMarks _ _ _) dashes isKeyword_tableEnd stands issued
  rw [← plain, ← kept.named reads, ← words] at first
  rw [there]
  refine first.trans ?_
  rw [show Cursor.annotate probe none (scan t) = Cursor.annotate probe (Cursor.start t).before (Cursor.start t).marks
    from rfl, ← here, Option.map_map]
  rfl

theorem upTo_named {all : List TableEnd} (dashes : DashesOnly {} t)
    (kept : KeepsWords (lookUp all TableEnd.word) t) (issued : Nat) :
    (Cursor.start (numbered issued t)).upTo (all.map fun w => [w.word]) =
      numbered issued ((Cursor.start t).upTo (all.map fun w => [w.word])) := by
  have found := find?_named dashes kept issued
  rw [Cursor.upTo, Cursor.upTo]
  cases here : (Cursor.start t).find? (all.map fun w => [w.word]) with
  | none =>
    rw [here, Option.map_none, Option.map_eq_none_iff] at found
    rw [found]
    exact (markText_scan _).trans (congrArg (numbered issued) (markText_scan t).symm)
  | some p =>
    rw [here, Option.map_some] at found
    obtain ⟨p', there, same⟩ := Option.map_eq_some_iff.mp found
    rw [there]
    exact congrArg Prod.fst same

theorem segment_named {j : JoinText} (dashes : DashesOnly {} j.body) (kept : KeepsWords readTableEnd j.body)
    (issued : Nat) : ({ j with body := numbered issued j.body } : JoinText).segment = j.namedSegment issued := by
  have one (w : TableEnd) : KeepsWords (lookUp [w] TableEnd.word) j.body := by
    apply kept.mono
    intro u none
    rw [readTableEnd, lookUp, List.find?_eq_none] at none
    rw [lookUp, List.find?_eq_none]
    intro v member
    exact none v (by cases w <;> cases v <;> simp_all)
  have table := upTo_named dashes kept issued
  have condition := find?_named dashes (one .on) issued
  have columns := congrArg Option.isSome (find?_named dashes (one .using) issued)
  rw [Option.isSome_map, Option.isSome_map] at columns
  have onNamed : ((Cursor.start (numbered issued j.body)).find? [["ON"]]).map (fun p => trim p.2.text) =
      (((Cursor.start j.body).find? [["ON"]]).map fun p => trim p.2.text).map
        (numbered (issued + placeholders ((Cursor.start j.body).upTo [["ON"]]))) := by
    have trimmed := congrArg (Option.map fun p : Text × Text => trim p.2) condition
    rw [Option.map_map, Option.map_map] at trimmed
    refine trimmed.trans ?_
    rw [Cursor.upTo, Option.map_map]
    change Option.map _ ((Cursor.start j.body).find? [["ON"]]) = _
    cases (Cursor.start j.body).find? [["ON"]] with
    | none => rfl
    | some p =>
      simp only [Option.map_some, Function.comp_apply, numbered_trim]
  have tableNamed : trim ((Cursor.start (numbered issued j.body)).upTo [["ON"], ["USING"]]) =
      numbered issued (trim ((Cursor.start j.body).upTo [["ON"], ["USING"]])) := by
    rw [numbered_trim]
    exact congrArg trim table
  exact JoinSegment.mk.injEq .. |>.mpr ⟨rfl, tableNamed, onNamed, columns⟩

theorem trailingQualifiers_front (t : Text) : (trailingQualifiers t).1 <+: t := by
  have dropped (n : Nat) (found : List Text) : (dropQualifiers n t found).1 <+: t := by
    induction n generalizing t found with
    | zero => exact List.prefix_refl t
    | succ n ih =>
      rw [dropQualifiers]
      cases last : lastQualifier? t with
      | none => exact List.prefix_refl t
      | some frontWord =>
        obtain ⟨front, word⟩ := frontWord
        obtain ⟨spelling, back, parts, -⟩ := lastQualifier?_eq_some_iff.mp last
        exact (ih front (word :: found)).trans ⟨spelling ++ back, parts.symm⟩
  exact dropped t.length []

theorem DashesOnly.start {u : Text} (dashes : DashesOnly {} t) (starts : u <+: t) : DashesOnly {} u := by
  obtain ⟨rest, rfl⟩ := starts
  exact dashesOnly_cut (s := {}) rfl rfl dashes

theorem CutAt.dashes {κ : Type} {word : κ → Text} {a : Nat} {head : Text} {parts : List (κ × Text)}
    (cut : CutAt word t a head parts) (isKeyword : ∀ k, IsKeyword [word k]) (dashes : DashesOnly {} t)
    (start : stateAt t a = {}) : ∀ u ∈ head :: parts.map Prod.snd, DashesOnly {} u := by
  induction cut with
  | last =>
    intro u member
    rw [List.map_nil, List.mem_singleton] at member
    rw [member]
    exact dashes.drop start
  | @cut a n q k head parts le stands rest ih =>
    intro u member
    rcases List.mem_cons.mp member with rfl | later
    · have bound := stands.bound
      have order := stands.le
      exact (dashes.drop start).start ⟨t.drop n, slice_append_drop le (by omega)⟩
    · exact ih (stands.state_eq_end (isKeyword k)) u later

theorem dashes_assignQualifiers {front : Text} {parts : List (JoinWord × Text)}
    (dashes : ∀ u ∈ front :: parts.map Prod.snd, DashesOnly {} u) :
    DashesOnly {} (assignQualifiers front parts).1 ∧
      ∀ j ∈ (assignQualifiers front parts).2, DashesOnly {} j.body := by
  induction parts generalizing front with
  | nil => exact ⟨dashes front (by simp), by simp [assignQualifiers]⟩
  | cons part parts ih =>
    obtain ⟨word, behind⟩ := part
    have later : ∀ u ∈ behind :: parts.map Prod.snd, DashesOnly {} u := fun u member =>
      dashes u (by rw [List.map_cons]; exact List.mem_cons_of_mem _ member)
    obtain ⟨first, rest⟩ := ih later
    have here := dashes front (by simp)
    cases word with
    | join =>
      refine ⟨here.start (trailingQualifiers_front front), fun j member => ?_⟩
      rcases List.mem_cons.mp member with rfl | later
      · exact first
      · exact rest j later
    | straightJoin =>
      refine ⟨here, fun j member => ?_⟩
      rcases List.mem_cons.mp member with rfl | later
      · exact first
      · exact rest j later

theorem dashes_cutJoins (dashes : DashesOnly {} t) : ∀ j ∈ (cutJoins t).2, DashesOnly {} j.body := by
  have cut : CutAt JoinWord.word t 0 (cutWords (·.word.length) 0 (joinMarks t)).1
      (cutWords (·.word.length) 0 (joinMarks t)).2 := by
    apply cutAt_cutWords
    · exact (map_fst_annotate _ _ _).trans (markText_scan t)
    · exact isKeyword_joinWord
    · intro n c w found
      exact stands_of_annotate (isKeyword_joinWord w) (fun _ => rfl) found
  exact (dashes_assignQualifiers (cut.dashes isKeyword_joinWord dashes stateAt_zero)).2

theorem segments_named {js : List JoinText} (dashes : ∀ j ∈ js, DashesOnly {} j.body)
    (kept : ∀ j ∈ js, KeepsWords readTableEnd j.body) (issued : Nat) :
    (nameJoins issued js).map JoinText.segment = namedSegments issued js := by
  induction js generalizing issued with
  | nil => rfl
  | cons j js ih =>
    rw [nameJoins, List.map_cons, namedSegments, segment_named (dashes j (by simp)) (kept j (by simp)),
      ih (fun k member => dashes k (by simp [member])) fun k member => kept k (by simp [member])]

theorem joins_named (dashes : DashesOnly {} t) (kept : KeepsJoins t) (issued : Nat) :
    mainTables (numbered issued t) = numbered issued (mainTables t) ∧
      joinSegments (numbered issued t) =
        namedSegments (issued + placeholders (mainTables t)) (cutJoins t).2 := by
  rw [mainTables, joinSegments, mainTables, cutJoins_named dashes kept.joins, placeholders_trim, numbered_trim]
  exact ⟨rfl, segments_named (dashes_cutJoins dashes) kept.segments _⟩

end Joins
section Structure

variable {t : Text}

/-- Whether placeholders are named before or after a text is cut makes no difference where no name
    runs into a word at which it is cut. Then, and only then, all those words are still read. -/
theorem naming_keeps_structure (free : CommentFree t) (issued : Nat) :
    (logicWords (numbered issued (normalize t)) = logicWords (normalize t) ↔
      KeepsWords readLogic (normalize t)) ∧
    (KeepsWords readLogic (normalize t) →
      conditionsOf issued t = foldPrecedence (nameConditions issued (topConditions (normalize t)))) ∧
    (standsFor readJoin (topWords (numbered issued t)) = standsFor readJoin (topWords t) ↔
      KeepsWords readJoin t) ∧
    (KeepsJoins t →
      mainTables (numbered issued t) = numbered issued (mainTables t) ∧
      joinSegments (numbered issued t) =
        namedSegments (issued + placeholders (mainTables t)) (cutJoins t).2) := by
  refine ⟨(keepsWords_iff readsWords_logic _ issued).symm, fun kept => ?_,
    (keepsWords_iff readsWords_join _ issued).symm, fun kept => joins_named free.dashes kept issued⟩
  rw [conditionsOf, splitConditions_eq, topConditions_named (isNormal_normalize t).commentFree kept]

def joinedSources : Text := "u LEFT JOIN v ON ? = 'OR ?' AND ?"

theorem naming_keeps_structure_joined :
    conditionsOf 1 joinedSources =
      [⟨"u LEFT JOIN v ON :param2 = 'OR ?'", none⟩, ⟨":param3", some .and⟩] ∧
    mainTables (numbered 1 joinedSources) = "u".toList ∧
    joinSegments (numbered 1 joinedSources) = [⟨["LEFT"], "v", some ":param2 = 'OR ?' AND :param3", false⟩] := by
  have chars : joinedSources = _ := String.toList_ofList
  have free : CommentFree joinedSources := by
    rw [chars, CommentFree]
    decide +kernel
  have settled : cleanUp joinedSources = joinedSources := by
    rw [chars]
    decide +kernel
  have normal : normalize joinedSources = joinedSources := by rw [normalize, if_pos settled]
  obtain ⟨-, conditions, -, joins⟩ := naming_keeps_structure free 1
  have keeps : KeepsJoins joinedSources := by
    rw [chars]
    exact ⟨by decide +kernel, by decide +kernel⟩
  obtain ⟨tables, segments⟩ := joins keeps
  rw [normal] at conditions
  refine ⟨(conditions ?_).trans ?_, tables.trans ?_, segments.trans ?_⟩ <;> rw [chars] <;> decide +kernel

end Structure
end QueryChain
