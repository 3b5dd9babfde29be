import QueryChain.Proofs.Params.Joins
import QueryChain.Proofs.Scan.Parted
import QueryChain.Proofs.ReadBack.Tables

namespace QueryChain

inductive JoinForm where
  | join
  | inner
  | left
  | leftOuter
  | right
  | rightOuter
  | outer
  | full
  | fullOuter
  | cross
  | straight
  deriving DecidableEq, Repr

namespace JoinForm

def qualifiers : JoinForm → List Text
  | .join | .straight => []
  | .inner => ["INNER"]
  | .left => ["LEFT"]
  | .leftOuter => ["LEFT", "OUTER"]
  | .right => ["RIGHT"]
  | .rightOuter => ["RIGHT", "OUTER"]
  | .outer => ["OUTER"]
  | .full => ["FULL"]
  | .fullOuter => ["FULL", "OUTER"]
  | .cross => ["CROSS"]

def word : JoinForm → JoinWord
  | .straight => .straightJoin
  | _ => .join

def kind : JoinForm → JoinKind
  | .inner => .inner
  | .left | .leftOuter => .left
  | .right | .rightOuter => .right
  | .outer | .full | .fullOuter => .outer
  | .cross => .cross
  | .join | .straight => .plain

def lead (f : JoinForm) : Text := f.qualifiers.flatMap (· ++ [' '])

def text (f : JoinForm) : Text := f.lead ++ f.word.word

theorem kind_ofQualifiers (f : JoinForm) : JoinKind.ofQualifiers f.qualifiers = f.kind := by cases f <;> decide

theorem notNatural (f : JoinForm) : f.qualifiers.contains "NATURAL" = false := by cases f <;> decide

end JoinForm

structure JoinClause where
  form : JoinForm
  table : TableText
  condition : Option Text := none
  deriving DecidableEq, Repr

namespace JoinClause

def body (j : JoinClause) : Text :=
  match j.condition with
  | none => j.table.text
  | some c => j.table.text ++ ' ' :: ("ON".toList ++ ' ' :: c)

def join (j : JoinClause) : Join := ⟨j.form.kind, j.table.ref, j.condition⟩

def restText : List JoinClause → Text
  | [] => []
  | j :: js => ' ' :: (j.form.text ++ ' ' :: (j.body ++ restText js))

def placeholders (j : JoinClause) : Nat := (j.condition.map QueryChain.placeholders).getD 0

def namedAll (issued : Nat) : List JoinClause → List JoinClause
  | [] => []
  | j :: js => { j with condition := j.condition.map (numbered issued) } :: namedAll (issued + j.placeholders) js

end JoinClause

structure JoinCondition (c : Text) : Prop where
  item : Item c
  lacks : Lacks [["JOIN"], ["STRAIGHT_JOIN"], ["USING"]] c
  ends : lastQualifier? c = none

section Qualifiers

variable {t front : Text} {issued : Nat}

def lastBlankWord (t : Text) : Text := (t.reverse.takeWhile (!isBlank ·)).reverse

theorem trimEnd_eq (trimmed : trim t = t) : trimEnd t = t := by
  cases last : t.reverse with
  | nil =>
    rw [List.reverse_eq_nil_iff] at last
    subst last
    rfl
  | cons c rest =>
    have full : isBlank c = false := by
      apply getLast?_trim (t := t)
      rw [trimmed, ← List.head?_reverse, last]
      rfl
    rw [trimEnd, dropEndWhile, last, List.dropWhile_cons_of_neg (by simp [full]), ← last, List.reverse_reverse]

theorem lastQualifier?_eq_none_iff (trimmed : trimEnd t = t) :
    lastQualifier? t = none ↔ upper (lastBlankWord t) ∉ joinQualifiers := by
  rw [lastQualifier?, trimmed]
  simp only [ite_eq_right_iff, reduceCtorEq, imp_false]
  rfl

/-- What stands behind the last name in a text whose placeholders were named stood in the text. -/
theorem suffix_of_numberMarks {ms : Marks} {w : Text} (noDigit : ∀ c ∈ w, c.isDigit = false)
    (parts : numberMarks issued ms = front ++ w) :
    ∃ ms₁ ms₂, ms = ms₁ ++ ms₂ ∧ markText ms₂ = w ∧ numberMarks issued ms₁ = front := by
  induction ms using List.reverseRecOn generalizing w with
  | nil =>
    obtain ⟨rfl, rfl⟩ := List.append_eq_nil_iff.mp parts.symm
    exact ⟨[], [], rfl, rfl, rfl⟩
  | append_singleton ms m ih =>
    rcases List.eq_nil_or_concat w with rfl | ⟨w, c, rfl⟩
    · exact ⟨ms ++ [m], [], by simp, rfl, by simpa using parts⟩
    rw [List.concat_eq_append] at noDigit parts ⊢
    rw [numberMarks_append, numberMarks] at parts
    split at parts
    · exfalso
      have full : decimal (issued + ms.countP Mark.isPlaceholder + 1) ≠ [] :=
        List.ne_nil_of_length_pos (Nat.length_toDigits_pos ..)
      have last := congrArg List.getLast? parts
      rw [numberMarks, List.append_nil, paramName, ← List.append_assoc, getLast?_append_of_ne_nil full,
        ← List.append_assoc, getLast?_append_of_ne_nil (by simp)] at last
      have digit := isDigit_of_mem_decimal (List.mem_of_getLast? (last.trans rfl : _ = some c))
      rw [noDigit c (by simp)] at digit
      cases digit
    · rw [numberMarks, ← List.append_assoc] at parts
      obtain ⟨rest, last⟩ := List.append_inj' parts rfl
      obtain rfl : m.char = c := by simpa using last
      obtain ⟨ms₁, ms₂, rfl, text, named⟩ := ih (fun d member => noDigit d (by simp [member])) rest
      exact ⟨ms₁, ms₂ ++ [m], by simp, by rw [markText_append, text]; rfl, named⟩

theorem lastBlankWord_append (bare : ∀ c ∈ t, isBlank c = false) (stop : front.getLast?.all isBlank) :
    lastBlankWord (front ++ t) = t := by
  rw [lastBlankWord, List.reverse_append, takeWhile_of_stop, List.reverse_reverse]
  · intro c member
    simp [bare c (List.mem_reverse.mp member)]
  · rw [List.head?_reverse]
    cases last : front.getLast? with
    | none => rfl
    | some c =>
      rw [last] at stop
      simpa using stop

theorem trimEnd_blank {back : Text} (blank : ∀ c ∈ back, isBlank c) (t : Text) :
    trimEnd (t ++ back) = trimEnd t := by
  rw [trimEnd, dropEndWhile, List.reverse_append, List.dropWhile_append_of_pos]
  · rfl
  · exact fun c member => blank c (List.mem_reverse.mp member)

/-- A text ends in a qualifier if that is its last word, whatever the letter case. -/
theorem lastQualifier?_eq_some_iff {q : Text} : lastQualifier? t = some (front, q) ↔
    ∃ word back, t = front ++ (word ++ back) ∧ upper word = q ∧ q ∈ joinQualifiers ∧
      front.getLast?.all isBlank ∧ ∀ c ∈ back, isBlank c := by
  have unfolded : lastQualifier? t = if upper (lastBlankWord (trimEnd t)) ∈ joinQualifiers then
      some (dropEndWhile (!isBlank ·) (trimEnd t), upper (lastBlankWord (trimEnd t))) else none := rfl
  constructor
  · intro found
    rw [unfolded] at found
    split_ifs at found with member
    cases found
    refine ⟨lastBlankWord (trimEnd t), (t.reverse.takeWhile isBlank).reverse, ?_, rfl, member, ?_, ?_⟩
    · rw [← List.append_assoc, lastBlankWord, dropEndWhile_append_takeWhile, trimEnd,
        dropEndWhile_append_takeWhile]
    · have stop := List.head?_dropWhile_not (!isBlank ·) (trimEnd t).reverse
      rw [dropEndWhile, List.getLast?_reverse]
      cases last : ((trimEnd t).reverse.dropWhile (!isBlank ·)).head? with
      | none => rfl
      | some c =>
        rw [last] at stop
        simpa using stop
    · exact fun c member => List.mem_takeWhile_imp (List.mem_reverse.mp member)
  · rintro ⟨word, back, rfl, rfl, member, stop, blank⟩
    have full : ∀ q ∈ joinQualifiers, q ≠ [] ∧ ∀ c ∈ q, isCapital c := by decide
    have letters := isKeywordChar_of_upper (full _ member).2 (upper_of_isCapital (full _ member).2)
    have bare : ∀ c ∈ word, isBlank c = false := fun c inWord => isBlank_of_isKeywordChar c (letters c inWord)
    have ends : trimEnd (front ++ (word ++ back)) = front ++ word := by
      rw [← List.append_assoc, trimEnd_blank blank]
      rcases List.eq_nil_or_concat word with rfl | ⟨w, c, rfl⟩
      · exact absurd rfl (full _ member).1
      · have last := bare c (by simp)
        simp [trimEnd, dropEndWhile, last]
    have last : lastBlankWord (front ++ word) = word := lastBlankWord_append bare stop
    have before : dropEndWhile (!isBlank ·) (front ++ word) = front := by
      have parts := dropEndWhile_append_takeWhile (!isBlank ·) (front ++ word)
      rw [← lastBlankWord, last] at parts
      exact List.append_cancel_right parts
    rw [unfolded, ends, last, before, if_pos member]

theorem length_lastQualifier? {p : Text × Text} (found : lastQualifier? t = some p) :
    p.1.length < t.length ∧ p.1 <+: t := by
  obtain ⟨word, back, rfl, named, member, -, -⟩ := lastQualifier?_eq_some_iff.mp found
  have full : ∀ q ∈ joinQualifiers, q ≠ [] := by decide
  have some_ : word ≠ [] := by
    rintro rfl
    exact full _ member named.symm
  have long := List.length_pos_iff.mpr some_
  refine ⟨?_, List.prefix_append _ _⟩
  simp only [List.length_append]
  omega

/-- The fuel is enough once it covers the text. -/
theorem dropQualifiers_fuel {n m : Nat} (enough : t.length ≤ n) (enough' : t.length ≤ m)
    (found : List Text) : dropQualifiers n t found = dropQualifiers m t found := by
  induction n generalizing t m found with
  | zero =>
    obtain rfl : t = [] := List.eq_nil_of_length_eq_zero (by omega)
    cases m <;> rfl
  | succ n ih =>
    cases m with
    | zero =>
      obtain rfl : t = [] := List.eq_nil_of_length_eq_zero (by omega)
      rfl
    | succ m =>
      rw [dropQualifiers, dropQualifiers]
      cases last : lastQualifier? t with
      | none => rfl
      | some p =>
        have shorter := (length_lastQualifier? last).1
        exact ih (by omega) (by omega) (p.2 :: found)

theorem free_of_qualifier {word back : Text} (member : upper word ∈ joinQualifiers)
    (blank : ∀ c ∈ back, isBlank c) : ∀ c ∈ word ++ back, c ≠ '?' ∧ c.isDigit = false := by
  have capital : ∀ q ∈ joinQualifiers, ∀ c ∈ q, isCapital c := by decide
  have letters := isKeywordChar_of_upper (capital _ member) (upper_of_isCapital (capital _ member))
  intro c inBoth
  rcases List.mem_append.mp inBoth with inWord | inBack
  · have letter := letters c inWord
    refine ⟨fun same => ?_, ?_⟩
    · rw [same] at letter
      revert letter
      decide
    rw [Bool.eq_false_iff]
    intro digit
    rw [isKeywordChar, Bool.or_eq_true, beq_iff_eq, isAlpha_iff] at letter
    rw [isDigit_iff] at digit
    rcases letter with far | rfl
    · omega
    · exact absurd digit (by decide)
  · have space := blank c inBack
    refine ⟨?_, ?_⟩
    · rintro rfl
      revert space
      decide
    · rw [Bool.eq_false_iff]
      intro digit
      rw [isBlank_of_isDigit digit] at space
      cases space

theorem stop_numberMarks (issued : Nat) (ms : Marks) :
    (numberMarks issued ms).getLast?.all isBlank = (markText ms).getLast?.all isBlank :=
  getLast?_numberMarks_of (f := (·.all isBlank)) (fun _ digit => isBlank_of_isDigit digit) issued ms

/-- Naming leaves the qualifier at the end of a text where it is. -/
theorem lastQualifier?_named (issued : Nat) (t : Text) :
    lastQualifier? (numbered issued t) = (lastQualifier? t).map fun p => (numbered issued p.1, p.2) := by
  apply Option.ext
  rintro ⟨front, q⟩
  rw [lastQualifier?_eq_some_iff, Option.map_eq_some_iff]
  constructor
  · rintro ⟨word, back, parts, rfl, member, stop, blank⟩
    have free := free_of_qualifier member blank
    obtain ⟨ms₁, ms₂, marks, text, rfl⟩ := suffix_of_numberMarks (fun c inBoth => (free c inBoth).2) parts
    rw [stop_numberMarks] at stop
    have whole : t = markText ms₁ ++ (word ++ back) := by rw [← text, ← markText_append, ← marks, markText_scan]
    have first : scan (markText ms₁) = ms₁ := by
      rw [whole, scan, marks_parted (.inl stop)] at marks
      exact List.append_inj_left marks (by simp [markText])
    refine ⟨(markText ms₁, upper word), lastQualifier?_eq_some_iff.mpr ⟨word, back, whole, rfl, member, stop, blank⟩, ?_⟩
    rw [numbered, first]
  · rintro ⟨⟨before, q'⟩, found, same⟩
    obtain ⟨word, back, rfl, rfl, member, stop, blank⟩ := lastQualifier?_eq_some_iff.mp found
    cases same
    have free := free_of_qualifier member blank
    have stopNamed : (numbered issued before).getLast?.all isBlank := by
      rwa [numbered, stop_numberMarks, markText_scan]
    refine ⟨word, back, ?_, rfl, member, stopNamed, blank⟩
    rw [numbered_parted (.inl stop), numberMarks_of_free fun inBoth => (free _ inBoth).1 rfl]

theorem lastBlankWord_glue (s t : Text) : lastBlankWord (s ++ ' ' :: t) = lastBlankWord t := by
  have space : isBlank ' ' = true := by decide
  have parts : (s ++ ' ' :: t).reverse = t.reverse ++ ' ' :: s.reverse := by simp
  rw [lastBlankWord, parts, takeWhile_append_of_stop (.inl (by simp [space])), lastBlankWord]

theorem trimEnd_pad (t : Text) : trimEnd (t ++ [' ']) = trimEnd t := by
  have space : isBlank ' ' = true := by decide
  simp [trimEnd, dropEndWhile, space]

theorem lastQualifier?_pad (t : Text) : lastQualifier? (t ++ [' ']) = lastQualifier? t := by
  rw [lastQualifier?, lastQualifier?, trimEnd_pad]

theorem lastQualifier?_word {q : Text} (member : q ∈ joinQualifiers)
    (stop : t.getLast?.all isBlank) : lastQualifier? (t ++ (q ++ [' '])) = some (t, q) := by
  have facts : ∀ q ∈ joinQualifiers, q ≠ [] ∧ (∀ c ∈ q, isBlank c = false) ∧ upper q = q ∧ trimEnd q = q := by decide
  obtain ⟨some_, bare, same, -⟩ := facts q member
  have ends : trimEnd (t ++ (q ++ [' '])) = t ++ q := by
    rw [← List.append_assoc, trimEnd_pad]
    obtain ⟨c, rest, last⟩ := List.exists_cons_of_ne_nil (mt List.reverse_eq_nil_iff.mp some_)
    have kept : isBlank c = false := bare c (List.mem_reverse.mp (by rw [last]; simp))
    rw [trimEnd, dropEndWhile, List.reverse_append, last, List.cons_append,
      List.dropWhile_cons_of_neg (by simp [kept]), ← List.cons_append, ← last, ← List.reverse_append,
      List.reverse_reverse]
  have word : lastBlankWord (t ++ q) = q := lastBlankWord_append bare stop
  have rest : ((t ++ q).reverse.dropWhile (!isBlank ·)).reverse = t := by
    have parts := dropEndWhile_append_takeWhile (!isBlank ·) (t ++ q)
    rw [← lastBlankWord, word] at parts
    exact List.append_cancel_right parts
  rw [lastQualifier?, ends, ← lastBlankWord, word, same, if_pos member, rest]

theorem dropQualifiers_lead (qs : List Text) (members : ∀ q ∈ qs, q ∈ joinQualifiers)
    (none : lastQualifier? t = none) (found : List Text) (n : Nat) (fuel : qs.length ≤ n) :
    dropQualifiers n (t ++ ' ' :: qs.flatMap (· ++ [' '])) found = (t ++ [' '], qs ++ found) := by
  induction qs using List.reverseRecOn generalizing found n with
  | nil =>
    have stop : lastQualifier? (t ++ [' ']) = .none := by rwa [lastQualifier?_pad]
    cases n with
    | zero => rfl
    | succ n =>
      rw [List.flatMap_nil, dropQualifiers, stop]
      rfl
  | append_singleton qs q ih =>
    rw [List.length_append, List.length_singleton] at fuel
    obtain ⟨n, rfl⟩ : ∃ m, n = m + 1 := ⟨n - 1, by omega⟩
    have parts : t ++ ' ' :: (qs ++ [q]).flatMap (· ++ [' ']) =
        (t ++ ' ' :: qs.flatMap (· ++ [' '])) ++ (q ++ [' ']) := by simp
    have stop : (t ++ ' ' :: qs.flatMap (· ++ [' '])).getLast?.all isBlank := by
      have blank : isBlank ' ' = true := by decide
      rcases List.eq_nil_or_concat qs with rfl | ⟨qs, p, rfl⟩
      · simp [blank]
      · have back : t ++ ' ' :: (qs.concat p).flatMap (· ++ [' ']) =
          (t ++ ' ' :: (qs.flatMap (· ++ [' ']) ++ p)) ++ [' '] := by
          simp
        rw [back, List.getLast?_concat]
        exact blank
    rw [parts, dropQualifiers, lastQualifier?_word (members q (by simp)) stop]
    dsimp only
    rw [ih (fun p member => members p (by simp [member])) _ _ (by omega)]
    simp

theorem trailingQualifiers_lead (f : JoinForm) (none : lastQualifier? t = none) :
    trailingQualifiers (t ++ ' ' :: f.lead) = (t ++ [' '], f.qualifiers) := by
  have members : ∀ q ∈ f.qualifiers, q ∈ joinQualifiers := by cases f <;> decide
  have short : f.qualifiers.length ≤ f.lead.length := by cases f <;> decide
  have dropped := dropQualifiers_lead f.qualifiers members none [] (t ++ ' ' :: f.lead).length (by simp; omega)
  rw [List.append_nil] at dropped
  exact dropped

end Qualifiers
section Cut

variable {s t u front : Text} {ks : List Keyword}

def joinMarks (t : Text) : List (Char × Option JoinWord) := Cursor.annotate joinWordAt? none (scan t)

theorem joinMarks_eq (t : Text) : joinMarks t =
    (topWords t).map fun p => (p.1, lookUp [.join, .straightJoin] JoinWord.word p.2) :=
  annotate_eq (fun w _ => isKeyword_joinWord w) (fun _ => rfl) none (scan t)

theorem readsWords_join : ReadsWords (lookUp [.join, .straightJoin] JoinWord.word) :=
  readsWords_lookUp fun w _ => isKeyword_joinWord w

theorem joinMarks_glue (solid : Solid s) (u : Text) :
    joinMarks (s ++ ' ' :: u) = joinMarks s ++ (' ', none) :: joinMarks u := by
  rw [joinMarks_eq, joinMarks_eq, joinMarks_eq, solid.topWords_glue, List.map_append, List.map_cons,
    readsWords_join.nil]

def joinStarts : List Keyword := [["JOIN"], ["STRAIGHT_JOIN"]]

theorem joinMarks_lacks (lacks : Lacks joinStarts t) : joinMarks t = t.map (·, none) := by
  have none : ∀ p ∈ topWords t, lookUp [.join, .straightJoin] JoinWord.word p.2 = none := by
    intro p member
    cases found : lookUp [.join, .straightJoin] JoinWord.word p.2 with
    | none => rfl
    | some w =>
      have same : w.word = p.2 := by simpa using List.find?_some found
      have inStarts : [w.word] ∈ joinStarts := by cases w <;> decide
      have stands := (hasKeyword_word (t := t) (isKeyword_joinWord w)).mpr (List.mem_map.mpr ⟨p, member, same.symm⟩)
      rw [lacks _ inStarts] at stands
      cases stands
  rw [joinMarks_eq]
  conv_rhs => rw [← map_fst_topWords t, List.map_map]
  exact List.map_congr_left fun p member => by rw [none p member]; rfl

theorem joinMarks_form (f : JoinForm) : ∃ c w, f.word.word = c :: w ∧
    joinMarks f.text = f.lead.map (·, none) ++ (c, some f.word) :: w.map (·, none) := by
  cases f with
  | straight => exact ⟨'S', "TRAIGHT_JOIN".toList, by decide, by decide +kernel⟩
  | _ => exact ⟨'J', "OIN".toList, by decide, by decide +kernel⟩

theorem solid_form (f : JoinForm) : Solid f.text := by
  apply Solid.plain
  cases f <;> decide

namespace JoinClause

def leadOf : List JoinClause → Text
  | [] => []
  | j :: _ => ' ' :: j.form.lead

def parts : List JoinClause → List (JoinWord × Text)
  | [] => []
  | j :: js => (j.form.word, ' ' :: (j.body ++ leadOf js)) :: parts js

def padOf : List JoinClause → Text
  | [] => []
  | _ :: _ => [' ']

def texts : List JoinClause → List JoinText
  | [] => []
  | j :: js => ⟨j.form.qualifiers, ' ' :: (j.body ++ padOf js)⟩ :: texts js

structure Readable (reserved : ReservedWords) (j : JoinClause) : Prop where
  table : j.table.Named reserved
  condition : ∀ c ∈ j.condition, JoinCondition c

variable {reserved : ReservedWords} {j : JoinClause} {js : List JoinClause}

theorem solid_body (readable : j.Readable reserved) : Solid j.body := by
  have table := (TableText.neat readable.table).solid
  have word : Solid "ON" := Solid.plain (by decide)
  rw [body]
  split
  · exact table
  · rename_i c condition
    exact table.glue (word.glue (readable.condition c condition).item.solid)

theorem lacks_append {v : Text} (single : ∀ k ∈ ks, ∃ w, k = [w]) (areKeywords : ∀ k ∈ ks, IsKeyword k)
    (solid : Solid s) (first : Lacks ks s) (second : Lacks ks v) : Lacks ks (s ++ ' ' :: v) := by
  refine first.append areKeywords solid (loose_space v) (by simp; decide) ?_ (second.space areKeywords)
  intro k member
  obtain ⟨w, rfl⟩ := single k member
  exact not_crosses_word (areKeywords _ member)

theorem lacks_body (readable : j.Readable reserved) : Lacks joinStarts j.body := by
  have table : Lacks joinStarts j.table.text := TableText.lacks readable.table (by decide) (by decide)
  have word : Solid "ON" := Solid.plain (by decide)
  rw [body]
  split
  · exact table
  · rename_i c condition
    have lacks : Lacks joinStarts c := (readable.condition c condition).lacks.mono (by decide)
    have single : ∀ k ∈ joinStarts, ∃ w, k = [w] := by simp [joinStarts]
    exact lacks_append single (by decide) (TableText.neat readable.table).solid table
      (lacks_append single (by decide) word (by decide) lacks)

/-- Where the keywords of joins cut a text that is made of them. -/
theorem cut_joins (readable : ∀ j ∈ js, j.Readable reserved) (solid : Solid front) (lacks : Lacks joinStarts front) :
    cutWords (·.word.length) 0 (joinMarks (front ++ restText js)) = (front ++ leadOf js, parts js) := by
  induction js generalizing front with
  | nil =>
    rw [restText, leadOf, parts, List.append_nil, joinMarks_lacks lacks]
    have whole := cutWords_none (fun w : JoinWord => w.word.length) front []
    rw [List.append_nil, cutWords, List.append_nil] at whole
    exact whole
  | cons j js ih =>
    have here := readable j (by simp)
    have rest := ih (fun k member => readable k (List.mem_cons_of_mem _ member)) (solid_body here) (lacks_body here)
    obtain ⟨c, w, word, marks⟩ := joinMarks_form j.form
    have length : j.form.word.word.length - 1 = w.length := by rw [word]; rfl
    have shape : joinMarks (front ++ restText (j :: js)) =
        (front ++ ' ' :: j.form.lead).map (·, none) ++ (c, some j.form.word) ::
          (w.map (·, none) ++ (' ', none) :: joinMarks (j.body ++ restText js)) := by
      rw [restText, joinMarks_glue solid, joinMarks_lacks lacks, joinMarks_glue (solid_form j.form), marks]
      simp
    have behind : cutWords (·.word.length) 0 ((' ', none) :: joinMarks (j.body ++ restText js)) =
        (' ' :: (j.body ++ leadOf js), parts js) := by
      rw [cutWords, rest]
    rw [shape, cutWords_none, cutWords, length, cutWords_skip, List.drop_left' (by simp), behind, leadOf, parts]
    simp

end JoinClause
end Cut
end QueryChain
