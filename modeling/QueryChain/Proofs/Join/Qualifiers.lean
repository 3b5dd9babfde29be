import QueryChain.Proofs.Join.Places
import QueryChain.Proofs.Params.Passing
import QueryChain.Proofs.NormalForm.Settled
import QueryChain.Proofs.Keyword.Tail

namespace QueryChain

section Backwards

variable {t : Text} {p n : Nat}

theorem quoting_stateAt (free : CommentFree t) (inText : n ≤ t.length) : (stateAt t n).Quoting := by
  induction n with
  | zero => exact .inl rfl
  | succ n ih =>
    obtain ⟨c, rest, text⟩ := exists_cons_of_lt inText
    rw [stateAt_succ text]
    exact (ih (by omega)).next (free _ (List.mem_of_getElem? (mark_at text)))

/-- Only a quote's end can leave nothing open behind it, where something was open. -/
theorem ScanState.Quoting.of_next {s : ScanState} {c : Char} {rest : Text} (quoting : s.Quoting) (plain : isPlain c)
    (next : s.next c rest = {}) : s = {} := by
  rcases quoting with code | ⟨q, escaped, quote, isQ⟩
  · rwa [s.next_plain code c rest plain] at next
  · have inside : (s.next c rest).mode ≠ .code := by
      rw [ScanState.next, quote]
      cases escaped with
      | true => simp
      | false =>
        have other : c ≠ q := by
          rintro rfl
          simp [isPlain, isQ] at plain
        dsimp only
        rw [if_neg other]
        split_ifs
        · simp
        · simp [quote]
    exact absurd (by rw [next]) inside

theorem stateAt_back (free : CommentFree t) (le : p ≤ n) (bound : n ≤ t.length) (plain : ∀ c ∈ slice p n t, isPlain c)
    (start : stateAt t n = {}) : stateAt t p = {} := by
  obtain ⟨k, rfl⟩ := Nat.exists_eq_add_of_le le
  induction k with
  | zero => exact start
  | succ k ih =>
    obtain ⟨c, rest, text⟩ := exists_cons_of_lt (show p + k < t.length by omega)
    have inText : p + k < t.length := by omega
    have last : t[p + k] = c := by
      rw [List.drop_eq_getElem_cons inText] at text
      exact (List.cons.inj text).1
    have parts := slice_concat (show p ≤ p + k by omega) inText
    rw [last] at parts
    have state := (quoting_stateAt free (show p + k ≤ t.length by omega)).of_next
      (plain c (by rw [← Nat.add_assoc, ← parts]; simp)) ((stateAt_succ text).symm.trans start)
    refine ih (by omega) (by omega) (fun d member => plain d ?_) state
    rw [← Nat.add_assoc, ← parts]
    exact List.mem_append_left _ member

end Backwards
section Runs

variable {t : Text} {q : Text} {n p e b : Nat} {ws : List Text}

inductive QualifierRun (t : Text) : Nat → Nat → List Text → Prop
  | none {n : Nat} : QualifierRun t n n []
  | word {n p e b : Nat} {q : Text} {ws : List Text} (member : q ∈ joinQualifiers) (stands : Stands t [q] p e)
      (le : e ≤ n) (blank : ∀ c ∈ slice e n t, isBlank c) (before : QualifierRun t p b ws) :
      QualifierRun t n b (ws ++ [q])

/-- The run in front of a place to which no further qualifier can be added. -/
structure LongestRun (t : Text) (n b : Nat) (ws : List Text) : Prop where
  run : QualifierRun t n b ws
  longest : ∀ q ∈ joinQualifiers, ∀ p e, Stands t [q] p e → e ≤ b → ∃ c ∈ slice e b t, isBlank c = false

structure WordStart (t : Text) (n : Nat) : Prop where
  bound : n ≤ t.length
  state : stateAt t n = {}
  apart : (t.take n).getLast?.any isWordChar = false

theorem Stands.wordStart {k : Keyword} (stands : Stands t k p e) (isKeyword : IsKeyword k) : WordStart t p where
  bound := stands.le.trans stands.bound
  state := stands.state_eq isKeyword
  apart := by
    rw [← before_eq_getLast? (stands.le.trans stands.bound)]
    exact stands.before

theorem QualifierRun.wordStart (run : QualifierRun t n b ws) (start : WordStart t n) : WordStart t b := by
  induction run with
  | none => exact start
  | word member stands le blank before ih => exact ih (stands.wordStart (isKeyword_joinQualifier member))

/-- A run is continued in front. -/
theorem QualifierRun.cons (run : QualifierRun t n b ws) (member : q ∈ joinQualifiers) (stands : Stands t [q] p e)
    (le : e ≤ b) (blank : ∀ c ∈ slice e b t, isBlank c) : QualifierRun t n p (q :: ws) := by
  induction run with
  | none => exact .word member stands le blank .none
  | word member' stands' le' blank' before ih => exact .word member' stands' le' blank' (ih le blank)

theorem Stands.spelled (stands : Stands t [q] p e) (member : q ∈ joinQualifiers) : upper (slice p e t) = q := by
  cases stands.spells with
  | word same => exact same.symm.trans (upper_of_isCapital (joinQualifier_letters q member).2)

theorem Stands.qualifier_unique {q' : Text} {p' e' : Nat} (stands : Stands t [q] p e) (stands' : Stands t [q'] p' e')
    (member : q ∈ joinQualifiers) (member' : q' ∈ joinQualifiers) (bound : n ≤ t.length) (le : e ≤ n) (le' : e' ≤ n)
    (blank : ∀ c ∈ slice e n t, isBlank c) (blank' : ∀ c ∈ slice e' n t, isBlank c) : p = p' ∧ q = q' := by
  have ends {q : Text} {p e e' : Nat} (stands : Stands t [q] p e) (member : q ∈ joinQualifiers) (le : e ≤ n)
      (blank' : ∀ c ∈ slice e' n t, isBlank c) : e ≤ e' := by
    by_contra less
    have inside := before_of_stands (isKeyword_joinQualifier member) stands
      (stands.lt (isKeyword_joinQualifier member)) (Nat.le_refl e)
    have full : slice e' e t ≠ [] := by
      rw [← List.length_pos_iff, length_slice (by omega)]
      omega
    have last : (slice e' e t).getLast full ∈ slice e' n t := by
      rw [← slice_append (m := e) (by omega) le bound]
      exact List.mem_append_left _ (List.getLast_mem full)
    rw [before_eq_getLast? (by omega), ← take_append_slice (show e' ≤ e by omega), getLast?_append_of_ne_nil full,
      List.getLast?_eq_some_getLast full, Option.any_some, isWordChar_of_isBlank _ (blank' _ last)] at inside
    cases inside
  have starts {q q' : Text} {p p' e : Nat} (stands : Stands t [q] p e) (member : q ∈ joinQualifiers)
      (stands' : Stands t [q'] p' e) : p' ≤ p := by
    by_contra less
    have inside := before_of_stands (isKeyword_joinQualifier member) stands (by omega) stands'.le
    rw [stands'.before] at inside
    cases inside
  obtain rfl : e = e' := Nat.le_antisymm (ends stands member le blank') (ends stands' member' le' blank)
  obtain rfl : p = p' := Nat.le_antisymm (starts stands' member' stands) (starts stands member stands')
  exact ⟨rfl, (stands.spelled member).symm.trans (stands'.spelled member')⟩

theorem LongestRun.unique {b' : Nat} {ws' : List Text} (longest : LongestRun t n b ws) (longest' : LongestRun t n b' ws')
    (start : WordStart t n) : b = b' ∧ ws = ws' := by
  obtain ⟨run, none⟩ := longest
  obtain ⟨run', none'⟩ := longest'
  have missed {n : Nat} {q : Text} {p e : Nat} (none : ∀ q ∈ joinQualifiers, ∀ p e, Stands t [q] p e → e ≤ n →
      ∃ c ∈ QueryChain.slice e n t, isBlank c = false) (member : q ∈ joinQualifiers) (stands : Stands t [q] p e) (le : e ≤ n)
      (blank : ∀ c ∈ QueryChain.slice e n t, isBlank c) : False := by
    obtain ⟨c, inside, full⟩ := none q member p e stands le
    rw [blank c inside] at full
    cases full
  induction run generalizing b' ws' with
  | none =>
    cases run' with
    | none => exact ⟨rfl, rfl⟩
    | word member stands le blank before => exact (missed none member stands le blank).elim
  | word member stands le blank before ih =>
    cases run' with
    | none => exact (missed none' member stands le blank).elim
    | word member' stands' le' blank' before' =>
      obtain ⟨rfl, rfl⟩ := stands.qualifier_unique stands' member member' start.bound le le' blank blank'
      obtain ⟨rfl, rfl⟩ := ih (stands.wordStart (isKeyword_joinQualifier member)) none before' none'
      exact ⟨rfl, rfl⟩

/-- A qualifier spelled in front of a place where a word may start stands there as a word. -/
theorem stands_qualifier (free : CommentFree t) (start : WordStart t b) {front word back : Text}
    (parts : t.take b = front ++ (word ++ back)) (member : upper word ∈ joinQualifiers)
    (apart : front.getLast?.any isWordChar = false) (blank : ∀ c ∈ back, isBlank c) :
    Stands t [upper word] front.length (front.length + word.length) ∧
      front.length + word.length ≤ b ∧ slice (front.length + word.length) b t = back ∧ t.take front.length = front := by
  obtain ⟨full, capitals⟩ := joinQualifier_letters _ member
  have letters : ∀ c ∈ word, isKeywordChar c := isKeywordChar_of_upper capitals (upper_of_isCapital capitals)
  have bound := start.bound
  obtain ⟨le, mid, last, before⟩ := slices_of_parts bound parts
  have state : stateAt t front.length = {} := by
    refine stateAt_back free (by omega) bound (fun c inside => ?_) start.state
    rw [← slice_append (m := front.length + word.length) (by omega) (by omega) bound, mid, last] at inside
    rcases List.mem_append.mp inside with inWord | inBack
    · exact isPlain_of_isKeywordChar c (letters c inWord)
    · exact isPlain_of_isBlank c (blank c inBack)
  refine ⟨⟨by omega, by omega, ?_, ?_, ?_, ?_⟩, by omega, last, before⟩
  · rw [mid]
    exact .word (upper_of_isCapital capitals)
  · obtain ⟨c, w, rfl⟩ := List.exists_cons_of_ne_nil (l := word) (by rintro rfl; exact full rfl)
    have text : t.drop front.length = c :: t.drop (front.length + 1) := drop_of_slice (by rw [mid])
    rw [Cursor.atTop, marks_cursorAt, List.head?_drop, mark_at text, state,
      ScanState.mark_plain {} rfl c _ (isPlain_of_isKeywordChar c (letters c (by simp)))]
    rfl
  · rw [before_eq_getLast? (by omega), before]
    exact apart
  · cases back with
    | nil =>
      have ends := start.apart
      rw [parts, List.append_nil, getLast?_append_of_ne_nil (by rintro rfl; exact full rfl),
        List.getLast?_eq_some_getLast (by rintro rfl; exact full rfl), Option.any_some,
        isWordChar_of_isKeywordChar _ (letters _ (List.getLast_mem _))] at ends
      cases ends
    | cons c back =>
      rw [drop_of_slice last, List.head?_cons, Option.any_some]
      exact isWordChar_of_isBlank c (blank c (by simp))

/-- Where the qualifiers have been passed from the end, a run stands, and none comes before it with a blank
    in front of it. -/
theorem exists_run (free : CommentFree t) (start : WordStart t n) (fuel : Nat) (enough : b ≤ fuel)
    (run : QualifierRun t n b ws) (detached : (t.take b).getLast?.all isBlank ∨ ws = []) :
    ∃ b' ws', dropQualifiers fuel (t.take b) ws = (t.take b', ws') ∧ QualifierRun t n b' ws' ∧
      ((t.take b').getLast?.all isBlank ∨ ws' = []) ∧ lastQualifier? (t.take b') = none := by
  have here := run.wordStart start
  induction fuel generalizing b ws with
  | zero =>
    obtain rfl : b = 0 := by omega
    exact ⟨0, ws, rfl, run, detached, by simp; decide⟩
  | succ fuel ih =>
    rw [dropQualifiers]
    cases found : lastQualifier? (t.take b) with
    | none => exact ⟨b, ws, rfl, run, detached, found⟩
    | some p =>
      obtain ⟨front, q⟩ := p
      obtain ⟨word, back, parts, rfl, member, stop, blank⟩ := lastQualifier?_eq_some_iff.mp found
      have apart := any_isWordChar_of_all_isBlank stop
      obtain ⟨stands, le, behind, before⟩ := stands_qualifier free here parts member apart blank
      have shorter := stands.lt (isKeyword_joinQualifier member)
      rw [← before] at stop ⊢
      have longer : QualifierRun t n front.length (upper word :: ws) := run.cons member stands le (by rwa [behind])
      exact ih (by omega) longer (.inl stop) (longer.wordStart start)

/-- A run starts the text or stands behind a blank. -/
def Detached (t : Text) (b : Nat) : Prop := (t.take b).getLast?.all isBlank

instance (t : Text) (b : Nat) : Decidable (Detached t b) := inferInstanceAs (Decidable (_ = _))

/-- Of the longest run in front of a place, a first word that something other than a blank touches is left. -/
theorem exists_longestRun (free : CommentFree t) (start : WordStart t n) : ∃ b ws, LongestRun t n b ws ∧
    (trailingQualifiers (t.take n)).2 = (if Detached t b then ws else ws.tail) ∧
    (Detached t b → (trailingQualifiers (t.take n)).1 = t.take b) := by
  have length : (t.take n).length = n := by simpa using start.bound
  obtain ⟨b, ws, passed, run, detached, none⟩ :=
    exists_run free start (t.take n).length (by omega) QualifierRun.none (.inr rfl)
  rw [trailingQualifiers, passed]
  have here := run.wordStart start
  by_cases longest : ∀ q ∈ joinQualifiers, ∀ p e, Stands t [q] p e → e ≤ b → ∃ c ∈ slice e b t, isBlank c = false
  · refine ⟨b, ws, ⟨run, longest⟩, ?_, fun _ => rfl⟩
    rcases detached with blank | rfl
    · exact (if_pos (show Detached t b from blank)).symm
    · simp
  · push Not at longest
    obtain ⟨q, member, p, e, stands, le, blank⟩ := longest
    -- The word in front of the run was not passed, so that no blank is in front of it.
    have attached : ¬Detached t p := by
      intro blankFront
      have found : lastQualifier? (t.take b) = some (t.take p, q) := by
        refine lastQualifier?_eq_some_iff.mpr ⟨slice p e t, slice e b t, ?_, stands.spelled member,
          member, blankFront, fun c inside => ?_⟩
        · rw [← List.append_assoc, take_append_slice stands.le, take_append_slice le]
        · simpa using blank c inside
      rw [none] at found
      cases found
    refine ⟨p, q :: ws, ⟨run.cons member stands le fun c inside => by simpa using blank c inside, ?_⟩, ?_,
      fun blank => absurd blank attached⟩
    · intro q' member' p' e' stands' le'
      by_contra all
      push Not at all
      by_cases touching : e' = p
      · have inside := before_of_stands (isKeyword_joinQualifier member') stands'
          (touching ▸ stands'.lt (isKeyword_joinQualifier member')) (Nat.le_of_eq touching.symm)
        rw [stands.before] at inside
        cases inside
      · have inText := stands.le.trans stands.bound
        have full : slice e' p t ≠ [] := by
          rw [← List.length_pos_iff, length_slice inText]
          omega
        apply attached
        rw [Detached, ← take_append_slice le', getLast?_append_of_ne_nil full, List.getLast?_eq_some_getLast full]
        simpa using all _ (List.getLast_mem full)
    · rw [if_neg attached]
      rfl

end Runs
section Ends

variable {t u : Text} {n a b : Nat} {ws : List Text}

def EndsInQualifier (u : Text) : Prop := ∃ front word back, u = front ++ (word ++ back) ∧ upper word ∈ joinQualifiers ∧
  front.getLast?.any isWordChar = false ∧ ∀ c ∈ back, isBlank c

theorem EndsInQualifier.behind (ends : EndsInQualifier u) {front : Text} (apart : front.getLast?.any isWordChar = false) :
    EndsInQualifier (front ++ u) := by
  obtain ⟨before, word, back, rfl, member, stop, blank⟩ := ends
  refine ⟨front ++ before, word, back, by simp, member, ?_, blank⟩
  by_cases empty : before = []
  · rwa [empty, List.append_nil]
  · rwa [getLast?_append_of_ne_nil empty]

/-- A text that no word touches from the left may have more in front. -/
theorem EndsInQualifier.drop {q : Nat} (ends : EndsInQualifier (t.drop q))
    (apart : (t.drop q).head?.any isWordChar = false) :
    EndsInQualifier t := by
  obtain ⟨before, word, back, text, member, stop, blank⟩ := ends
  obtain ⟨full, capitals⟩ := joinQualifier_letters _ member
  refine ⟨t.take q ++ before, word, back, ?_, member, ?_, blank⟩
  · rw [List.append_assoc, ← text, List.take_append_drop]
  · by_cases empty : before = []
    · obtain ⟨c, w, rfl⟩ := List.exists_cons_of_ne_nil (l := word) (by rintro rfl; exact full rfl)
      have letter := isWordChar_of_letters capitals (upper_of_isCapital capitals) c (by simp)
      rw [text, empty, List.nil_append, List.cons_append, List.head?_cons, Option.any_some, letter] at apart
      cases apart
    · rwa [getLast?_append_of_ne_nil empty]

theorem EndsInQualifier.of_trim (ends : EndsInQualifier (trim u)) : EndsInQualifier u := by
  obtain ⟨front, back, parts, blankFront, blankBack⟩ := trim_spec u
  obtain ⟨before, word, behind, text, member, stop, blank⟩ := ends
  have longer : EndsInQualifier (trim u ++ back) := by
    refine ⟨before, word, behind ++ back, by simp [text], member, stop, fun c inside => ?_⟩
    exact (List.mem_append.mp inside).elim (blank c) (blankBack c)
  rw [parts, List.append_assoc]
  refine longer.behind ?_
  cases last : front.getLast? with
  | none => rfl
  | some c => exact isWordChar_of_isBlank c (blankFront c (List.mem_of_getLast? last))

/-- Nothing in front of a longest run is a qualifier. -/
theorem LongestRun.front (longest : LongestRun t n b ws) (free : CommentFree t) (start : WordStart t n) :
    ¬EndsInQualifier (t.take b) := by
  rintro ⟨front, word, back, parts, member, apart, blank⟩
  obtain ⟨stands, le, behind, -⟩ := stands_qualifier free (longest.run.wordStart start) parts member apart blank
  obtain ⟨c, inside, full⟩ := longest.longest _ member _ _ stands le
  rw [behind] at inside
  rw [blank c inside] at full
  cases full

theorem LongestRun.slice (longest : LongestRun t n b ws) (free : CommentFree t) (start : WordStart t n) (le : a ≤ b)
    (fresh : a = 0 ∨ (t.drop a).head?.any isWordChar = false) : ¬EndsInQualifier (slice a b t) := by
  intro ends
  apply longest.front free start
  rw [QueryChain.slice] at ends
  rcases fresh with rfl | apart
  · exact ends
  · refine ends.drop ?_
    rw [List.head?_drop]
    rw [List.head?_drop] at apart
    cases here : (t.take b)[a]? with
    | none => rfl
    | some c =>
      rw [List.getElem?_take] at here
      split_ifs at here
      rwa [here] at apart

end Ends
section Fragments

variable {t : Text} {j : JoinText}

def JoinSegment.ending? (s : JoinSegment) : Option Text :=
  s.condition.or (if s.usesUsing then none else some s.table)

theorem not_ends_trim (free : ¬EndsInQualifier t) : ¬EndsInQualifier (trim t) := fun ends => free ends.of_trim

theorem not_ends_segment (free : ¬EndsInQualifier j.body) : ∀ piece ∈ j.segment.ending?, ¬EndsInQualifier piece := by
  intro piece member
  rw [JoinSegment.ending?, JoinText.segment] at member
  cases on : (Cursor.start j.body).find? [["ON"]] with
  | some found =>
    obtain ⟨passed, after⟩ := found
    rw [on] at member
    obtain rfl : trim after.text = piece := Option.some.inj member
    rw [← cursorAt_zero] at on
    obtain ⟨p, -, -, -, k, -, q, stands, rfl⟩ := find?_cursorAt (by decide) (Nat.zero_le _) on
    rw [text_cursorAt]
    exact not_ends_trim fun ends => free (ends.drop stands.after)
  | none =>
    rw [on, Option.map_none, Option.none_or] at member
    dsimp only at member
    by_cases using_ : hasKeyword ["USING"] j.body
    · rw [if_pos using_] at member
      cases member
    · rw [if_neg using_] at member
      have lacks : Lacks [["ON"], ["USING"]] j.body := by
        intro k listed
        rcases List.mem_pair.mp listed with rfl | rfl
        · rw [hasKeyword, on]
          rfl
        · simpa using using_
      rw [upTo_lacks lacks] at member
      obtain rfl := Option.some.inj member
      exact not_ends_trim free

def fragmentsInFront (t : Text) : List (Option Text × Nat × JoinWord) :=
  (some (mainTables t) :: (joinSegments t).map (·.ending?)).zip (joinPlaces t)

theorem resolve_kind {reserved : ReservedWords} {s : JoinSegment} {join : Join} {issue : Option Issue}
    (ok : s.resolve reserved = .ok (join, issue)) :
    join.kind = .ofQualifiers s.qualifiers ∧ "NATURAL".toList ∉ s.qualifiers := by
  simp only [JoinSegment.resolve, bind, Except.bind, throw, throwThe, MonadExceptOf.throw, pure,
    Except.pure] at ok
  split_ifs at ok with natural usesUsing derived mixed
  cases read : TableFragment.ofText? reserved s.table with
  | none =>
    rw [read] at ok
    cases ok
  | some f =>
    rw [read] at ok
    cases trailing : f.checkTrailing "JOIN" with
    | error fault =>
      simp only [trailing] at ok
      cases ok
    | ok found =>
      simp only [trailing] at ok
      cases ok
      exact ⟨rfl, by simpa [JoinSegment.isNatural] using natural⟩

theorem resolveJoins_kinds {reserved : ReservedWords} {joins : List Join} {issues : List Issue}
    (ok : resolveJoins reserved t = .ok (joins, issues)) :
    List.Forall₂ (fun s j => j.kind = .ofQualifiers s.qualifiers ∧ "NATURAL".toList ∉ s.qualifiers)
      (joinSegments t) joins := by
  rw [resolveJoins] at ok
  cases resolved : (joinSegments t).mapM (·.resolve reserved) with
  | error issue =>
    rw [resolved] at ok
    cases ok
  | ok pairs =>
    rw [resolved] at ok
    obtain ⟨rfl, -⟩ := Prod.mk.inj (Except.ok.inj ok)
    exact List.forall₂_map_right_iff.mpr ((mapM_ok resolved).imp fun s pair each => resolve_kind each)

/-- The qualifiers read for the keyword at a place: its longest run, but for a first word that is not detached. -/
def ReadsRun (t : Text) (place : Nat × JoinWord) (qualifiers : List Text) : Prop :=
  match place with
  | (_, .straightJoin) => qualifiers = []
  | (n, .join) => (∃ b ws, LongestRun t n b ws) ∧
      ∀ b ws, LongestRun t n b ws → qualifiers = if Detached t b then ws else ws.tail

theorem JoinedFrom.reads {a : Nat} {places : List (Nat × JoinWord)} {front : Text} {joins : List JoinText}
    (joined : JoinedFrom t a places front joins) (free : CommentFree t) :
    List.Forall₂ (fun place j => ReadsRun t place j.qualifiers) places joins := by
  induction joined with
  | last => exact .nil
  | @join a n q w places body joins le stands rest ih =>
    refine .cons ?_ ih
    cases w with
    | join =>
      have start := stands.wordStart (isKeyword_joinWord .join)
      obtain ⟨b, ws, longest, qualifiers, -⟩ := exists_longestRun free start
      refine ⟨⟨b, ws, longest⟩, fun b' ws' longest' => ?_⟩
      obtain ⟨rfl, rfl⟩ := longest.unique longest' start
      exact qualifiers
    | straightJoin => rfl

theorem JoinedFrom.ends {a : Nat} {places : List (Nat × JoinWord)} {front : Text} {joins : List JoinText}
    (joined : JoinedFrom t a places front joins) (free : CommentFree t)
    (fresh : a = 0 ∨ (t.drop a).head?.any isWordChar = false) :
    ∀ f ∈ (front :: joins.map JoinText.body).zip places, f.2.2 = .join →
      (∀ b ws, LongestRun t f.2.1 b ws → Detached t b) → ¬EndsInQualifier f.1 := by
  induction joined with
  | last => simp
  | @join a n q w places body joins le stands rest ih =>
    intro f member isJoin detached
    rcases List.mem_cons.mp member with rfl | later
    · obtain rfl : w = .join := isJoin
      have start := stands.wordStart (isKeyword_joinWord .join)
      obtain ⟨b, ws, longest, -, front⟩ := exists_longestRun free start
      have bound := (longest.run.wordStart start).bound
      have place : frontEnd t n .join = b := by
        rw [frontEnd, front (detached b ws longest), List.length_take, Nat.min_eq_left bound]
      rw [place] at le ⊢
      exact longest.slice free start le fresh
    · exact ih (.inr stands.after) f later isJoin detached

theorem mem_zip_of_forall₂ {α β γ : Type} {R : α → β → Prop} {xs : List α} {ys : List β} {zs : List γ}
    (pairs : List.Forall₂ R xs ys) {f : α × γ} (member : f ∈ xs.zip zs) : ∃ y, R f.1 y ∧ (y, f.2) ∈ ys.zip zs := by
  induction pairs generalizing zs with
  | nil => cases member
  | @cons x y xs ys first rest ih =>
    cases zs with
    | nil => cases member
    | cons z zs =>
      rcases List.mem_cons.mp member with rfl | later
      · exact ⟨y, first, by simp⟩
      · obtain ⟨y', related, there⟩ := ih later
        exact ⟨y', related, List.mem_cons_of_mem _ there⟩

/-- Each join has the words in front of its keyword for its qualifiers, and nothing that is read in front of it
    ends in one, where no character but a blank touches the first of them. -/
theorem join_keeps_qualifiers (free : CommentFree t) :
    (∀ n w, (n, w) ∈ joinPlaces t ↔ ∃ q, Stands t [w.word] n q) ∧
    List.Forall₂ (fun place s => ReadsRun t place s.qualifiers) (joinPlaces t) (joinSegments t) ∧
    (∀ reserved joins issues, resolveJoins reserved t = .ok (joins, issues) →
      List.Forall₂ (fun s j => j.kind = .ofQualifiers s.qualifiers ∧ "NATURAL".toList ∉ s.qualifiers)
        (joinSegments t) joins) ∧
    ∀ f ∈ fragmentsInFront t, f.2.2 = .join → (∀ b ws, LongestRun t f.2.1 b ws → Detached t b) →
      ∀ piece ∈ f.1, ¬EndsInQualifier piece := by
  have joined := joined_cutJoins t
  refine ⟨fun n w => mem_joinPlaces, List.forall₂_map_right_iff.mpr (joined.reads free),
    fun reserved joins issues => resolveJoins_kinds, fun f member isJoin detached => ?_⟩
  have pieces : List.Forall₂ (fun piece u => ¬EndsInQualifier u → ∀ p ∈ piece, ¬EndsInQualifier p)
      (some (mainTables t) :: (joinSegments t).map (·.ending?)) ((cutJoins t).1 :: (cutJoins t).2.map JoinText.body) := by
    refine .cons (fun free p same => ?_) ?_
    · obtain rfl := Option.some.inj same
      exact not_ends_trim free
    · rw [joinSegments, List.map_map, List.forall₂_map_left_iff, List.forall₂_map_right_iff]
      exact List.forall₂_same.mpr fun j _ free => not_ends_segment free
  obtain ⟨u, ending, there⟩ := mem_zip_of_forall₂ pieces member
  exact ending (joined.ends free (.inl rfl) _ there isJoin detached)

def touchedJoins : Text := "t JOIN u ON (t.a = u.a)LEFT JOIN v ON v.b = u.b NATURAL  left JOIN w"

/-- The parenthesis takes the `LEFT` behind it into the condition. -/
theorem join_keeps_qualifiers_touched : CommentFree touchedJoins ∧
    List.Forall₂ (fun place s => ReadsRun touchedJoins place s.qualifiers) [(2, .join), (28, .join), (62, .join)]
      (joinSegments touchedJoins) ∧
    (joinSegments touchedJoins).map (fun s => (s.qualifiers, s.condition)) =
      [([], some "(t.a = u.a)LEFT".toList), ([], some "v.b = u.b".toList), (["NATURAL".toList, "LEFT".toList], none)] ∧
    EndsInQualifier "(t.a = u.a)LEFT" := by
  have chars : touchedJoins = _ := String.toList_ofList
  have free : CommentFree touchedJoins := by
    rw [chars, CommentFree]
    decide +kernel
  have places : joinPlaces touchedJoins = [(2, .join), (28, .join), (62, .join)] := by
    rw [chars]
    decide +kernel
  have read : (joinSegments touchedJoins).map (fun s => (s.qualifiers, s.condition)) =
      [([], some "(t.a = u.a)LEFT".toList), ([], some "v.b = u.b".toList), (["NATURAL".toList, "LEFT".toList], none)] := by
    rw [chars]
    decide +kernel
  refine ⟨free, ?_, read, "(t.a = u.a)".toList, "LEFT".toList, [], by decide, by decide, by decide, by simp⟩
  rw [← places]
  exact (join_keeps_qualifiers free).2.1

end Fragments
end QueryChain
