import QueryChain.Proofs.Bytes.Joins

namespace QueryChain

section Passed

variable {t front word back : Text} {q : Text} {n b : Nat}

theorem joinQualifier_letters : ∀ q ∈ joinQualifiers, q ≠ [] ∧ ∀ c ∈ q, isCapital c := by decide

theorem isKeyword_joinQualifier (member : q ∈ joinQualifiers) : IsKeyword [q] :=
  ⟨by simp, by simpa using joinQualifier_letters q member⟩

theorem drop_of_slice {c : Char} {u : Text} {p e : Nat} (text : slice p e t = c :: u) : t.drop p = c :: t.drop (p + 1) := by
  have first : (slice p e t).head? = some c := by rw [text, List.head?_cons]
  rw [slice_eq_take_drop, List.head?_take] at first
  split_ifs at first with empty
  rw [List.head?_drop] at first
  obtain ⟨bound, rfl⟩ := List.getElem?_eq_some_iff.mp first
  exact List.drop_eq_getElem_cons bound

/-- Where the last word of a part, and what follows it, stand in the text. -/
theorem slices_of_parts (bound : b ≤ t.length) (parts : t.take b = front ++ (word ++ back)) :
    front.length + word.length ≤ b ∧ slice front.length (front.length + word.length) t = word ∧
      slice (front.length + word.length) b t = back ∧ t.take front.length = front := by
  have size : b = front.length + (word.length + back.length) := by
    have length := congrArg List.length parts
    simpa [Nat.min_eq_left bound] using length
  have whole : slice 0 b t = front ++ word ++ back := by simpa [slice] using parts
  obtain ⟨first, mid, last⟩ := slice_of_append (Nat.zero_le b) bound whole
  rw [Nat.zero_add] at first mid
  rw [show b - back.length = front.length + word.length by omega] at mid last
  exact ⟨by omega, mid, last, by simpa [slice] using first⟩

theorem any_isWordChar_of_all_isBlank {o : Option Char} (blank : o.all isBlank) : o.any isWordChar = false := by
  cases o with
  | none => rfl
  | some c => exact isWordChar_of_isBlank c blank

theorem Stands.starts {k : Keyword} {p e : Nat} (stands : Stands t k p e) (isKeyword : IsKeyword k) :
    (cursorAt t p).startsWith k :=
  Option.isSome_iff_exists.mpr ⟨_, ((keyword?_cursorAt isKeyword (stands.le.trans stands.bound)).mpr ⟨e, stands, rfl⟩).2⟩

theorem Stands.word_unique {v w : Text} {p e e' : Nat} (stands : Stands t [v] p e) (stands' : Stands t [w] p e')
    (isKeyword : IsKeyword [v]) (isKeyword' : IsKeyword [w]) : v = w :=
  ((Cursor.startsWith_word isKeyword).mp (stands.starts isKeyword)).2.symm.trans
    ((Cursor.startsWith_word isKeyword').mp (stands'.starts isKeyword')).2

theorem Stands.end_unique {w : Text} {p e e' : Nat} (stands : Stands t [w] p e) (stands' : Stands t [w] p e') : e = e' := by
  have size := length_of_spells stands.spells
  have size' := length_of_spells stands'.spells
  rw [length_slice stands.bound] at size
  rw [length_slice stands'.bound] at size'
  have le := stands.le
  have le' := stands'.le
  omega

end Passed
section Places

variable {t : Text} {n a : Nat}

def joinPlaces (t : Text) : List (Nat × JoinWord) :=
  (List.range t.length).filterMap fun n => (joinWordAt? (cursorAt t n)).map (n, ·)

theorem joinWordAt?_eq_some_iff {w : JoinWord} (inText : n ≤ t.length) :
    joinWordAt? (cursorAt t n) = some w ↔ ∃ q, Stands t [w.word] n q := by
  constructor
  · intro found
    obtain ⟨-, q, stands, -⟩ := Bytewise.introducerAt?_some inText found
    exact ⟨q, stands⟩
  · rintro ⟨q, stands⟩
    cases found : joinWordAt? (cursorAt t n) with
    | none =>
      rw [joinWordAt?, if_pos stands.top, List.find?_eq_none] at found
      exact absurd (stands.starts (isKeyword_joinWord w)) (found w (by cases w <;> simp))
    | some v =>
      obtain ⟨-, q', stands', -⟩ := Bytewise.introducerAt?_some inText found
      have same : v.word = w.word := stands'.word_unique stands (isKeyword_joinWord v) (isKeyword_joinWord w)
      cases v <;> cases w <;> first | rfl | (revert same; decide)

theorem mem_joinPlaces {w : JoinWord} : (n, w) ∈ joinPlaces t ↔ ∃ q, Stands t [w.word] n q := by
  have here : (n, w) ∈ joinPlaces t ↔ n < t.length ∧ joinWordAt? (cursorAt t n) = some w := by
    simp [joinPlaces, List.mem_filterMap]
  rw [here]
  constructor
  · rintro ⟨bound, found⟩
    exact (joinWordAt?_eq_some_iff bound.le).mp found
  · rintro ⟨q, stands⟩
    have less := stands.lt (isKeyword_joinWord w)
    exact ⟨less.trans_le stands.bound, (joinWordAt?_eq_some_iff (stands.le.trans stands.bound)).mpr ⟨q, stands⟩⟩

def frontEnd (t : Text) (n : Nat) : JoinWord → Nat
  | .join => (trailingQualifiers (t.take n)).1.length
  | .straightJoin => n

def qualifiersAt (t : Text) (n : Nat) : JoinWord → List Text
  | .join => (trailingQualifiers (t.take n)).2
  | .straightJoin => []

inductive JoinedFrom (t : Text) : Nat → List (Nat × JoinWord) → Text → List JoinText → Prop
  | last {a : Nat} : JoinedFrom t a [] (t.drop a) []
  | join {a n q : Nat} {w : JoinWord} {places : List (Nat × JoinWord)} {body : Text} {joins : List JoinText}
      (le : a ≤ frontEnd t n w) (stands : Stands t [w.word] n q) (rest : JoinedFrom t q places body joins) :
      JoinedFrom t a ((n, w) :: places) (slice a (frontEnd t n w) t) (⟨qualifiersAt t n w, body⟩ :: joins)

def placesFrom (t : Text) (n : Nat) : List (Nat × JoinWord) :=
  (List.range' n (t.length - n)).filterMap fun n => (joinWordAt? (cursorAt t n)).map (n, ·)

theorem placesFrom_cons (bound : n < t.length) :
    placesFrom t n = ((joinWordAt? (cursorAt t n)).map (n, ·)).toList ++ placesFrom t (n + 1) := by
  rw [placesFrom, show t.length - n = t.length - (n + 1) + 1 by omega, List.range'_succ, List.filterMap_cons, placesFrom]
  cases joinWordAt? (cursorAt t n) <;> rfl

theorem placesFrom_inside {w : Text} {q i : Nat} (isKeyword : IsKeyword [w]) (stands : Stands t [w] n q)
    (behind : n < i) (inside : i ≤ q) : placesFrom t i = placesFrom t q := by
  have bound := stands.bound
  by_cases last : i = q
  · rw [last]
  · have next := placesFrom_inside isKeyword stands (i := i + 1) (by omega) (by omega)
    have before := before_of_stands isKeyword stands behind inside
    have none : joinWordAt? (cursorAt t i) = none := by
      cases found : joinWordAt? (cursorAt t i) with
      | none => rfl
      | some v =>
        obtain ⟨q', stands'⟩ := (joinWordAt?_eq_some_iff (by omega)).mp found
        rw [stands'.before] at before
        cases before
    rw [placesFrom_cons (by omega), none, next]
    rfl
termination_by q - i

theorem assignQualifiers_front {w : JoinWord} (le : a ≤ n) (inText : n ≤ t.length)
    (fresh : a = 0 ∨ ∃ (w : JoinWord) (p : Nat), Stands t [w.word] p a) (head : Text) (parts : List (JoinWord × Text)) :
    a ≤ frontEnd t n w ∧ assignQualifiers (slice a n t) ((w, head) :: parts) =
      (slice a (frontEnd t n w) t,
        ⟨qualifiersAt t n w, (assignQualifiers head parts).1⟩ :: (assignQualifiers head parts).2) := by
  cases w with
  | join =>
    have start := (prefix_dropQualifiers (t := slice a n t) (slice a n t).length []).trans
      (by rw [slice_eq_take_drop]; exact List.take_prefix _ _ : slice a n t <+: t.drop a)
    have length : (t.take a).length = a := by simp; omega
    have front : (trailingQualifiers (slice a n t)).1 = slice a (frontEnd t n .join) t := by
      have taken (k : Nat) : slice a (a + k) t = (t.drop a).take k := by
        rw [slice_eq_take_drop, Nat.add_sub_cancel_left]
      rw [frontEnd, Bytewise.trailingQualifiers_take le fresh, List.length_append, length, taken, trailingQualifiers]
      exact List.prefix_iff_eq_take.mp start
    refine ⟨?_, ?_⟩
    · rw [frontEnd, Bytewise.trailingQualifiers_take le fresh, List.length_append, length]
      omega
    · rw [assignQualifiers, front, qualifiersAt, Bytewise.trailingQualifiers_take le fresh]
  | straightJoin => exact ⟨le, rfl⟩

theorem joined_from {a n : Nat} (le : a ≤ n) (inText : n ≤ t.length)
    (fresh : a = 0 ∨ ∃ (w : JoinWord) (p : Nat), Stands t [w.word] p a) :
    JoinedFrom t a (placesFrom t n)
      (assignQualifiers (slice a n t ++ (cutWords (·.word.length) 0 ((joinMarks t).drop n)).1)
        (cutWords (·.word.length) 0 ((joinMarks t).drop n)).2).1
      (assignQualifiers (slice a n t ++ (cutWords (·.word.length) 0 ((joinMarks t).drop n)).1)
        (cutWords (·.word.length) 0 ((joinMarks t).drop n)).2).2 := by
  by_cases bound : n < t.length
  · have here : (joinMarks t).drop n = (t[n], joinWordAt? (cursorAt t n)) :: (joinMarks t).drop (n + 1) :=
      annotate_drop joinWordAt? bound
    rw [placesFrom_cons bound, here]
    cases word : joinWordAt? (cursorAt t n) with
    | none =>
      have rest := joined_from (Nat.le_succ_of_le le) bound fresh
      have passed : slice a n t ++ t[n] :: (cutWords (·.word.length) 0 ((joinMarks t).drop (n + 1))).1 =
          slice a (n + 1) t ++ (cutWords (·.word.length) 0 ((joinMarks t).drop (n + 1))).1 := by
        rw [← slice_concat le bound, List.append_assoc]
        rfl
      rw [← passed] at rest
      exact rest
    | some w =>
      obtain ⟨q, stands⟩ := (joinWordAt?_eq_some_iff inText).mp word
      have less := stands.lt (isKeyword_joinWord w)
      have size := length_of_spells stands.spells
      rw [length_slice stands.bound] at size
      have rest := joined_from (Nat.le_refl q) stands.bound (.inr ⟨w, n, stands⟩)
      have skipped : cutWords (·.word.length) (w.word.length - 1) ((joinMarks t).drop (n + 1)) =
          cutWords (·.word.length) 0 ((joinMarks t).drop q) := by
        rw [cutWords_skip, List.drop_drop, show n + 1 + (w.word.length - 1) = q by omega]
      obtain ⟨front, split⟩ := assignQualifiers_front (w := w) le inText fresh
        (cutWords (·.word.length) 0 ((joinMarks t).drop q)).1 (cutWords (·.word.length) 0 ((joinMarks t).drop q)).2
      rw [slice_self, List.nil_append] at rest
      rw [cutWords, List.append_nil, skipped, split, placesFrom_inside (isKeyword_joinWord w) stands
        (Nat.lt_succ_self n) less]
      exact .join front stands rest
  · obtain rfl : n = t.length := by omega
    have length : (joinMarks t).length = t.length := by
      rw [← List.length_map (f := Prod.fst), joinMarks, map_fst_annotate, markText_scan]
    have last : JoinedFrom t a [] (t.drop a) [] := .last
    rw [List.drop_eq_nil_of_le (by omega), placesFrom, Nat.sub_self]
    simpa [cutWords, assignQualifiers, slice_end a (Nat.le_refl t.length)] using last
termination_by t.length - n

theorem joined_cutJoins (t : Text) : JoinedFrom t 0 (joinPlaces t) (cutJoins t).1 (cutJoins t).2 := by
  have joined := joined_from (t := t) (Nat.le_refl 0) (Nat.zero_le _) (.inl rfl)
  rw [slice_self, List.nil_append, List.drop_zero] at joined
  rw [placesFrom, Nat.sub_zero, ← List.range_eq_range'] at joined
  exact joined

end Places
section Introducers

variable {t : Text} {a : Nat} {places : List (Nat × JoinWord)} {front : Text} {joins : List JoinText}
  {found : List Bytewise.Introducer}

/-- An introducer of the join at a place: it starts where the walk back over the qualifiers ends, and the text of
    the join starts behind its keyword. -/
def Introduces (t : Text) (at_ : Nat × JoinWord) (i : Bytewise.Introducer) : Prop :=
  ∃ q, Stands t [at_.2.word] at_.1 q ∧
    i = ⟨place t (frontEnd t at_.1 at_.2), place t q, qualifiersAt t at_.1 at_.2⟩

theorem introducers_from {n : Nat} (inText : n ≤ t.length) : ∃ found,
    Bytewise.introducersFrom? t (spots (place t n) ((scan t).drop n)) = some found ∧
      List.Forall₂ (Introduces t) (placesFrom t n) found := by
  by_cases bound : n < t.length
  · have inScan : n < (scan t).length := by simpa using bound
    have atTop : (cursorAt t n).atTop = (scan t)[n].isTop := by
      rw [Cursor.atTop, marks_cursorAt, List.head?_drop, List.getElem?_eq_getElem inScan]
      rfl
    rw [spots_drop inScan, Bytewise.introducersFrom?, placesFrom_cons bound, ← atTop]
    cases word : joinWordAt? (cursorAt t n) with
    | none =>
      obtain ⟨found, rest, each⟩ := introducers_from bound
      refine ⟨found, ?_, each⟩
      by_cases top : (cursorAt t n).atTop
      · rw [if_pos top, Bytewise.introducerAt?_none inText top word, rest]
        rfl
      · rw [if_neg top, rest]
    | some w =>
      obtain ⟨top, q, stands, introduced⟩ := Bytewise.introducerAt?_some inText word
      have less := stands.lt (isKeyword_joinWord w)
      obtain ⟨found, rest, each⟩ := introducers_from stands.bound
      refine ⟨Bytewise.introducer t n q w :: found, ?_, ?_⟩
      · rw [if_pos top, introduced,
          Bytewise.introducersFrom?_inside (isKeyword_joinWord w) stands (Nat.lt_succ_self n) less, rest]
        rfl
      · rw [placesFrom_inside (isKeyword_joinWord w) stands (Nat.lt_succ_self n) less]
        exact .cons ⟨q, stands, by cases w <;> rfl⟩ each
  · have none : (scan t).drop n = [] := List.drop_eq_nil_of_le (by simp; omega)
    have noPlaces : placesFrom t n = [] := by
      rw [placesFrom, show t.length - n = 0 by omega]
      rfl
    rw [none, noPlaces]
    exact ⟨[], rfl, .nil⟩
termination_by t.length - n

/-- The texts around the joins are cut out where their introducers start and end. -/
theorem JoinedFrom.texts (joined : JoinedFrom t a places front joins) (introduced : List.Forall₂ (Introduces t) places found)
    (bound : a ≤ t.length) : Bytewise.part? t (place t a) (Bytewise.firstStart t found) = some front ∧
      Bytewise.joinTexts? t found = some joins := by
  induction joined generalizing found with
  | last =>
    cases introduced
    refine ⟨?_, rfl⟩
    rw [Bytewise.firstStart, List.head?_nil, Option.map_none, Option.getD_none, ← place_length, Bytewise.part?_place bound,
      slice_end _ (Nat.le_refl _)]
  | @join a n q w places body joins le stands rest ih =>
    obtain ⟨i, found, ⟨q', stands', rfl⟩, later, rfl⟩ := List.forall₂_cons_left_iff.mp introduced
    obtain rfl := stands.end_unique stands'
    obtain ⟨part, texts⟩ := ih later stands.bound
    refine ⟨Bytewise.part?_place le, ?_⟩
    rw [Bytewise.joinTexts?, part, texts]
    rfl

end Introducers
namespace Bytewise

/-- The joins are found where the text is cut at their keywords. -/
theorem introducers?_eq (t : Text) : ∃ found, introducers? t = some found ∧
    List.Forall₂ (Introduces t) (joinPlaces t) found ∧ upTo? t (firstStart t found) = some (cutJoins t).1 ∧
    joinTexts? t found = some (cutJoins t).2 := by
  obtain ⟨found, rest, each⟩ := introducers_from (t := t) (Nat.zero_le _)
  rw [placesFrom, Nat.sub_zero, ← List.range_eq_range'] at each
  rw [place_zero, List.drop_zero] at rest
  obtain ⟨part, bodies⟩ := (joined_cutJoins t).texts each (Nat.zero_le _)
  rw [place_zero, part?_zero] at part
  exact ⟨found, by simp [introducers?, scan?_eq, rest], each, part, bodies⟩

theorem mainTables?_eq (t : Text) : mainTables? t = some (mainTables t) := by
  obtain ⟨found, introduced, -, front, -⟩ := introducers?_eq t
  simp only [mainTables?, introduced, front, Option.bind_eq_bind, Option.bind_some]
  rfl

theorem joinSegments?_eq (t : Text) : joinSegments? t = some (joinSegments t) := by
  obtain ⟨found, introduced, -, -, bodies⟩ := introducers?_eq t
  simp only [joinSegments?, introduced, bodies, Option.bind_eq_bind, Option.bind_some]
  exact mapM_some fun j _ => segment?_eq j

end Bytewise
end QueryChain
