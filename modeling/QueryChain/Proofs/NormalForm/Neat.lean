import QueryChain.Proofs.NormalForm.Region
import QueryChain.Proofs.Keyword.Seam
import QueryChain.Proofs.NormalForm.Settled

namespace QueryChain

structure Strays (t front word more : Text) : Prop where
  text : t = front ++ (word ++ more)
  code : ∃ m, (scan t)[front.length]? = some m ∧ m.isCode
  spells : Spells ["AND", "NULL"] word
  before : front.getLast?.any isWordChar = false
  after : more.head?.any isWordChar = false
  ends : endsCondition (trimStart more)

structure Neat (t : Text) : Prop where
  solid : Solid t
  spaced : Spaced false (scan t)
  last : ∃ c, t.getLast? = some c ∧ isBlank c = false ∧ c ≠ ';'
  quiet : ∀ front word more, ¬Strays t front word more

def conditionEnds : List Keyword := [["GROUP", "BY"], ["HAVING"], ["ORDER", "BY"], ["LIMIT"], ["OFFSET"]]

theorem isKeyword_conditionEnds : ∀ k ∈ conditionEnds, IsKeyword k := by decide

section Strays

variable {k : Keyword} {t s v front word more rest : Text}

theorem StrayNull.strays {i j : Nat} (stray : StrayNull t i j) :
    Strays t (t.take i) (slice i j t) (t.drop j) where
  text := by
    rw [slice_append_drop stray.le stray.bound, List.take_append_drop]
  code := by
    obtain ⟨m, here, code⟩ := stray.code
    have inText := (List.getElem?_eq_some_iff.mp here).1
    rw [length_scan] at inText
    rw [List.length_take, Nat.min_eq_left (by omega)]
    exact ⟨m, here, code⟩
  spells := stray.spells
  before := stray.before
  after := stray.after
  ends := stray.ends

theorem Strays.strayNull (strays : Strays t front word more) :
    StrayNull t front.length (front.length + word.length) := by
  obtain ⟨rfl, code, spells, before, after, ends⟩ := strays
  have behind : (front ++ (word ++ more)).drop (front.length + word.length) = more := by
    rw [← List.drop_drop, List.drop_left, List.drop_left]
  refine ⟨by omega, by simp, code, ?_, ?_, ?_, ?_⟩
  · rw [slice_eq_take_drop, List.drop_left, Nat.add_sub_cancel_left, List.take_left]
    exact spells
  · rwa [List.take_left]
  · rwa [behind]
  · rwa [behind]

theorem startsWithKeyword_left (isKeyword : IsKeyword k) (uncrossed : ¬Crosses k (front ++ rest) v)
    (full : rest ≠ []) (before : front.getLast?.any isWordChar = false)
    (starts : startsWithKeyword k (rest ++ v)) : startsWithKeyword k rest := by
  have startText (t : Text) : (Cursor.start t).text = t := by simp [Cursor.start, Cursor.text_mk]
  simp only [startsWithKeyword, afterKeyword?, Option.isSome_map] at starts ⊢
  obtain ⟨after, found⟩ := Option.isSome_iff_exists.mp starts
  obtain ⟨start, t, r, text, spells, stop, -⟩ := (Cursor.keyword?_eq_some_iff isKeyword).mp found
  rw [startText] at text
  have inside {a : Text} (text : rest = t ++ a) (stop : a.head?.any isWordChar = false) :
      ((Cursor.start rest).keyword? k).isSome :=
    Option.isSome_iff_exists.mpr ⟨_, (Cursor.keyword?_eq_some_iff isKeyword).mpr
      ⟨start, t, a, by rw [startText, text], spells, stop, rfl⟩⟩
  rcases List.append_eq_append_iff.mp text with ⟨a, rfl, behind⟩ | ⟨a, here, rfl⟩
  · by_cases empty : a = []
    · subst empty
      exact inside (a := []) (by simp) rfl
    · exact absurd ⟨front, rest, a, r, rfl, behind, full, empty, spells, before, stop⟩ uncrossed
  · refine inside here ?_
    cases a with
    | nil => rfl
    | cons c a => exact stop

theorem not_startsWithKeyword (isKeyword : IsKeyword k) (stop : t.head?.any isWordChar = false) :
    startsWithKeyword k t = false := by
  rw [startsWithKeyword, afterKeyword?, Option.isSome_map, Option.isSome_eq_false_iff, Option.isNone_iff_eq_none]
  rw [Option.eq_none_iff_forall_ne_some]
  intro after found
  obtain ⟨-, w, r, text, spells, -⟩ := (Cursor.keyword?_eq_some_iff isKeyword).mp found
  obtain ⟨c, first, letter⟩ := spells.head? isKeyword
  obtain ⟨w, rfl⟩ := List.head?_eq_some_iff.mp first
  have startText : (Cursor.start t).text = t := by simp [Cursor.start, Cursor.text_mk]
  rw [startText] at text
  rw [text] at stop
  have letter' : isWordChar c = false := stop
  rw [isWordChar_of_isKeywordChar c letter] at letter'
  cases letter'

theorem endsCondition_left (uncrossed : ∀ k ∈ conditionEnds, ¬Crosses k (front ++ more) v)
    (after : more.head?.any isWordChar = false)
    (ends : endsCondition (trimStart (more ++ v))) : endsCondition (trimStart more) := by
  by_cases blank : trimStart more = []
  · rw [blank]
    rfl
  rw [trimStart_append blank] at ends
  obtain ⟨c, rest, first⟩ := List.exists_cons_of_ne_nil blank
  rw [endsCondition, Bool.or_eq_true, Bool.or_eq_true] at ends ⊢
  rcases ends with (empty | closing) | keyword
  · rw [first] at empty
    cases empty
  · rw [first] at closing ⊢
    exact .inl (.inr closing)
  · right
    obtain ⟨k, member, starts⟩ := List.any_eq_true.mp keyword
    have isKeyword := isKeyword_conditionEnds k member
    have split := List.takeWhile_append_dropWhile (p := isBlank) (l := more)
    refine List.any_eq_true.mpr ⟨k, member, ?_⟩
    cases blanks : more.takeWhile isBlank with
    | nil =>
      rw [blanks, List.nil_append] at split
      rw [trimStart, split] at starts
      have stop : (more ++ v).head?.any isWordChar = false := by
        rw [← split, ← trimStart, first] at after ⊢
        exact after
      rw [not_startsWithKeyword isKeyword stop] at starts
      cases starts
    | cons d ds =>
      have crossed : ¬Crosses k (front ++ more.takeWhile isBlank ++ trimStart more) v := by
        rw [trimStart, List.append_assoc, split]
        exact uncrossed k member
      apply startsWithKeyword_left isKeyword crossed blank ?_ starts
      · have full : more.takeWhile isBlank ≠ [] := by simp [blanks]
        rw [getLast?_append_of_ne_nil full, List.getLast?_eq_some_getLast full]
        exact isWordChar_of_isBlank _ (List.mem_takeWhile_imp (List.getLast_mem full))

/-- Where an `AND NULL` stands in two texts put together: in the first, in the second, or over the seam. -/
theorem Strays.append_cases (strays : Strays (s ++ v) front word more) (solid : Solid s) (loose : Loose v)
    (uncrossed : ∀ k ∈ conditionEnds, ¬Crosses k s v) :
    (∃ more', Strays s front word more') ∨ (∃ front', Strays v front' word more) ∨
      ∃ back rest, s = front ++ back ∧ v = rest ++ more ∧ back ≠ [] ∧ rest ≠ [] ∧ word = back ++ rest := by
  obtain ⟨text, ⟨m, here, code⟩, spells, before, after, ends⟩ := strays
  rw [solid.scan_append loose] at here
  rcases List.append_eq_append_iff.mp text with ⟨a, rfl, rfl⟩ | ⟨a, rfl, behind⟩
  · right; left
    refine ⟨a, rfl, ⟨m, ?_, code⟩, spells, ?_, after, ends⟩
    · rw [List.length_append, List.getElem?_append_right (by rw [length_scan]; omega), length_scan,
        Nat.add_sub_cancel_left] at here
      exact here
    · by_cases empty : a = []
      · rw [empty]
        rfl
      · rwa [getLast?_append_of_ne_nil empty] at before
  · by_cases seam : a = []
    · subst seam
      right; left
      rw [List.append_nil] at here
      refine ⟨[], by simpa using behind.symm, ⟨m, ?_, code⟩, spells, rfl, after, ends⟩
      rw [List.getElem?_append_right (by rw [length_scan]), length_scan, Nat.sub_self] at here
      exact here
    have inFirst : (scan (front ++ a))[front.length]? = some m := by
      rw [List.getElem?_append_left] at here
      · exact here
      · rw [length_scan, List.length_append]
        exact Nat.lt_add_of_pos_right (List.length_pos_iff.mpr seam)
    have inside {e : Text} (parts : a = word ++ e) (rest : more = e ++ v) : ∃ more',
      Strays (front ++ a) front word more' := by
      subst rest
      have stop : e.head?.any isWordChar = false := by
        cases e with
        | nil => rfl
        | cons c e => exact after
      refine ⟨e, by rw [parts], ⟨m, inFirst, code⟩, spells, before, stop, ?_⟩
      have crossed : ∀ k ∈ conditionEnds, ¬Crosses k (front ++ word ++ e) v := by
        rw [List.append_assoc, ← parts]
        exact uncrossed
      exact endsCondition_left crossed stop ends
    rcases List.append_eq_append_iff.mp behind with ⟨e, parts, rest⟩ | ⟨d, rfl, rfl⟩
    · exact .inl (inside parts rest)
    · by_cases empty : d = []
      · subst empty
        exact .inl (inside (e := []) (by simp) rfl)
      · exact .inr (.inr ⟨a, d, rfl, rfl, seam, empty, rfl⟩)

end Strays

def seamKeywords : List Keyword := ["AND", "NULL"] :: conditionEnds

theorem isKeyword_seamKeywords : ∀ k ∈ seamKeywords, IsKeyword k := by decide

def Uncrossed (ks : List Keyword) (s u : Text) : Prop :=
  ∀ k ∈ ks, lastWord s ∉ k.dropLast ∨ firstWord u ∉ k.tail

section Spaced

variable {free : Bool} {ms : Marks}

theorem Spaced.inner (spaced : Spaced free ms) : Spaced free (ms.map Mark.inner) := by
  induction ms generalizing free with
  | nil => trivial
  | cons m ms ih =>
    have same : m.inner.isGap = m.isGap := rfl
    rw [List.map_cons, Spaced, same]
    rw [Spaced] at spaced
    split at spaced
    · rename_i gap
      rw [if_pos gap]
      exact ⟨spaced.1, spaced.2.1, ih spaced.2.2⟩
    · rename_i other
      rw [if_neg other]
      exact ih spaced

theorem Spaced.loosen (spaced : Spaced false ms) (free : Bool) : Spaced free ms := by
  cases ms with
  | nil => trivial
  | cons m ms =>
    rw [Spaced] at spaced ⊢
    split at spaced
    · exact absurd spaced.1 (by decide)
    · rename_i other
      rwa [if_neg other]

end Spaced
namespace Neat

variable {s t u v : Text} {ks : List Keyword}

theorem ne_nil (neat : Neat t) : t ≠ [] := by
  obtain ⟨c, last, -⟩ := neat.last
  rintro rfl
  cases last

theorem head (neat : Neat t) : ∀ c ∈ t.head?, isBlank c = false := head_of_spaced neat.spaced

theorem ends (neat : Neat t) : ∀ c ∈ t.getLast?, isBlank c = false := by
  obtain ⟨c, last, full, -⟩ := neat.last
  intro d ending
  rw [last] at ending
  obtain rfl := Option.some.inj ending
  exact full

theorem trim (neat : Neat t) : trim t = t := trim_eq_self neat.head neat.ends

theorem of_normal (normal : normalize t = t) (balanced : Balanced t) (full : t ≠ []) : Neat t := by
  have isNormal := isNormal_of_normalize normal
  refine ⟨balanced.solid isNormal.commentFree, isNormal.spaced, ?_, ?_⟩
  · have last := List.getLast?_eq_some_getLast full
    obtain ⟨semicolon, blank⟩ := getLast?_of_dropSemicolons isNormal.noSemicolon _ last
    exact ⟨_, last, blank, semicolon⟩
  · intro front word more strays
    exact dropStrayNull?_eq_none isNormal.noStray _ _ strays.strayNull

theorem normal (neat : Neat t) : normalize t = t := by
  obtain ⟨c, last, full, semicolon⟩ := neat.last
  have collapsed : collapse t = t := by
    obtain ⟨back, small, whole⟩ := collapseMarks_of_spaced false false (scan t) (by simp) (by
      have spaced := neat.spaced
      exact spaced)
    rw [← collapse, if_neg (by decide), List.nil_append, markText_scan] at whole
    rcases small with rfl | rfl
    · rwa [List.append_nil] at whole
    · rw [← whole, getLast?_append_of_ne_nil (by simp)] at last
      obtain rfl := Option.some.inj last
      cases full
  have dropped : dropSemicolons t = t := by
    rw [← List.head?_reverse] at last
    obtain ⟨rest, parts⟩ := List.head?_eq_some_iff.mp last
    rw [dropSemicolons, dropEndWhile, parts, List.dropWhile_cons_of_neg (by simp [full, semicolon]), ← parts,
      List.reverse_reverse]
  have kept : dropStrayNull? t = none := by
    rw [Option.eq_none_iff_forall_ne_some]
    intro u found
    obtain ⟨i, j, stray, -⟩ := dropStrayNull?_eq_some found
    exact neat.quiet _ _ _ stray.strays
  rw [normalize, if_pos]
  rw [cleanUp, collapsed, dropped, dropStrayNull, kept]
  rfl

theorem spaced_append {free : Bool} {ms ns : Marks} (first : Spaced free ms) (second : Spaced true ns)
    (full : ms ≠ []) (last : ms.getLast?.any Mark.isGap = false) : Spaced free (ms ++ ns) := by
  induction ms generalizing free with
  | nil => exact absurd rfl full
  | cons m ms ih =>
    rw [List.cons_append, Spaced]
    rw [Spaced] at first
    cases ms with
    | nil =>
      have other : ¬m.isGap := by simpa using last
      rw [if_neg other]
      exact second
    | cons n ms =>
      have later : (n :: ms).getLast?.any Mark.isGap = false := by rwa [List.getLast?_cons_cons] at last
      split at first
      · rename_i gap
        rw [if_pos gap]
        exact ⟨first.1, first.2.1, ih first.2.2 (by simp) later⟩
      · rename_i other
        rw [if_neg other]
        exact ih first (by simp) later

theorem append (first : Neat s) (solid : Solid v) (loose : Loose v) (spaced : Spaced true (scan v))
    (last : ∃ c, v.getLast? = some c ∧ isBlank c = false ∧ c ≠ ';')
    (quiet : ∀ front word more, ¬Strays v front word more)
    (uncrossed : ∀ k ∈ seamKeywords, ¬Crosses k s v) : Neat (s ++ v) where
  solid := first.solid.append solid loose
  spaced := by
    rw [first.solid.scan_append loose]
    apply spaced_append first.spaced spaced
    · intro empty
      have length := congrArg List.length empty
      rw [length_scan] at length
      exact first.ne_nil (List.length_eq_zero_iff.mp length)
    · obtain ⟨c, ending, full, -⟩ := first.last
      obtain ⟨m, lastMark, rfl⟩ := getLast?_scan ending
      have kind := first.solid.commentFree m (List.mem_of_getLast? lastMark)
      rw [lastMark, Option.any_some]
      simp [Mark.isGap, full, kind]
  last := by
    obtain ⟨c, ending, rest⟩ := last
    have full : v ≠ [] := by
      rintro rfl
      cases ending
    exact ⟨c, by rwa [getLast?_append_of_ne_nil full], rest⟩
  quiet := by
    intro front word more strays
    rcases strays.append_cases first.solid loose fun k member => uncrossed k (List.mem_cons_of_mem _ member) with
      ⟨more', inFirst⟩ | ⟨front', inSecond⟩ | ⟨back, rest, parts, behind, full, full', written⟩
    · exact first.quiet _ _ _ inFirst
    · exact quiet _ _ _ inSecond
    · apply uncrossed ["AND", "NULL"] (by simp [seamKeywords])
      have spells := strays.spells
      rw [written] at spells
      exact ⟨front, back, rest, more, parts, behind, full, full', spells, strays.before, strays.after⟩

theorem uncrossed (first : Neat s) (second : Neat u) (areKeywords : ∀ k ∈ ks, IsKeyword k)
    (apart : Uncrossed ks s u) : ∀ k ∈ ks, ¬Crosses k s (' ' :: u) := by
  intro k member
  rcases apart k member with last | start
  · exact not_crosses_of_last (areKeywords k member) first.ends last
  · exact not_crosses_of_first (areKeywords k member) first.ends second.head start

theorem quiet_space (neat : Neat u) : ∀ front word more, ¬Strays (' ' :: u) front word more := by
  rintro front word more ⟨text, ⟨m, here, code⟩, spells, before, after, ends⟩
  cases front with
  | nil =>
    obtain ⟨c, first, letter⟩ := spells.head? isKeyword_andNull
    obtain ⟨word, rfl⟩ := List.head?_eq_some_iff.mp first
    obtain rfl : ' ' = c := (List.cons.inj text).1
    exact absurd letter (by decide)
  | cons c front =>
    obtain ⟨rfl, rest⟩ := List.cons.inj text
    rw [scan_space] at here
    refine neat.quiet front word more ⟨rest, ⟨m, by simpa using here, code⟩, spells, ?_, after, ends⟩
    cases front with
    | nil => rfl
    | cons d front => rwa [List.getLast?_cons_cons] at before

theorem glue (first : Neat s) (second : Neat u) (apart : Uncrossed seamKeywords s u) : Neat (s ++ ' ' :: u) := by
  obtain ⟨c, last, rest⟩ := second.last
  refine first.append (second.solid.cons (by decide)) (loose_space u) ?_ ⟨c, ?_, rest⟩ second.quiet_space
    (first.uncrossed second isKeyword_seamKeywords apart)
  · rw [scan_space, Spaced, if_pos (by rfl)]
    exact ⟨rfl, rfl, second.spaced⟩
  · rw [← List.singleton_append, getLast?_append_of_ne_nil second.ne_nil, last]

theorem quiet_of_no_blank (bare : ∀ c ∈ t, isBlank c = false) : ∀ front word more, ¬Strays t front word more := by
  rintro front word more ⟨text, -, spells, -⟩
  cases spells with
  | @words w v first blanks rest ws letters apart blank later =>
    obtain ⟨c, blanks, rfl⟩ := List.exists_cons_of_ne_nil apart
    have inText : c ∈ t := by rw [text]; simp
    have isBlank := blank c (by simp)
    rw [bare c inText] at isBlank
    cases isBlank

/-- A text of plain characters without blanks. -/
theorem of_plain (plain : ∀ c ∈ t, isPlain c ∧ isBlank c = false ∧ c ≠ ';') (full : t ≠ []) : Neat t where
  solid := Solid.plain fun c member => (plain c member).1
  spaced := by
    have free (free : Bool) : Spaced free (scan t) := by
      clear full
      induction t generalizing free with
      | nil => trivial
      | cons c t ih =>
        obtain ⟨isPlain, bare, -⟩ := plain c (by simp)
        rw [scan_plain isPlain, Spaced, if_neg (by simp [Mark.isGap, bare])]
        exact ih (fun d member => plain d (by simp [member])) true
    exact free false
  last := by
    obtain ⟨-, bare, other⟩ := plain _ (List.getLast_mem full)
    exact ⟨_, List.getLast?_eq_some_getLast full, bare, other⟩
  quiet := quiet_of_no_blank fun c member => (plain c member).2.1

theorem comma (neat : Neat t) : Neat (t ++ [',']) := by
  have comma : scan [','] = [⟨',', 0, .code⟩] := by decide
  refine neat.append (Solid.plain (by decide)) (loose_cons (by decide) (by decide) []) ?_
    ⟨',', rfl, by decide, by decide⟩ (quiet_of_no_blank (by decide)) ?_
  · rw [comma, Spaced, if_neg (by decide)]
    trivial
  · intro k member
    exact not_crosses_stop (isKeyword_seamKeywords k member) (by decide) (by decide)

theorem spaced_group (neat : Neat t) : Spaced false (scan ('(' :: t ++ [')'])) := by
  rw [neat.solid.group.2, List.cons_append, Spaced, if_neg (by decide)]
  apply spaced_append (neat.spaced.loosen true).inner
  · rw [Spaced, if_neg (by decide)]
    trivial
  · intro empty
    have length := congrArg List.length empty
    rw [List.length_map, length_scan] at length
    exact neat.ne_nil (List.length_eq_zero_iff.mp length)
  · obtain ⟨c, ending, full, -⟩ := neat.last
    obtain ⟨m, lastMark, rfl⟩ := getLast?_scan ending
    have kind := neat.solid.commentFree m (List.mem_of_getLast? lastMark)
    rw [List.getLast?_map, lastMark]
    simp [Mark.inner, Mark.isGap, full, kind]

theorem quiet_group (neat : Neat t) : ∀ front word more, ¬Strays ('(' :: t ++ [')']) front word more := by
  have marks := neat.solid.group.2
  have closing : scan [')'] = [⟨')', 0, .code⟩] := by decide
  have loose : Loose [')'] := loose_cons (by decide) (by decide) []
  rintro front word more ⟨text, ⟨m, here, code⟩, spells, before, after, ends⟩
  cases front with
  | nil =>
    obtain ⟨c, first, letter⟩ := spells.head? isKeyword_andNull
    obtain ⟨word, rfl⟩ := List.head?_eq_some_iff.mp first
    obtain rfl : '(' = c := (List.cons.inj text).1
    exact absurd letter (by decide)
  | cons c front =>
    obtain ⟨rfl, rest⟩ := List.cons.inj text
    have before' : front.getLast?.any isWordChar = false := by
      cases front with
      | nil => rfl
      | cons d front => rwa [List.getLast?_cons_cons] at before
    have code' : ∃ m, (scan (t ++ [')']))[front.length]? = some m ∧ m.isCode := by
      rw [marks, List.cons_append, List.length_cons, List.getElem?_cons_succ] at here
      rw [neat.solid.scan_append loose, closing]
      by_cases inside : front.length < t.length
      · rw [List.getElem?_append_left (by simpa using inside), List.getElem?_map, Option.map_eq_some_iff] at here
        obtain ⟨n, at_, rfl⟩ := here
        exact ⟨n, by rwa [List.getElem?_append_left (by simpa using inside)], code⟩
      · rw [List.getElem?_append_right (by simpa using inside), List.length_map] at here
        exact ⟨m, by rwa [List.getElem?_append_right (by simpa using inside)], code⟩
    have inner : Strays (t ++ [')']) front word more := ⟨rest, code', spells, before', after, ends⟩
    rcases inner.append_cases neat.solid loose fun k member =>
        not_crosses_stop (isKeyword_conditionEnds k member) (by decide) (by decide) with
      ⟨more', inFirst⟩ | ⟨front', inSecond⟩ | ⟨back, last, parts, behind, full, full', written⟩
    · exact neat.quiet _ _ _ inFirst
    · exact quiet_of_no_blank (by decide) _ _ _ inSecond
    · apply not_crosses_stop isKeyword_andNull (s := t) (u := []) (c := ')') (by decide) (by decide)
      rw [written] at spells
      exact ⟨front, back, last, more, parts, behind, full, full', spells, before', after⟩

theorem group (neat : Neat t) : Neat ('(' :: t ++ [')']) :=
  ⟨neat.solid.group.1, neat.spaced_group, ⟨')', getLast?_append_of_ne_nil (by simp), by decide, by decide⟩,
    neat.quiet_group⟩

end Neat
section Operand

variable {k : Keyword} {front rest t : Text}

theorem hasKeyword_behind (isKeyword : IsKeyword k) (plain : ∀ c ∈ front, isPlain c)
    (before : front.getLast?.any isWordChar = false) (starts : startsWithKeyword k rest) :
    hasKeyword k (front ++ rest) := by
  rw [startsWithKeyword, afterKeyword?, Option.isSome_map] at starts
  obtain ⟨after, found⟩ := Option.isSome_iff_exists.mp starts
  obtain ⟨-, t, more, text, spells, -⟩ := (Cursor.keyword?_eq_some_iff isKeyword).mp found
  obtain ⟨c, first, letter⟩ := spells.head? isKeyword
  obtain ⟨t, rfl⟩ := List.head?_eq_some_iff.mp first
  rw [show (Cursor.start rest).text = rest by simp [Cursor.start, Cursor.text_mk]] at text
  by_contra missed
  rw [hasKeyword, Bool.not_eq_true, Option.isSome_eq_false_iff, Option.isNone_iff_eq_none] at missed
  have marks : scan (front ++ rest) = front.map (⟨·, 0, .code⟩) ++ scan rest := marks_plain rfl plain rest
  have chars : markText (front.map (⟨·, 0, .code⟩)) = front := by
    rw [markText, List.map_map]
    exact List.map_id _
  have place := Cursor.skip_append none (front.map (⟨·, 0, .code⟩)) (scan rest)
  rw [List.length_map, chars, Option.or_none, ← marks] at place
  have start : scan rest = ⟨c, 0, .code⟩ :: scan (t ++ more) := by
    rw [text, List.cons_append, scan_plain (isPlain_of_isKeywordChar c letter)]
  have none := Cursor.seek_eq_none_iff.mp missed front.length (by
    rw [Cursor.start, marks, List.length_append, List.length_map, start]
    simp)
  rw [Cursor.start, place, Cursor.topKeyword?_none_iff] at none
  have here := none (by rw [start]; rfl) k (by simp)
  have outside : front.getLast?.any isWordChar = (Option.none : Option Char).any isWordChar := before
  rw [Cursor.keyword?_before isKeyword outside] at here
  rw [Cursor.start, here] at found
  cases found

theorem not_solid_closing (plain : ∀ c ∈ front, isPlain c) : ¬Solid (front ++ ')' :: rest) := by
  induction front with
  | nil =>
    intro solid
    cases solid with
    | cons free opened later =>
      exact opened (by simp [ScanState.mark, role_closing, Mark.isCode]) rfl rfl
  | cons c front ih =>
    intro solid
    exact ih (fun d member => plain d (by simp [member])) (solid.of_cons (plain c (by simp)))

theorem neat_and : Neat "AND" := .of_plain (by decide) (by decide)

/-- An `AND NULL` that begins with the `AND` in front of a text: the text begins with its `NULL`. -/
theorem Strays.null_behind {front word more : Text} (strays : Strays ("AND".toList ++ ' ' :: t) front word more)
    (neat : Neat t) : ∃ later, t = later ++ more ∧ Spells ["NULL"] later := by
  have letter : ∀ c ∈ ("AND".toList).getLast?, isBlank c = false := by
    intro c last
    obtain rfl : 'D' = c := Option.some.inj last
    decide
  have apart : ∀ k ∈ conditionEnds, ¬Crosses k "AND" (' ' :: t) := fun k member =>
    not_crosses_of_last (isKeyword_conditionEnds k member) letter (by revert k; decide)
  rcases strays.append_cases neat_and.solid (loose_space t) apart with
    ⟨more', inFirst⟩ | ⟨front', inSecond⟩ | ⟨back, rest, parts, behind, full, full', written⟩
  · exact absurd inFirst (neat_and.quiet _ _ _)
  · exact absurd inSecond (neat.quiet_space _ _ _)
  have spells := strays.spells
  rw [written] at spells
  obtain ⟨d, rest, rfl⟩ := List.exists_cons_of_ne_nil full'
  obtain ⟨rfl, text⟩ := List.cons.inj behind
  have endLetter : ∀ c ∈ back.getLast?, isBlank c = false := by
    rwa [parts, getLast?_append_of_ne_nil full] at letter
  obtain ⟨k₁, k₂, blanks, later, both, full₁, full₂, -, behindBack, blank, spells₂⟩ :=
    spells.cut isKeyword_andNull rfl full endLetter (by simp; decide)
  have second : k₂ = ["NULL".toList] := by
    obtain ⟨w, ws, rfl⟩ := List.exists_cons_of_ne_nil full₁
    obtain ⟨w', ws', rfl⟩ := List.exists_cons_of_ne_nil full₂
    have lengths := congrArg List.length both
    simp only [List.length_cons, List.length_append, List.length_nil] at lengths
    obtain rfl := List.length_eq_zero_iff.mp (show ws.length = 0 by omega)
    obtain rfl := List.length_eq_zero_iff.mp (show ws'.length = 0 by omega)
    simp only [List.cons_append, List.nil_append, List.cons.injEq, and_true] at both
    rw [both.2]
  subst second
  refine ⟨later, ?_, spells₂⟩
  -- one blank stands between the two words, and the text begins with none
  rw [text]
  cases blanks with
  | nil =>
    obtain ⟨e, first, letter⟩ := spells₂.head? (by decide)
    rw [← List.nil_append later, ← behindBack] at first
    obtain rfl := Option.some.inj first
    exact absurd letter (by decide)
  | cons e blanks =>
    obtain ⟨rfl, rfl⟩ := List.cons.inj behindBack
    cases blanks with
    | nil => rfl
    | cons e blanks =>
      have first := neat.head e (by rw [text]; rfl)
      rw [blank e (by simp)] at first
      cases first

theorem Neat.not_endsCondition {later more : Text} (neat : Neat t) (operand : t = later ++ more)
    (plain : ∀ c ∈ later, isPlain c) (other : more ≠ []) (after : more.head?.any isWordChar = false)
    (lacks : ∀ k ∈ conditionEnds, hasKeyword k t = false) : ¬endsCondition (trimStart more) := by
  obtain ⟨c, last, ending⟩ := neat.last
  have split := List.takeWhile_append_dropWhile (p := isBlank) (l := more)
  have restFull : trimStart more ≠ [] := by
    intro empty
    rw [← trimStart, empty, List.append_nil] at split
    rw [operand, getLast?_append_of_ne_nil other] at last
    have member := List.mem_of_getLast? last
    rw [← split] at member
    rw [List.mem_takeWhile_imp member] at ending
    cases ending.1
  have passedPlain : ∀ c ∈ later ++ more.takeWhile isBlank, isPlain c := by
    intro c member
    rcases List.mem_append.mp member with letter | space
    · exact plain c letter
    · exact isPlain_of_isBlank c (List.mem_takeWhile_imp space)
  have passed : t = later ++ more.takeWhile isBlank ++ trimStart more := by
    rw [operand, List.append_assoc, trimStart, split]
  intro ends
  rw [endsCondition, Bool.or_eq_true, Bool.or_eq_true] at ends
  rcases ends with (empty | closing) | keyword
  · exact restFull (by simpa using empty)
  · rw [beq_iff_eq] at closing
    obtain ⟨rest', closed⟩ := List.head?_eq_some_iff.mp closing
    have solid := neat.solid
    rw [passed, closed] at solid
    exact not_solid_closing passedPlain solid
  · obtain ⟨k, member, starts⟩ := List.any_eq_true.mp keyword
    have isKeyword := isKeyword_conditionEnds k member
    have before : (later ++ more.takeWhile isBlank).getLast?.any isWordChar = false := by
      by_cases empty : more.takeWhile isBlank = []
      · rw [empty, List.nil_append] at split
        rw [← split, ← trimStart] at after
        rw [not_startsWithKeyword isKeyword after] at starts
        cases starts
      · rw [getLast?_append_of_ne_nil empty, List.getLast?_eq_some_getLast empty]
        exact isWordChar_of_isBlank _ (List.mem_takeWhile_imp (List.getLast_mem empty))
    have found := hasKeyword_behind isKeyword passedPlain before starts
    rw [← passed, lacks k member] at found
    cases found

/-- An `AND` in front of an operand that is no bare `NULL`. -/
theorem Neat.and_operand (neat : Neat t) (other : upper t ≠ "NULL".toList)
    (lacks : ∀ k ∈ conditionEnds, hasKeyword k t = false) : Neat ("AND".toList ++ ' ' :: t) := by
  obtain ⟨c, last, ending⟩ := neat.last
  refine ⟨neat_and.solid.glue neat.solid, ?_, ⟨c, ?_, ending⟩, ?_⟩
  · rw [neat_and.solid.scan_glue]
    refine spaced_append neat_and.spaced ?_ (by decide) (by decide)
    rw [Spaced, if_pos (by rfl)]
    exact ⟨rfl, rfl, neat.spaced⟩
  · rw [getLast?_append_of_ne_nil (by simp), ← List.singleton_append, getLast?_append_of_ne_nil neat.ne_nil, last]
  intro front word more strays
  obtain ⟨later, operand, spells⟩ := strays.null_behind neat
  have full : more ≠ [] := by
    rintro rfl
    rw [List.append_nil] at operand
    cases spells with
    | word letters => exact other (by rw [operand, ← letters]; decide)
  exact neat.not_endsCondition operand (spells.isPlain (by decide)) full strays.after lacks strays.ends

end Operand
end QueryChain
