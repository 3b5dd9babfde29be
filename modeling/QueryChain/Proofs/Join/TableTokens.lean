import QueryChain.Proofs.Statement.DerivedTables
import QueryChain.Proofs.Join.Conditions
import QueryChain.Proofs.Join.Qualifiers
import QueryChain.Proofs.Keyword.Lacks

namespace QueryChain

section Parts

variable {s t u : Text} {a f : Nat} {w : Text} {p : Mark → Bool}

/-- A text has a word at its top level just where the word stands. -/
theorem hasKeyword_iff_stands (isKeyword : IsKeyword [w]) : hasKeyword [w] t ↔ ∃ n q, Stands t [w] n q := by
  constructor
  · intro has
    cases found : (Cursor.start t).find? [[w]] with
    | none => simp [hasKeyword, found] at has
    | some answer =>
      rw [← cursorAt_zero] at found
      obtain ⟨n, -, -, -, k, member, q, stands, -⟩ := find?_cursorAt (by simpa using isKeyword) (Nat.zero_le _) found
      obtain rfl := List.mem_singleton.mp member
      exact ⟨n, q, stands⟩
  · rintro ⟨n, q, stands⟩
    by_contra missed
    have none : (cursorAt t 0).find? [[w]] = none := by simpa [hasKeyword] using missed
    exact find?_cursorAt_eq_none (by simpa using isKeyword) none n (Nat.zero_le _)
      ((stands.lt isKeyword).trans_le stands.bound) ⟨[w], by simp, q, stands⟩

/-- A word of a part stands in the text. -/
theorem Piece.stands {n q : Nat} (piece : Piece t a f) (isKeyword : IsKeyword [w]) (stands : Stands (slice a f t) [w] n q) :
    a + n < f ∧ ∃ q, Stands t [w] (a + n) q := by
  have inside := (stands.lt isKeyword).trans_le stands.bound
  rw [length_slice piece.bound] at inside
  have bound := piece.bound
  have here := (topWord_eq_iff isKeyword (stands.le.trans stands.bound)).mpr ⟨q, stands⟩
  rw [topWord_slice piece inside] at here
  exact ⟨by omega, (topWord_eq_iff isKeyword (by omega)).mp here⟩

structure PartOf (t u : Text) : Prop where
  place : ∃ a f, a ≤ f ∧ f ≤ t.length ∧ u = slice a f t
  words : ∀ w, IsKeyword [w] → hasKeyword [w] u → hasKeyword [w] t

theorem Piece.partOf (piece : Piece t a f) : PartOf t (slice a f t) where
  place := ⟨a, f, piece.le, piece.bound, rfl⟩
  words w isKeyword has := by
    obtain ⟨n, q, stands⟩ := (hasKeyword_iff_stands isKeyword).mp has
    obtain ⟨-, q', there⟩ := piece.stands isKeyword stands
    exact (hasKeyword_iff_stands isKeyword).mpr ⟨_, q', there⟩

theorem PartOf.refl (t : Text) : PartOf t t := ⟨⟨0, t.length, Nat.zero_le _, le_refl _, by simp [slice]⟩, fun _ _ => id⟩

theorem PartOf.trans (first : PartOf s t) (second : PartOf t u) : PartOf s u where
  place := by
    obtain ⟨a, f, le, bound, rfl⟩ := first.place
    obtain ⟨i, j, le', bound', rfl⟩ := second.place
    rw [length_slice bound] at bound'
    exact ⟨a + i, a + j, by omega, by omega, slice_slice (by omega)⟩
  words w isKeyword has := first.words w isKeyword (second.words w isKeyword has)

theorem partOf_trim (t : Text) : PartOf t (trim t) := by
  obtain ⟨b, e, piece, trimmed, -⟩ := exists_piece_trim t
  rw [trimmed]
  exact piece.partOf

theorem partOf_splitOnP (sep : Separator p) (blunt : ∀ {m}, p m → isWordChar m.char = false ∧ m.char ≠ '*') (t : Text) :
    ∀ ms ∈ (scan t).splitOnP p, PartOf t (markText ms) := by
  intro ms member
  cases rest : (scan t).dropWhile (!p ·) with
  | nil =>
    have none : ∀ m ∈ scan t, p m = false := by simpa using List.dropWhile_eq_nil_iff.mp rest
    rw [List.splitOnP_eq_singleton none, List.mem_singleton] at member
    rw [member, markText_scan]
    exact .refl t
  | cons m after =>
    obtain ⟨n, text, found, start, front, behind⟩ := first_separator sep rest
    obtain ⟨stop, star⟩ := blunt found
    have inText : n < t.length := by
      by_contra beyond
      rw [List.drop_eq_nil_of_le (by omega)] at text
      cases text
    have first : (t.drop n).head? = some m.char := by rw [text, List.head?_cons]
    have last : (t.take (n + 1)).getLast? = some m.char := by
      rw [List.take_add_one, getLast?_append_of_ne_nil (by simp [inText])]
      rw [List.head?_drop] at first
      simp [first]
    have split := List.takeWhile_append_dropWhile (p := (!p ·)) (l := scan t)
    have bare : ∀ m ∈ (scan t).takeWhile (!p ·), p m = false := fun m member => by
      simpa using List.mem_takeWhile_imp member
    rw [← split, rest, List.splitOnP_append_cons _ _ found, List.splitOnP_eq_singleton bare, front, behind,
      List.singleton_append, List.mem_cons] at member
    rcases member with rfl | later
    · have piece : Piece t 0 n := ⟨Nat.zero_le n, inText.le, stateAt_zero, .inl (by simp), .inr (by rw [first]; exact stop),
        fun d here => by
          obtain rfl : m.char = d := Option.some.inj (first.symm.trans here)
          exact ⟨sep.plain found, star⟩⟩
      rw [markText_take_scan]
      simpa [slice] using piece.partOf
    · have piece : Piece t (n + 1) t.length :=
        ⟨inText, le_refl _, start, .inl (by rw [last]; exact stop), .inr (by simp), by simp⟩
      have behind := piece.partOf
      rw [slice_end _ (le_refl _)] at behind
      exact behind.trans (partOf_splitOnP sep blunt (t.drop (n + 1)) ms later)
termination_by t.length
decreasing_by simp; omega

theorem partOf_token (member : u ∈ tokens t) : PartOf t u := by
  obtain ⟨ms, listed, rfl⟩ := List.mem_map.mp member
  refine partOf_splitOnP separator_blank (fun {m} blank => ?_) t ms (List.mem_filter.mp listed).1
  rw [Mark.isTopBlank, Bool.and_eq_true] at blank
  refine ⟨isWordChar_of_isBlank _ blank.1, fun star => ?_⟩
  rw [star] at blank
  exact absurd blank.1 (by decide)

theorem partOf_splitTop (member : u ∈ splitTop ',' t) : PartOf t u := by
  obtain ⟨ms, piece, rfl⟩ := exists_of_mem_splitTop member
  refine (partOf_splitOnP (IsDelimiter.separator (by decide)) (fun {m} comma => ?_) t ms piece).trans (partOf_trim _)
  obtain ⟨char, -⟩ : m.char = ',' ∧ _ := by simpa [Mark.isTopOf] using comma
  rw [char]
  decide

theorem partOf_upTo {ks : List Keyword} (areKeywords : ∀ k ∈ ks, IsKeyword k) (t : Text) :
    PartOf t ((Cursor.start t).upTo ks) := by
  rw [← cursorAt_zero]
  obtain ⟨e, -, bound, body, -, stop⟩ := upTo_cursorAt areKeywords (Nat.zero_le t.length)
  have piece : Piece t 0 e := by
    rcases stop with rfl | ⟨k, member, q, stands⟩
    · exact ⟨Nat.zero_le _, le_refl _, stateAt_zero, .inl (by simp), .inr (by simp), by simp⟩
    · obtain ⟨c, first, letter⟩ := stands.spells.head? (areKeywords k member)
      obtain ⟨v, shape⟩ := List.head?_eq_some_iff.mp first
      refine .of_letter (Nat.zero_le _) bound stateAt_zero (.inl (by simp)) ?_
        ⟨c, by rw [drop_of_slice shape, List.head?_cons], letter⟩
      rw [← before_eq_getLast? bound]
      exact stands.before
  rw [body]
  exact piece.partOf

theorem hasKeyword_of_token (isKeyword : IsKeyword [w]) (member : u ∈ tokens t) (spelled : upper u = w) :
    hasKeyword [w] t := by
  obtain ⟨full, capitals⟩ := isKeyword.2 w (by simp)
  have letters : ∀ c ∈ u, isKeywordChar c :=
    isKeywordChar_of_upper capitals ((upper_of_isCapital capitals).trans spelled.symm)
  refine (partOf_token member).words w isKeyword ((hasKeyword_word isKeyword).mpr ?_)
  obtain ⟨c, v, rfl⟩ := List.exists_cons_of_ne_nil (l := u) (by rintro rfl; exact full spelled.symm)
  rw [topWords_word fun d inside => ⟨isWordChar_of_isKeywordChar d (letters d inside),
    isPlain_of_isKeywordChar d (letters d inside)⟩, spelled]
  exact List.mem_cons_self

end Parts
section Qualified

variable {t : Text} {b m n : Nat}

structure QualifiedFrom (t : Text) (b n : Nat) : Prop where
  le : b ≤ n
  detached : Detached t b
  words : ∀ w ∈ (slice b n t).splitOnP isBlank, w = [] ∨ upper w ∈ joinQualifiers

theorem exists_last_word (t : Text) (some_ : ∃ c ∈ t, isBlank c = false) : ∃ front word back, t = front ++ (word ++ back) ∧
    word ≠ [] ∧ word ∈ t.splitOnP isBlank ∧ front.getLast?.all isBlank ∧ (∀ c ∈ back, isBlank c) ∧
      ∀ w ∈ front.splitOnP isBlank, w = [] ∨ w ∈ t.splitOnP isBlank := by
  rcases splitOnP_last isBlank t with one | ⟨front, sep, last, rfl, blank, pieces⟩
  · obtain ⟨c, inside, -⟩ := some_
    exact ⟨[], t, [], by simp, List.ne_nil_of_mem inside, by simp [one], by simp, by simp, by simp⟩
  · by_cases empty : last = []
    · subst empty
      have inFront : ∃ c ∈ front, isBlank c = false := by
        obtain ⟨c, inside, full⟩ := some_
        simp only [List.mem_append, List.mem_singleton] at inside
        rcases inside with inFront | rfl
        · exact ⟨c, inFront, full⟩
        · rw [blank] at full
          cases full
      obtain ⟨pre, word, back, rfl, full, listed, stop, blanks, words⟩ := exists_last_word front inFront
      refine ⟨pre, word, back ++ [sep], by simp, full, ?_, stop, ?_, fun w member => ?_⟩
      · rw [pieces]
        exact List.mem_append_left _ listed
      · simpa [or_imp, forall_and] using ⟨blanks, blank⟩
      · rw [pieces]
        exact (words w member).imp_right (List.mem_append_left _)
    · refine ⟨front ++ [sep], last, [], by simp, empty, by simp [pieces], by simpa using blank, by simp, fun w member => ?_⟩
      rw [List.splitOnP_append_cons _ _ blank, List.mem_append] at member
      rw [pieces]
      rcases member with inFront | last
      · exact .inr (List.mem_append_left _ inFront)
      · exact .inl (by simpa using last)
termination_by t.length

/-- The last word of a run of qualifiers is passed. -/
theorem QualifiedFrom.step (run : QualifiedFrom t b m) (bound : m ≤ t.length)
    (some_ : ∃ c ∈ slice b m t, isBlank c = false) :
    ∃ k q, lastQualifier? (t.take m) = some (t.take k, q) ∧ k < m ∧ QualifiedFrom t b k := by
  obtain ⟨front, word, back, parts, full, listed, stop, blanks, words⟩ := exists_last_word _ some_
  have qualifier := (run.words word listed).resolve_left full
  have size := congrArg List.length parts
  have some' := List.length_pos_of_ne_nil full
  rw [length_slice bound, List.length_append, List.length_append] at size
  have le := run.le
  have here : slice b (b + front.length) t = front := by
    have shifted := slice_slice (l := t) (i := 0) (j := front.length) (b := b) (e := m) (by omega)
    rw [parts, Nat.add_zero] at shifted
    rw [← shifted]
    simp [slice]
  have whole : t.take (b + front.length) = t.take b ++ front := by
    rw [← take_append_slice (Nat.le_add_right b front.length), here]
  refine ⟨b + front.length, upper word, ?_, by omega, Nat.le_add_right _ _, run.detached, fun w member => ?_⟩
  · refine lastQualifier?_eq_some_iff.mpr ⟨word, back, ?_, rfl, qualifier, ?_, blanks⟩
    · rw [whole, List.append_assoc, ← parts, take_append_slice le]
    · rw [whole]
      by_cases empty : front = []
      · rw [empty, List.append_nil]
        exact run.detached
      · rwa [getLast?_append_of_ne_nil empty]
  · rw [here] at member
    rcases words w member with empty | inside
    · exact .inl empty
    · exact run.words w inside

theorem QualifiedFrom.passed (fuel : Nat) (found : List Text) (enough : m ≤ fuel) (bound : m ≤ t.length)
    (run : QualifiedFrom t b m) : (dropQualifiers fuel (t.take m) found).1.length ≤ b ∨
      ∀ c ∈ slice b (dropQualifiers fuel (t.take m) found).1.length t, isBlank c := by
  induction fuel generalizing m found with
  | zero =>
    obtain rfl : m = 0 := by omega
    exact .inl (by simp [dropQualifiers])
  | succ fuel ih =>
    by_cases some_ : ∃ c ∈ slice b m t, isBlank c = false
    · obtain ⟨k, q, last, less, shorter⟩ := run.step bound some_
      rw [dropQualifiers, last]
      exact ih (q :: found) (by omega) (by omega) shorter
    · -- only blanks are left, and nothing is put back
      have short := (prefix_dropQualifiers (t := t.take m) (fuel + 1) found).length_le
      rw [List.length_take, Nat.min_eq_left bound] at short
      refine .inr fun c member => ?_
      push Not at some_
      have inside : c ∈ slice b m t := ((List.take_prefix_take_left short).sublist.drop b).subset member
      simpa using some_ c inside

theorem frontEnd_le (t : Text) (n : Nat) (w : JoinWord) : frontEnd t n w ≤ n := by
  cases w with
  | join =>
    have short := (prefix_dropQualifiers (t := t.take n) (t.take n).length []).length_le
    rw [frontEnd, trailingQualifiers]
    exact short.trans (List.length_take_le n t)
  | straightJoin => exact le_refl n

theorem QualifiedFrom.frontEnd (run : QualifiedFrom t b n) (bound : n ≤ t.length) :
    frontEnd t n .join ≤ b ∨ ∀ c ∈ slice b (frontEnd t n .join) t, isBlank c := by
  rw [QueryChain.frontEnd, trailingQualifiers]
  exact run.passed (t.take n).length [] (by simp [bound]) bound

end Qualified
section Places

variable {t u : Text} {a b e : Nat}

/-- No join's keyword stands between two places, and no qualifier of the run in front of one. -/
def ClearOfJoins (t : Text) (a f : Nat) : Prop := ∀ (w : JoinWord) n q, Stands t [w.word] n q →
  q ≤ a ∨ f ≤ n ∧ (w = .join → ∀ b, QualifiedFrom t b n → f ≤ b)

def BetweenJoins (t : Text) (a e : Nat) : Prop := ∀ (w : JoinWord) n q, Stands t [w.word] n q → q ≤ a ∨ e ≤ frontEnd t n w

theorem JoinedFrom.le_frontEnd {places : List (Nat × JoinWord)} {front : Text} {joins : List JoinText}
    (joined : JoinedFrom t a places front joins) : ∀ place ∈ places, a ≤ frontEnd t place.1 place.2 := by
  induction joined with
  | last => simp
  | @join a n q w places body joins le stands rest ih =>
    intro place member
    rcases List.mem_cons.mp member with rfl | later
    · exact le
    · exact (le.trans ((frontEnd_le t n w).trans stands.le)).trans (ih place later)

/-- The text in front of each join is a part that takes nothing of the joins' words. -/
theorem JoinedFrom.pieces {places : List (Nat × JoinWord)} {front : Text} {joins : List JoinText}
    (joined : JoinedFrom t a places front joins) (bound : a ≤ t.length) (state : stateAt t a = {}) (left : Boundary t a) :
    ∀ u ∈ front :: joins.map JoinText.body, ∃ b e, a ≤ b ∧ Piece t b e ∧ u = slice b e t ∧
      ∀ place ∈ places, ∀ q, Stands t [place.2.word] place.1 q → q ≤ b ∨ e ≤ frontEnd t place.1 place.2 := by
  induction joined with
  | @last a =>
    intro u member
    obtain rfl : u = t.drop a := by simpa using member
    exact ⟨a, t.length, le_refl _, ⟨bound, le_refl _, state, left, .inr (by simp), by simp⟩,
      (slice_end a (le_refl _)).symm, by simp⟩
  | @join a n q w places body joins le stands rest ih =>
    have region := frontOf_join stands
    have inText := region.le.trans stands.bound
    intro u member
    rcases List.mem_cons.mp member with rfl | later
    · refine ⟨a, frontEnd t n w, le_refl _, .of_letter le inText state left region.apart region.letter, rfl, ?_⟩
      intro place listed q' _
      rcases List.mem_cons.mp listed with rfl | later
      · exact .inr (le_refl _)
      · exact .inr (region.le.trans (rest.le_frontEnd place later))
    · obtain ⟨b, e, from_, piece, same, between⟩ :=
        ih stands.bound (stands.state_eq_end (isKeyword_joinWord w)) (.inr stands.after) u later
      refine ⟨b, e, (le.trans region.le).trans from_, piece, same, fun place listed q' stands' => ?_⟩
      rcases List.mem_cons.mp listed with rfl | later
      · rw [stands'.end_unique stands]
        exact .inl from_
      · exact between place later q' stands'

theorem exists_between {t u : Text} (member : u ∈ (cutJoins t).1 :: (cutJoins t).2.map JoinText.body) :
    ∃ b e, Piece t b e ∧ u = slice b e t ∧ BetweenJoins t b e := by
  obtain ⟨b, e, -, piece, same, between⟩ :=
    (joined_cutJoins t).pieces (Nat.zero_le _) stateAt_zero (.inl (by simp)) u member
  exact ⟨b, e, piece, same, fun w n q stands => between (n, w) (mem_joinPlaces.mpr ⟨q, stands⟩) q stands⟩

theorem BetweenJoins.lacks (between : BetweenJoins t b e) (piece : Piece t b e) (w : JoinWord) :
    hasKeyword [w.word] (slice b e t) = false := by
  by_contra has
  obtain ⟨n, q, stands⟩ := (hasKeyword_iff_stands (isKeyword_joinWord w)).mp (by simpa using has)
  obtain ⟨less, q', there⟩ := piece.stands (isKeyword_joinWord w) stands
  have longer := there.lt (isKeyword_joinWord w)
  have short := frontEnd_le t (b + n) w
  rcases between w _ q' there with before | behind <;> omega

/-- What does not end in a blank ends in front of the qualifiers, too. -/
theorem BetweenJoins.clear (between : BetweenJoins t b e) (piece : Piece t b e) (part : PartOf (slice b e t) u)
    (trimmed : trim u = u) (full : u ≠ []) : ∃ a f, a ≤ f ∧ f ≤ t.length ∧ u = slice a f t ∧ ClearOfJoins t a f := by
  have first := piece.le
  have bound := piece.bound
  obtain ⟨i, j, le, inside, same⟩ := part.place
  rw [length_slice bound] at inside
  have here : u = slice (b + i) (b + j) t := by rw [same, slice_slice (by omega)]
  have nonempty : i < j := by
    by_contra empty
    obtain rfl : i = j := by omega
    exact full (by rw [here, slice_self])
  refine ⟨b + i, b + j, by omega, by omega, here, fun w n q stands => ?_⟩
  have short := frontEnd_le t n w
  have inText := stands.le.trans stands.bound
  rcases between w n q stands with before | behind
  · exact .inl (by omega)
  · refine .inr ⟨by omega, ?_⟩
    rintro rfl b' run
    rcases run.frontEnd inText with passed | blank
    · omega
    · -- the last character is no blank
      by_contra less
      have last : u.getLast? = some t[b + j - 1] := by
        have parts := slice_concat (i := b + i) (n := b + j - 1) (l := t) (by omega) (by omega)
        rw [show b + j - 1 + 1 = b + j by omega, ← here] at parts
        rw [← parts, List.getLast?_concat]
      have solid : isBlank t[b + j - 1] = false := getLast?_trim (t := u) (by rw [trimmed]; exact last)
      rw [blank _ (mem_slice (i := b + j - 1) (by omega) (by omega) (by omega)
        (List.drop_eq_getElem_cons (by omega)))] at solid
      cases solid

theorem exists_part {t place : Text} (member : place ∈ tablePlaces t) :
    ∃ u ∈ (cutJoins t).1 :: (cutJoins t).2.map JoinText.body, PartOf u place ∧ trim place = place := by
  rcases List.mem_append.mp member with inMain | inJoins
  · exact ⟨_, List.mem_cons_self, (partOf_trim _).trans (partOf_splitTop inMain), trim_of_mem_splitTop inMain⟩
  · obtain ⟨s, listed, rfl⟩ := List.mem_map.mp inJoins
    obtain ⟨j, written, rfl⟩ := List.mem_map.mp listed
    refine ⟨j.body, List.mem_cons_of_mem _ (List.mem_map_of_mem written), ?_, trim_trim _⟩
    exact (partOf_upTo (by decide) j.body).trans (partOf_trim _)

/-- The text of a table reference stands clear of the joins' words, and none of its tokens is one of their keywords. -/
theorem tablePlace_clear {t place : Text} (member : place ∈ tablePlaces t) (full : place ≠ []) :
    (∃ a f, a ≤ f ∧ f ≤ t.length ∧ place = slice a f t ∧ ClearOfJoins t a f) ∧
      ∀ token ∈ tokens place, ∀ w : JoinWord, upper token ≠ w.word := by
  obtain ⟨u, listed, part, trimmed⟩ := exists_part member
  obtain ⟨b, e, piece, rfl, between⟩ := exists_between listed
  refine ⟨between.clear piece part trimmed full, fun token inside w spelled => ?_⟩
  have has := part.words _ (isKeyword_joinWord w) (hasKeyword_of_token (isKeyword_joinWord w) inside spelled)
  rw [between.lacks piece w] at has
  cases has

end Places
section Sources

variable {reserved : ReservedWords} {clause t : Text} {p p' : Progress}

/-- How a table is read from its place; `quiet` says that nothing was noted. -/
def ReadsTable (reserved : ReservedWords) (quiet : Prop) (place : Text) (table : TableRef) : Prop :=
  ∃ f, TableFragment.ofText? reserved place = some f ∧ f.table = table ∧ (quiet → f.trailing = [])

theorem ReadsTable.ne_nil {quiet : Prop} {place : Text} {table : TableRef} (reads : ReadsTable reserved quiet place table) :
    place ≠ [] := by
  rintro rfl
  obtain ⟨f, read, -⟩ := reads
  have none : TableFragment.ofText? reserved [] = none := rfl
  rw [none] at read
  cases read

theorem ReadsTable.weaken {quiet quiet' : Prop} {place : Text} {table : TableRef}
    (reads : ReadsTable reserved quiet place table)
    (imp : quiet' → quiet) : ReadsTable reserved quiet' place table := by
  obtain ⟨f, read, same, clean⟩ := reads
  exact ⟨f, read, same, fun holds => clean (imp holds)⟩

theorem readTables_read {fragments : List Text} {tables : List TableRef}
    (ok : Gives (readTables reserved clause fragments) p tables p') :
    List.Forall₂ (ReadsTable reserved (p'.issues = p.issues)) fragments tables := by
  induction fragments generalizing p tables with
  | nil =>
    rw [readTables] at ok
    obtain ⟨rfl, -⟩ := gives_pure ok
    exact .nil
  | cons fragment fragments ih =>
    rw [readTables] at ok
    obtain ⟨table, p₁, first, ok⟩ := gives_bind ok
    obtain ⟨more, p₂, rest, ok⟩ := gives_bind ok
    obtain ⟨rfl, rfl⟩ := gives_pure ok
    have later := (advance_readTables rest).issues
    obtain ⟨f, issue, read, same, checked, rfl⟩ := readTable_ok first
    have noted : (noteAll issue.toList p).2.issues = p.issues ++ issue.toList := rfl
    rw [noted] at later
    have none : p₂.issues = p.issues → issue = none := fun quiet => by
      have length := later.length_le
      rw [quiet, List.length_append] at length
      cases issue with
      | none => rfl
      | some i => exact absurd length (by simp)
    refine .cons ⟨f, read, same, fun quiet => ?_⟩ ((ih rest).imp fun _ _ reads => reads.weaken fun quiet => ?_)
    · rw [none quiet] at checked
      exact trailing_of_clean checked
    · rw [noted, none quiet, quiet, Option.toList_none, List.append_nil]

theorem resolved_read {ss : List JoinSegment} {pairs : List (Join × Option Issue)}
    (resolved : List.Forall₂ (fun s pair => s.resolve reserved = .ok pair) ss pairs) :
    List.Forall₂ (ReadsTable reserved (pairs.filterMap Prod.snd = [])) (ss.map (·.table)) (pairs.map (·.1.table)) := by
  induction resolved with
  | nil => exact .nil
  | @cons s pair ss pairs first rest ih =>
    obtain ⟨join, issue⟩ := pair
    obtain ⟨-, f, read, checked, same, -⟩ := resolve_ok first
    refine .cons ⟨f, read, same.symm, fun quiet => ?_⟩ (ih.imp fun _ _ reads => reads.weaken fun quiet => ?_)
    · cases issue with
      | none => exact trailing_of_clean checked
      | some i => cases quiet
    · cases issue with
      | none => exact quiet
      | some i => cases quiet

theorem resolveJoins_read {joins : List Join} {issues : List Issue} (ok : resolveJoins reserved t = .ok (joins, issues)) :
    List.Forall₂ (ReadsTable reserved (issues = [])) ((joinSegments t).map (·.table)) (joins.map (·.table)) := by
  rw [resolveJoins] at ok
  cases resolved : (joinSegments t).mapM (·.resolve reserved) with
  | error issue =>
    rw [resolved] at ok
    cases ok
  | ok pairs =>
    rw [resolved] at ok
    obtain ⟨rfl, rfl⟩ := Prod.mk.inj (Except.ok.inj ok)
    rw [List.map_map]
    exact resolved_read (mapM_ok resolved)

end Sources

/-- Each table is read from a text of its own, whose tokens are its name, those of its alias and what trails; where
    nothing was noted nothing trails. No join's keyword and no qualifier in front of one is taken for any of them. -/
theorem table_tokens_accounted :
    (∀ reserved place f, TableFragment.ofText? reserved place = some f →
      ∃ name front alias_, tokens place = name :: front ++ f.trailing ∧ AliasTokens front alias_ ∧
        f.table.table = plainName name ∧ f.table.aliasName = alias_.map plainName ∧
        ∀ name ∈ f.table.aliasName, name ≠ [] ∧ reserved.contains name = false ∧ '(' ∉ name) ∧
    ∀ reserved clause many t p sources p', Gives (readSources reserved clause many t) p sources p' →
      let named := numbered p.issued t
      List.Forall₂ (ReadsTable reserved (p'.issues = p.issues)) (tablePlaces named)
        (sources.table :: sources.extraTables ++ sources.joins.map (·.table)) ∧
      ∀ place ∈ tablePlaces named,
        (∃ a f, a ≤ f ∧ f ≤ named.length ∧ place = slice a f named ∧ ClearOfJoins named a f) ∧
        ∀ token ∈ tokens place, ∀ w : JoinWord, upper token ≠ w.word := by
  refine ⟨fun reserved place f read => ?_, fun reserved clause many t p sources p' ok => ?_⟩
  · obtain ⟨name, front, alias_, parts, isAlias, -, shown, named, accepted⟩ := tokens_of_ofText? read
    exact ⟨name, front, alias_, parts, isAlias, shown, named, accepted⟩
  intro named
  obtain ⟨p₁, issues, -, read, resolved, -, rfl⟩ := readSources_ok ok
  have first := (advance_readTables read).issues
  have noted : (noteAll issues p₁).2.issues = p₁.issues ++ issues := rfl
  have before : (nameParams t p).2.issues = p.issues := rfl
  rw [before] at first
  have quiet : (noteAll issues p₁).2.issues = p.issues → p₁.issues = p.issues ∧ issues = [] := fun same => by
    rw [noted] at same
    have length := congrArg List.length same
    have least := first.length_le
    rw [List.length_append] at length
    have none : issues = [] := List.length_eq_zero_iff.mp (by omega)
    exact ⟨by simpa [none] using same, none⟩
  have reads : List.Forall₂ (ReadsTable reserved ((noteAll issues p₁).2.issues = p.issues)) (tablePlaces named)
      (sources.table :: sources.extraTables ++ sources.joins.map (·.table)) := by
    exact List.rel_append ((readTables_read read).imp fun _ _ reads => reads.weaken fun same => (quiet same).1)
      ((resolveJoins_read resolved).imp fun _ _ reads => reads.weaken fun same => (quiet same).2)
  have full := (List.forall₂_and_left (p := (· ≠ [])) _ _).mp (reads.imp fun _ _ reads => ⟨reads.ne_nil, reads⟩)
  exact ⟨reads, fun place member => tablePlace_clear member (full.1 place member)⟩

def fewReserved : ReservedWords := ⟨["WHERE"], by decide⟩

def namedLikeJoins : Text := "t left JOIN u AS inner"

theorem table_tokens_accounted_namedLikeJoins : ∃ sources p',
    Gives (readSources fewReserved "FROM" false namedLikeJoins) {} sources p' ∧ p'.issues = [] ∧
    (sources.table :: sources.extraTables ++ sources.joins.map (·.table)).map (fun t => (t.table, t.aliasName)) =
      [("t".toList, none), ("u".toList, some "inner".toList)] ∧
    List.Forall₂ (ReadsTable fewReserved True) ["t".toList, "u AS inner".toList]
      (sources.table :: sources.extraTables ++ sources.joins.map (·.table)) ∧
    ∃ a f, "t".toList = slice a f namedLikeJoins ∧ ClearOfJoins namedLikeJoins a f := by
  have ran : @Eq (Except Issue Sources × Progress) ((readSources fewReserved "FROM" false namedLikeJoins).run {})
      (.ok ⟨{ table := "t" }, [], [⟨.left, TableRef.withAlias { table := "u" } "inner", none⟩]⟩,
        ⟨0, [], [(namedLikeJoins, namedLikeJoins)]⟩) := by
    decide +kernel
  have read : Gives (readSources fewReserved "FROM" false namedLikeJoins) {} _ _ := ran
  have named : numbered 0 namedLikeJoins = namedLikeJoins := by decide +kernel
  have places : tablePlaces namedLikeJoins = ["t".toList, "u AS inner".toList] := by decide +kernel
  obtain ⟨reads, clear⟩ := table_tokens_accounted.2 _ _ _ _ _ _ _ read
  rw [named, places] at reads clear
  refine ⟨_, _, read, rfl, rfl, reads.imp fun _ _ reads => reads.weaken fun _ => rfl, ?_⟩
  obtain ⟨a, f, -, -, same, apart⟩ := (clear "t".toList (by simp)).1
  exact ⟨a, f, same, apart⟩

end QueryChain
