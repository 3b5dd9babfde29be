import QueryChain.Proofs.Join.Places
import QueryChain.Proofs.Naming.Lists
import QueryChain.Proofs.Params.Passing
import QueryChain.Proofs.NormalForm.Stray
import QueryChain.Proofs.Keyword.Tail

namespace QueryChain

section Pieces

variable {t : Text} {a f n : Nat}

/-- A part of a text that is read as it is in the text: nothing is open at its start, and no word or comment
    goes on over its ends. -/
structure Piece (t : Text) (a f : Nat) : Prop where
  le : a ≤ f
  bound : f ≤ t.length
  state : stateAt t a = {}
  left : Boundary t a
  right : Boundary t f
  ends : ∀ d ∈ (t.drop f).head?, isPlain d ∧ d ≠ '*'

def Mark.lettered (m : Mark) : Char × Bool := (m.char, m.isTop && isWordChar m.char)

theorem wordAt_of_stop (stop : (t.drop n).head?.any isWordChar = false) : wordAt t n = [] := by
  have empty : (t.drop n).takeWhile isWordChar = [] := by
    cases rest : t.drop n with
    | nil => rfl
    | cons c u =>
      rw [rest] at stop
      exact List.takeWhile_cons_of_neg (by simpa using stop)
  rw [wordAt, empty]
  exact ite_self _

theorem Piece.lettered (piece : Piece t a f) (inside : n < f - a) :
    (scan (slice a f t))[n]?.map Mark.lettered = (scan t)[a + n]?.map Mark.lettered := by
  have length := length_slice (b := a) piece.bound
  have whole : (scan t).drop a = ({} : ScanState).marks (slice a f t ++ t.drop f) := by
    rw [slice_append_drop piece.le piece.bound, drop_scan, piece.state]
  have same := view_ended (f := Mark.lettered) (t := slice a f t) (u := t.drop f)
    (fun d k k' => by simp [Mark.lettered, show isWordChar '-' = false by decide]) (loose_of_plain piece.ends) {}
  rw [← whole] at same
  have here := congrArg (·[n]?) same
  simp only [List.getElem?_map, List.getElem?_take, length, if_pos inside, List.getElem?_drop] at here
  exact here

theorem Piece.wordAt_eq (piece : Piece t a f) (inside : n < f - a) : wordAt (slice a f t) n = wordAt t (a + n) := by
  have bound := piece.bound
  have length := length_slice (b := a) bound
  have parts : t.take a ++ slice a f t = t.take f := take_append_slice piece.le
  have full : slice a f t ≠ [] := List.ne_nil_of_length_pos (by omega)
  have right : Divided (slice a f t) (t.drop f) :=
    piece.right.imp_left fun last => by rwa [← parts, getLast?_append_of_ne_nil full] at last
  have left : Divided (t.take a) (slice a f t ++ t.drop f) := by rw [slice_append_drop piece.le bound]; exact piece.left
  have start : (t.take a).length = a := by rw [List.length_take]; omega
  have shifted := wordAt_right left n
  rw [slice_append_drop piece.le bound, List.take_append_drop, start, ← slice_append_drop piece.le bound] at shifted
  rw [shifted, wordAt_left right (by omega)]

theorem topWord_slice (piece : Piece t a f) (inside : n < f - a) :
    (cursorAt (slice a f t) n).topWord = (cursorAt t (a + n)).topWord := by
  have length := length_slice (b := a) piece.bound
  have bound := piece.bound
  have word := piece.wordAt_eq inside
  rw [topWord_cursorAt (by omega), topWord_cursorAt (by omega), word]
  obtain ⟨c, u, there⟩ := exists_cons_of_lt (show a + n < t.length by omega)
  by_cases letter : isWordChar c
  · obtain ⟨c', u', here⟩ := exists_cons_of_lt (show n < (slice a f t).length by omega)
    have same := piece.lettered inside
    rw [mark_at there, mark_at here] at same
    have top : (cursorAt (slice a f t) n).atTop = (cursorAt t (a + n)).atTop := by
      rw [Cursor.atTop, Cursor.atTop, marks_cursorAt, marks_cursorAt, List.head?_drop, List.head?_drop,
        mark_at there, mark_at here]
      obtain ⟨rfl, tops⟩ : c' = c ∧ _ := by simpa [Mark.lettered] using same
      simpa [letter] using tops
    rw [top]
  · rw [wordAt_of_stop (by rw [there]; simpa using letter), ite_self, ite_self]

/-- A part may end where a letter of a word starts another one. -/
theorem Piece.of_letter (le : a ≤ f) (bound : f ≤ t.length) (state : stateAt t a = {}) (left : Boundary t a)
    (apart : (t.take f).getLast?.any isWordChar = false) (letter : ∃ c, (t.drop f).head? = some c ∧ isKeywordChar c) :
    Piece t a f := by
  refine ⟨le, bound, state, left, .inl apart, fun d here => ?_⟩
  obtain ⟨c, first, letter⟩ := letter
  obtain rfl : c = d := Option.some.inj (first.symm.trans here)
  exact ⟨isPlain_of_isKeywordChar c letter, ne_of_isKeywordChar letter (by decide)⟩

/-- What is left of a text without the blanks around it is a part. -/
theorem exists_piece_trim (t : Text) : ∃ b e, Piece t b e ∧ trim t = slice b e t ∧ (∀ c ∈ slice 0 b t, isBlank c) ∧
    ∀ c ∈ slice e t.length t, isBlank c := by
  obtain ⟨b, e, -, le, bound, trimmed, front, back⟩ := trim_slice (Nat.zero_le t.length) (Nat.le_refl _)
  have whole : slice 0 t.length t = t := by simp [slice]
  rw [whole] at trimmed
  have behind : ∀ c ∈ (t.drop e).head?, isBlank c := fun c first => by
    rw [← slice_end e (Nat.le_refl t.length)] at first
    exact back c (List.mem_of_mem_head? first)
  refine ⟨b, e, ⟨le, bound, ?_, .inl ?_, .inr ?_, fun d first => ?_⟩, trimmed, front, back⟩
  · exact stateAt_plain (Nat.zero_le b) (fun c member => isPlain_of_isBlank c (front c member)) stateAt_zero
  · exact any_eq_false fun c last => isWordChar_of_isBlank c (front c (List.mem_of_getLast? last))
  · exact any_eq_false fun c first => isWordChar_of_isBlank c (behind c first)
  · refine ⟨isPlain_of_isBlank d (behind d first), ?_⟩
    rintro rfl
    exact absurd (behind '*' first) (by decide)

end Pieces
section Words

variable {t w : Text} {a b f n : Nat}

/-- The word at a place is one of the top level just where it stands there. -/
theorem topWord_eq_iff (isKeyword : IsKeyword [w]) (inText : n ≤ t.length) :
    (cursorAt t n).topWord = w ↔ ∃ q, Stands t [w] n q := by
  have full : w ≠ [] := (isKeyword.2 w (by simp)).1
  have found : (∃ q, Stands t [w] n q) ↔ (cursorAt t n).atTop ∧ (cursorAt t n).startsWith [w] := by
    constructor
    · rintro ⟨q, stands⟩
      exact ⟨stands.top, stands.starts isKeyword⟩
    · rintro ⟨top, starts⟩
      obtain ⟨after, here⟩ := Option.isSome_iff_exists.mp starts
      obtain ⟨q, stands, -⟩ := (keyword?_cursorAt isKeyword inText).mp ⟨top, here⟩
      exact ⟨q, stands⟩
  rw [found, Cursor.startsWith_word isKeyword, Cursor.topWord]
  by_cases here : (cursorAt t n).atTop && !(cursorAt t n).before.any isWordChar
  · rw [if_pos here]
    simp only [Bool.and_eq_true, Bool.not_eq_true'] at here
    simp [here]
  · rw [if_neg here]
    simp only [Bool.and_eq_true, Bool.not_eq_true'] at here
    have empty : [] ≠ w := full.symm
    simp only [empty, false_iff]
    tauto

def onAt (t : Text) (n : Nat) : Bool := (cursorAt t n).topWord == "ON".toList

def onCount (t : Text) : Nat := (List.range t.length).countP (onAt t)

theorem isKeyword_on : IsKeyword ["ON"] := by decide

theorem onAt_iff (inText : n ≤ t.length) : onAt t n ↔ ∃ q, Stands t ["ON"] n q := by
  rw [onAt, beq_iff_eq]
  exact topWord_eq_iff isKeyword_on inText

def onBetween (t : Text) (a b : Nat) : Nat := (List.range' a (b - a)).countP (onAt t)

theorem onCount_eq_between (t : Text) : onCount t = onBetween t 0 t.length := by
  rw [onBetween, onCount, List.range_eq_range', Nat.sub_zero]

theorem onBetween_add (first : a ≤ b) (second : b ≤ f) : onBetween t a b + onBetween t b f = onBetween t a f := by
  have parts : List.range' a (f - a) = List.range' a (b - a) ++ List.range' b (f - b) := by
    rw [show f - a = (b - a) + (f - b) by omega, ← List.range'_append_1, show a + (b - a) = b by omega]
  rw [onBetween, onBetween, onBetween, parts, List.countP_append]

theorem onBetween_slice (piece : Piece t a f) : onBetween t a f = onCount (slice a f t) := by
  rw [onBetween, onCount, length_slice piece.bound, List.range'_eq_map_range, List.countP_map]
  refine List.countP_congr fun n member => ?_
  rw [Function.comp_apply, onAt, onAt, topWord_slice piece (List.mem_range.mp member)]

theorem onBetween_eq_zero (bound : b ≤ t.length) (none : ∀ i, a ≤ i → i < b → ∀ q, ¬Stands t ["ON"] i q) :
    onBetween t a b = 0 := by
  rw [onBetween, List.countP_eq_zero]
  intro i member on
  obtain ⟨first, last⟩ := List.mem_range'_1.mp member
  obtain ⟨q, stands⟩ := (onAt_iff (by omega)).mp on
  exact none i first (by omega) q stands

theorem mem_slice {α : Type} {l : List α} {a b i : Nat} {x : α} {u : List α} (first : a ≤ i) (last : i < b)
    (bound : b ≤ l.length) (here : l.drop i = x :: u) : x ∈ slice a b l := by
  rw [← slice_append first last.le bound]
  refine List.mem_append_right _ ?_
  rw [slice_eq_take_drop, here, show b - i = b - i - 1 + 1 by omega, List.take_succ_cons]
  exact List.mem_cons_self

theorem not_stands_of_stop (inText : n ≤ t.length) (stop : (t.drop n).head?.any isWordChar = false) {q : Nat} :
    ¬Stands t ["ON"] n q := by
  intro stands
  have on := (onAt_iff inText).mpr ⟨q, stands⟩
  rw [onAt, topWord_cursorAt inText, wordAt_of_stop stop, ite_self] at on
  cases on

theorem onBetween_of_stops (bound : b ≤ t.length) (stops : ∀ c ∈ slice a b t, isWordChar c = false) :
    onBetween t a b = 0 := by
  refine onBetween_eq_zero bound fun i first last q stands => ?_
  obtain ⟨c, u, here⟩ := exists_cons_of_lt (show i < t.length by omega)
  exact not_stands_of_stop (by omega) (by rw [here]; exact stops c (mem_slice first last bound here)) stands

theorem onCount_trim (t : Text) : onCount (trim t) = onCount t := by
  obtain ⟨b, e, piece, trimmed, front, back⟩ := exists_piece_trim t
  have le := piece.le
  have bound := piece.bound
  have blankStops {i j : Nat} (blank : ∀ c ∈ slice i j t, isBlank c) : ∀ c ∈ slice i j t, isWordChar c = false :=
    fun c member => isWordChar_of_isBlank c (blank c member)
  have first := onBetween_of_stops (by omega) (blankStops front)
  have last := onBetween_of_stops (Nat.le_refl _) (blankStops back)
  have split := onBetween_add (t := t) (Nat.zero_le b) (show b ≤ t.length by omega)
  have split' := onBetween_add (t := t) le bound
  rw [trimmed, ← onBetween_slice piece, onCount_eq_between]
  omega

end Words
section Introducers

variable {t : Text} {a b n q : Nat} {w : JoinWord}

structure FrontOf (t : Text) (b n : Nat) : Prop where
  le : b ≤ n
  apart : (t.take b).getLast?.any isWordChar = false
  letter : ∃ c, (t.drop b).head? = some c ∧ isKeywordChar c
  none : ∀ i, b ≤ i → i < n → ∀ q, ¬Stands t ["ON"] i q

/-- A qualifier is passed in front of a place. -/
theorem FrontOf.qualifier (rest : FrontOf t b n) (bound : b ≤ t.length) {front : Text} {qualifier : Text}
    (found : lastQualifier? (t.take b) = some (front, qualifier)) :
    FrontOf t front.length n ∧ t.take front.length = front := by
  obtain ⟨word, back, parts, rfl, member, stop, blank⟩ := lastQualifier?_eq_some_iff.mp found
  obtain ⟨full, capitals⟩ := joinQualifier_letters _ member
  have letters : ∀ c ∈ word, isKeywordChar c := isKeywordChar_of_upper capitals (upper_of_isCapital capitals)
  obtain ⟨le, mid, last, before⟩ := slices_of_parts bound parts
  obtain ⟨c, w, rfl⟩ := List.exists_cons_of_ne_nil (l := word) (by rintro rfl; exact full rfl)
  refine ⟨⟨by have := rest.le; omega, ?_, ⟨c, ?_, letters c (by simp)⟩, ?_⟩, before⟩
  · rw [before]
    exact any_isWordChar_of_all_isBlank stop
  · rw [drop_of_slice mid, List.head?_cons]
  · intro i first below j stands
    have within {k : Nat} (first : front.length ≤ k) (last : k < front.length + (c :: w).length) :
        ∃ d, (t.drop k).head? = some d ∧ isWordChar d := by
      obtain ⟨d, u, here⟩ := exists_cons_of_lt (show k < t.length by omega)
      refine ⟨d, by rw [here, List.head?_cons], isWordChar_of_isKeywordChar d (letters d ?_)⟩
      rw [← mid]
      exact mem_slice first last (by omega) here
    by_cases inWord : i < front.length + (c :: w).length
    · rcases Nat.eq_or_lt_of_le first with rfl | later
      · -- the word is longer than `ON`
        have long : 4 ≤ (upper (c :: w)).length := by
          have all : ∀ q ∈ joinQualifiers, 4 ≤ q.length := by decide
          exact all _ member
        have size := length_of_spells stands.spells
        rw [length_slice stands.bound] at size
        have stop := stands.after
        have two : ("ON".toList).length = 2 := rfl
        rw [two] at size
        have less := stands.le
        rw [upper, List.length_map] at long
        obtain ⟨d, here, letter⟩ := within (k := j) (by omega) (by omega)
        rw [here, Option.any_some, letter] at stop
        cases stop
      · obtain ⟨k, rfl⟩ := Nat.exists_eq_add_of_lt later
        obtain ⟨d, here, letter⟩ := within (k := front.length + k) (by omega) (by omega)
        rw [List.head?_drop] at here
        obtain ⟨_, rfl⟩ := List.getElem?_eq_some_iff.mp here
        have inside := stands.before
        rw [before_cursorAt (by omega), Option.any_some, letter] at inside
        cases inside
    · by_cases inBack : i < b
      · obtain ⟨d, u, here⟩ := exists_cons_of_lt (show i < t.length by omega)
        have inside : d ∈ back := by
          rw [← last]
          exact mem_slice (by omega) inBack bound here
        refine not_stands_of_stop (by omega) ?_ stands
        rw [here]
        exact isWordChar_of_isBlank d (blank d inside)
      · exact rest.none i (by omega) below j stands

theorem dropQualifiers_front (fuel : Nat) (found : List Text) (bound : b ≤ t.length) (rest : FrontOf t b n) :
    ∃ b', (dropQualifiers fuel (t.take b) found).1 = t.take b' ∧ FrontOf t b' n := by
  induction fuel generalizing b found with
  | zero => exact ⟨b, rfl, rest⟩
  | succ fuel ih =>
    rw [dropQualifiers]
    cases last : lastQualifier? (t.take b) with
    | none => exact ⟨b, rfl, rest⟩
    | some p =>
      obtain ⟨front, qualifier⟩ := p
      obtain ⟨longer, before⟩ := rest.qualifier bound last
      have shorter := (length_lastQualifier? last).1
      rw [List.length_take, Nat.min_eq_left bound] at shorter
      dsimp only at shorter ⊢
      rw [← before]
      exact ih (qualifier :: found) (by omega) longer

theorem frontOf_join (stands : Stands t [w.word] n q) : FrontOf t (frontEnd t n w) q := by
  have keyword : FrontOf t n q := by
    obtain ⟨c, first, letter⟩ := stands.spells.head? (isKeyword_joinWord w)
    obtain ⟨u, shape⟩ := List.head?_eq_some_iff.mp first
    refine ⟨stands.le, ?_, ⟨c, by rw [drop_of_slice shape, List.head?_cons], letter⟩, fun i from_ below j on => ?_⟩
    · rw [← before_eq_getLast? (stands.le.trans stands.bound)]
      exact stands.before
    · rcases Nat.eq_or_lt_of_le from_ with rfl | later
      · have same := stands.word_unique on (isKeyword_joinWord w) isKeyword_on
        cases w <;> revert same <;> decide
      · have inside := before_of_stands (isKeyword_joinWord w) stands later below.le
        rw [on.before] at inside
        cases inside
  cases w with
  | straightJoin => exact keyword
  | join =>
    have inText := stands.le.trans stands.bound
    obtain ⟨b, front, region⟩ := dropQualifiers_front (t.take n).length [] inText keyword
    have place : frontEnd t n .join = b := by
      rw [frontEnd, trailingQualifiers, front, List.length_take, Nat.min_eq_left (region.le.trans stands.bound)]
    rwa [place]

end Introducers
section Counts

variable {t : Text} {a : Nat}

theorem onBetween_joined {places : List (Nat × JoinWord)} {front : Text} {joins : List JoinText}
    (joined : JoinedFrom t a places front joins) (bound : a ≤ t.length) (state : stateAt t a = {}) (left : Boundary t a) :
    onBetween t a t.length = onCount front + (joins.map (onCount ·.body)).sum := by
  induction joined with
  | @last a =>
    have piece : Piece t a t.length := ⟨bound, le_refl _, state, left, .inr (by simp), by simp⟩
    rw [onBetween_slice piece, slice_end a (le_refl _)]
    simp
  | @join a n q w places body joins le stands rest ih =>
    have region := frontOf_join stands
    have inText := region.le.trans stands.bound
    have piece : Piece t a (frontEnd t n w) := .of_letter le inText state left region.apart region.letter
    have last := ih stands.bound (stands.state_eq_end (isKeyword_joinWord w)) (.inr stands.after)
    have split := onBetween_add (t := t) le (inText)
    have split' := onBetween_add (t := t) region.le stands.bound
    have none := onBetween_eq_zero stands.bound region.none
    rw [List.map_cons, List.sum_cons, ← onBetween_slice piece]
    dsimp only
    omega

theorem onCount_cutJoins (t : Text) : onCount t = onCount (cutJoins t).1 + ((cutJoins t).2.map (onCount ·.body)).sum := by
  rw [onCount_eq_between]
  exact onBetween_joined (joined_cutJoins t) (Nat.zero_le _) stateAt_zero (.inl rfl)

/-- The words `ON` of a join: the one in front of its condition and those in it. -/
def JoinSegment.onWords (s : JoinSegment) : Nat := s.condition.elim 0 (1 + onCount ·)

theorem onCount_body (j : JoinText) : onCount j.body = j.segment.onWords := by
  rw [onCount_eq_between, JoinSegment.onWords, JoinText.segment]
  dsimp only
  cases on : (Cursor.start j.body).find? [["ON"]] with
  | none =>
    rw [← cursorAt_zero] at on
    have missed := find?_cursorAt_eq_none (by decide) on
    exact onBetween_eq_zero (le_refl _) fun i first below q stands =>
      missed i first below ⟨_, List.mem_singleton_self _, q, stands⟩
  | some found =>
    obtain ⟨passed, after⟩ := found
    rw [← cursorAt_zero] at on
    obtain ⟨p, -, -, missed, k, member, q, stands, rfl⟩ := find?_cursorAt (by decide) (Nat.zero_le _) on
    obtain rfl := List.mem_singleton.mp member
    have less := stands.lt isKeyword_on
    have bound := stands.bound
    have front := onBetween_eq_zero (t := j.body) (a := 0) (b := p) (by omega) fun i first below q' on =>
      missed i first below ⟨_, List.mem_singleton_self _, q', on⟩
    have here : onBetween j.body p (p + 1) = 1 := by
      rw [onBetween, Nat.add_sub_cancel_left, List.range'_one, List.countP_singleton,
        if_pos ((onAt_iff (by omega)).mpr ⟨q, stands⟩)]
    have inside := onBetween_eq_zero (t := j.body) (a := p + 1) (b := q) bound fun i first below q' on => by
      have before := before_of_stands isKeyword_on stands first below.le
      rw [on.before] at before
      cases before
    have piece : Piece j.body q j.body.length :=
      ⟨bound, le_refl _, stands.state_eq_end isKeyword_on, .inr stands.after, .inr (by simp), by simp⟩
    have behind := onBetween_slice piece
    rw [slice_end q (le_refl _)] at behind
    have first := onBetween_add (t := j.body) (Nat.zero_le p) (show p ≤ j.body.length by omega)
    have second := onBetween_add (t := j.body) (Nat.le_add_right p 1) (show p + 1 ≤ j.body.length by omega)
    have third := onBetween_add (t := j.body) (show p + 1 ≤ q from less) bound
    rw [Option.map_some, Option.elim_some, onCount_trim, text_cursorAt]
    omega

end Counts
section Conditions

variable {reserved : ReservedWords} {t : Text} {joins : List Join} {issues : List Issue}

theorem resolveJoins_conditions (ok : resolveJoins reserved t = .ok (joins, issues)) :
    List.Forall₂ (fun s j => j.condition = s.condition.filter (· ≠ [])) (joinSegments t) joins := by
  rw [resolveJoins] at ok
  cases resolved : (joinSegments t).mapM (·.resolve reserved) with
  | error issue =>
    rw [resolved] at ok
    cases ok
  | ok pairs =>
    rw [resolved] at ok
    obtain ⟨rfl, -⟩ := Prod.mk.inj (Except.ok.inj ok)
    refine List.forall₂_map_right_iff.mpr ((mapM_ok resolved).imp fun s pair each => ?_)
    obtain ⟨join, issue⟩ := pair
    obtain ⟨-, f, -, -, -, condition⟩ := resolve_ok each
    exact condition

theorem onWords_cases (s : JoinSegment) {c : Option Text} (read : c = s.condition.filter (· ≠ [])) :
    (if c.isSome then 1 else 0) ≤ s.onWords ∧
    ((if c.isSome then 1 else 0) = s.onWords ↔ s.condition ≠ some [] ∧ ∀ u ∈ c, onCount u = 0) ∧
    ((∀ u ∈ c, onCount u = 0) ↔ s.onWords ≤ 1) := by
  have noWords : onCount [] = 0 := rfl
  subst read
  rw [JoinSegment.onWords]
  cases s.condition with
  | none => simp
  | some u =>
    by_cases empty : u = []
    · simp [Option.filter, empty, noWords]
    · have kept : (some u).filter (· ≠ []) = some u := by simp [Option.filter, empty]
      have every : (∀ v ∈ some u, onCount v = 0) ↔ onCount u = 0 := by simp
      have written : some u ≠ some [] := by simpa using empty
      rw [kept, every, Option.isSome_some, if_pos rfl, Option.elim_some]
      exact ⟨by omega, ⟨fun same => ⟨written, by omega⟩, fun only => by omega⟩, by omega⟩

theorem countP_conditions {ss : List JoinSegment} {js : List Join}
    (read : List.Forall₂ (fun s j => j.condition = s.condition.filter (· ≠ [])) ss js) :
    js.countP (·.condition.isSome) ≤ (ss.map JoinSegment.onWords).sum ∧
    (js.countP (·.condition.isSome) = (ss.map JoinSegment.onWords).sum ↔
      (∀ s ∈ ss, s.condition ≠ some []) ∧ ∀ j ∈ js, ∀ c ∈ j.condition, onCount c = 0) ∧
    ((∀ j ∈ js, ∀ c ∈ j.condition, onCount c = 0) ↔ ∀ s ∈ ss, s.onWords ≤ 1) := by
  induction read with
  | nil => simp
  | @cons s j ss js first rest ih =>
    obtain ⟨least, exact_, most⟩ := onWords_cases s first
    obtain ⟨least', exact', most'⟩ := ih
    rw [List.countP_cons, List.map_cons, List.sum_cons, List.forall_mem_cons, List.forall_mem_cons, List.forall_mem_cons]
    refine ⟨by omega, ?_, by rw [most, most']⟩
    have both : js.countP (·.condition.isSome) + (if j.condition.isSome then 1 else 0) =
        s.onWords + (ss.map JoinSegment.onWords).sum ↔
        (if j.condition.isSome then 1 else 0) = s.onWords ∧
          js.countP (·.condition.isSome) = (ss.map JoinSegment.onWords).sum := by omega
    rw [both, exact_, exact']
    exact and_and_and_comm

/-- How many of the words `ON` a text's joins account for: one with each condition if there is none in front of
    the first join, none without a condition behind it and none in a condition. -/
theorem on_words_accounted_iff (ok : resolveJoins reserved t = .ok (joins, issues)) :
    List.Forall₂ (fun s j => j.condition = s.condition.filter (· ≠ [])) (joinSegments t) joins ∧
    onCount t = onCount (mainTables t) + ((joinSegments t).map JoinSegment.onWords).sum ∧
    ((∀ j ∈ joins, ∀ c ∈ j.condition, onCount c = 0) ↔ ∀ j ∈ (cutJoins t).2, onCount j.body ≤ 1) ∧
    (onCount t = joins.countP (·.condition.isSome) ↔ onCount (mainTables t) = 0 ∧
      (∀ s ∈ joinSegments t, s.condition ≠ some []) ∧ ∀ j ∈ joins, ∀ c ∈ j.condition, onCount c = 0) := by
  have read := resolveJoins_conditions ok
  have sum : ((cutJoins t).2.map (onCount ·.body)).sum = ((joinSegments t).map JoinSegment.onWords).sum := by
    rw [joinSegments, List.map_map]
    exact congrArg List.sum (List.map_congr_left fun j _ => onCount_body j)
  have total : onCount t = onCount (mainTables t) + ((joinSegments t).map JoinSegment.onWords).sum := by
    rw [onCount_cutJoins, sum, mainTables, onCount_trim]
  obtain ⟨least, exact_, most⟩ := countP_conditions read
  refine ⟨read, total, ?_, ?_⟩
  · rw [most, joinSegments, List.forall_mem_map]
    exact forall₂_congr fun j _ => by rw [onCount_body]
  · rw [← exact_]
    omega

def nestedJoins : Text := "a JOIN b JOIN c ON x ON y"

/-- The second `ON` of a nested join stays in the condition of the inner one. -/
theorem on_words_accounted_iff_nestedJoins : ∃ joins issues, resolveJoins default nestedJoins = .ok (joins, issues) ∧
    issues = [] ∧ joins.map (·.condition) = [none, some "x ON y".toList] ∧ onCount nestedJoins = 2 ∧
    onCount nestedJoins ≠ joins.countP (·.condition.isSome) ∧ onCount "x ON y" = 1 := by
  have read : resolveJoins default nestedJoins = .ok ([⟨.plain, { table := "b" }, none⟩,
      ⟨.plain, { table := "c" }, some "x ON y".toList⟩], []) := by decide +kernel
  have law := (on_words_accounted_iff read).2.2.2
  refine ⟨_, _, read, rfl, rfl, by decide +kernel, fun all => ?_, by decide +kernel⟩
  have none := (law.mp all).2.2 _ (List.mem_cons_of_mem _ List.mem_cons_self) "x ON y".toList rfl
  revert none
  decide +kernel

end Conditions
end QueryChain
