import QueryChain.Proofs.Bytes.Tables
import QueryChain.Proofs.Join.Clauses

namespace QueryChain

namespace Bytewise

structure Introducer where
  start : Nat
  body : Nat
  qualifiers : List Text
  deriving DecidableEq, Repr

def walkBack? (t : Text) : Nat → Nat → List Text → Option (Nat × List Text)
  | 0, start, found => some (start, found)
  | fuel + 1, start, found => do
    let head := trimEnd (← upTo? t start)
    let word := lastBlankWord head
    if upper word ∈ joinQualifiers then
      walkBack? t fuel (← less? (byteSize head) (byteSize word)) (upper word :: found)
    else return (start, found)

def introducerAt? (t : Text) (offset : Nat) : Option (Option Introducer) := do
  match ← keyword? t offset ["JOIN"] with
  | some stop =>
    let (start, qualifiers) ← walkBack? t (← upTo? t offset).length offset []
    return some ⟨start, stop, qualifiers⟩
  | none =>
    match ← keyword? t offset ["STRAIGHT_JOIN"] with
    | some stop => return some ⟨offset, stop, []⟩
    | none => return none

def introducersFrom? (t : Text) : List (Nat × Mark) → Option (List Introducer)
  | [] => some []
  | (offset, m) :: later =>
    if m.isTop then do
      let here ← introducerAt? t offset
      return here.toList ++ (← introducersFrom? t later)
    else introducersFrom? t later

def introducers? (t : Text) : Option (List Introducer) := do introducersFrom? t (← scan? t)

def firstStart (t : Text) (found : List Introducer) : Nat := (found.head?.map Introducer.start).getD (byteSize t)

def mainTables? (t : Text) : Option Text := do
  return trim (← upTo? t (firstStart t (← introducers? t)))

def joinTexts? (t : Text) : List Introducer → Option (List JoinText)
  | [] => some []
  | join :: later => do
    let body ← part? t join.body (firstStart t later)
    return ⟨join.qualifiers, body⟩ :: (← joinTexts? t later)

def segment? (j : JoinText) : Option JoinSegment := do
  let on ← keywordSpan? j.body ["ON"] 0
  let using_ ← keywordSpan? j.body ["USING"] 0
  let stop := (([on, using_].filterMap id).map Prod.fst).min?.getD (byteSize j.body)
  let table ← upTo? j.body stop
  let condition ← on.mapM fun span => from? j.body span.2
  return ⟨j.qualifiers, trim table, condition.map trim, using_.isSome⟩

def joinSegments? (t : Text) : Option (List JoinSegment) := do
  (← joinTexts? t (← introducers? t)).mapM segment?

end Bytewise

section Qualifiers

variable {t front mid : Text}

theorem lastQualifier?_append {w : Text} (join : upper w = "JOIN".toList) (ends : w <:+ front)
    (apart : mid.head?.any isWordChar = false) :
    lastQualifier? (front ++ mid) = (lastQualifier? mid).map fun p => (front ++ p.1, p.2) := by
  have capital : ∀ q ∈ joinQualifiers, q ≠ [] ∧ (∀ c ∈ q, isCapital c) ∧ 'J' ∉ q := by decide
  apply Option.ext
  rintro ⟨before, q⟩
  rw [lastQualifier?_eq_some_iff, Option.map_eq_some_iff]
  constructor
  · rintro ⟨word, back, parts, rfl, member, stop, blank⟩
    obtain ⟨-, -, noJoin⟩ := capital _ member
    rcases List.append_eq_append_iff.mp parts with ⟨f, rfl, rest⟩ | ⟨r, rfl, rest⟩
    · refine ⟨(f, upper word), lastQualifier?_eq_some_iff.mpr ⟨word, back, rest, rfl, member, ?_, blank⟩, rfl⟩
      by_cases empty : f = []
      · rw [empty]
        rfl
      · rwa [getLast?_append_of_ne_nil empty] at stop
    · have letters := isKeywordChar_of_upper (w := "JOIN".toList) (by decide) join.symm
      have noLetter : ∀ c ∈ r, c.toUpper ≠ 'J' := by
        intro c inside same
        have inBoth : c ∈ word ++ back := by
          rw [rest]
          simp [inside]
        rcases List.mem_append.mp inBoth with inWord | inBack
        · exact noJoin (same ▸ List.mem_map_of_mem inWord)
        · have letter := isKeywordChar_of_sameLetter 'J' c (by decide) (by simp [sameLetter, same])
          have space := blank c inBack
          rw [isBlank_of_isKeywordChar c letter] at space
          cases space
      obtain ⟨c, w, rfl, first⟩ : ∃ c w', w = c :: w' ∧ c.toUpper = 'J' := by
        cases w with
        | nil => cases join
        | cons c w => exact ⟨c, w, rfl, (List.cons.inj join).1⟩
      rcases List.suffix_or_suffix_of_suffix ends (List.suffix_append before r) with ⟨x, inside⟩ | ⟨x, inside⟩
      · exact absurd first (noLetter c (by simp [← inside]))
      · obtain ⟨v, whole⟩ := ends
        rw [← inside, ← List.append_assoc] at whole
        obtain rfl := List.append_cancel_right whole
        cases x with
        | nil => exact absurd first (noLetter c (by rw [List.nil_append] at inside; simp [inside]))
        | cons d x =>
          rw [getLast?_append_of_ne_nil (by simp), List.getLast?_eq_some_getLast (by simp), Option.all_some] at stop
          have letter := letters ((d :: x).getLast (by simp)) (by
            rw [← inside]
            exact List.mem_append_left _ (List.getLast_mem _))
          rw [isBlank_of_isKeywordChar _ letter] at stop
          cases stop
  · rintro ⟨⟨f, q'⟩, found, same⟩
    cases same
    obtain ⟨word, back, rfl, rfl, member, stop, blank⟩ := lastQualifier?_eq_some_iff.mp found
    obtain ⟨some_, letters, -⟩ := capital _ member
    refine ⟨word, back, by simp, rfl, member, ?_, blank⟩
    by_cases empty : f = []
    · subst empty
      obtain ⟨c, rest, rfl⟩ := List.exists_cons_of_ne_nil (l := word) (by rintro rfl; exact some_ rfl)
      have letter := isWordChar_of_letters letters (upper_of_isCapital letters) c (by simp)
      simp [letter] at apart
    · rwa [getLast?_append_of_ne_nil empty]

theorem dropQualifiers_append {w : Text} (join : upper w = "JOIN".toList) (ends : w <:+ front)
    (apart : mid.head?.any isWordChar = false) (n : Nat) (found : List Text) :
    dropQualifiers n (front ++ mid) found = (front ++ (dropQualifiers n mid found).1, (dropQualifiers n mid found).2) := by
  induction n generalizing mid found with
  | zero => rfl
  | succ n ih =>
    rw [dropQualifiers, dropQualifiers, lastQualifier?_append join ends apart]
    cases last : lastQualifier? mid with
    | none => rfl
    | some p =>
      obtain ⟨-, rest, rfl⟩ := length_lastQualifier? last
      have before : p.1.head?.any isWordChar = false := by
        cases first : p.1 with
        | nil => rfl
        | cons c f =>
          rw [first] at apart
          exact apart
      exact ih before (p.2 :: found)

theorem trailingQualifiers_append {w : Text} (join : upper w = "JOIN".toList) (ends : w <:+ front)
    (apart : mid.head?.any isWordChar = false) :
    trailingQualifiers (front ++ mid) = (front ++ (trailingQualifiers mid).1, (trailingQualifiers mid).2) := by
  rw [trailingQualifiers, dropQualifiers_append join ends apart,
    dropQualifiers_fuel (by simp) (Nat.le_refl mid.length), trailingQualifiers]

theorem prefix_dropQualifiers (n : Nat) (found : List Text) : (dropQualifiers n t found).1 <+: t := by
  induction n generalizing t found with
  | zero => exact List.prefix_refl t
  | succ n ih =>
    rw [dropQualifiers]
    cases last : lastQualifier? t with
    | none => exact List.prefix_refl t
    | some p => exact (ih _).trans (length_lastQualifier? last).2

end Qualifiers

namespace Bytewise

section Walk

variable {t : Text} {n : Nat}

theorem walkBack?_place (fuel : Nat) (found : List Text) (inText : n ≤ t.length) : walkBack? t fuel (place t n) found =
    some (place t (dropQualifiers fuel (t.take n) found).1.length, (dropQualifiers fuel (t.take n) found).2) := by
  induction fuel generalizing n found with
  | zero => simp [walkBack?, dropQualifiers, Nat.min_eq_left inText]
  | succ fuel ih =>
    have unfolded : lastQualifier? (t.take n) = if upper (lastBlankWord (trimEnd (t.take n))) ∈ joinQualifiers then
        some (dropEndWhile (!isBlank ·) (trimEnd (t.take n)), upper (lastBlankWord (trimEnd (t.take n)))) else none := rfl
    simp only [walkBack?, upTo?_place, Option.bind_eq_bind, Option.bind_some, dropQualifiers]
    by_cases qualifier : upper (lastBlankWord (trimEnd (t.take n))) ∈ joinQualifiers
    · rw [if_pos qualifier] at unfolded ⊢
      rw [unfolded]
      have parts := dropEndWhile_append_takeWhile (!isBlank ·) (trimEnd (t.take n))
      have size := congrArg byteSize parts
      rw [byteSize_append] at size
      have start := (length_lastQualifier? unfolded).2.trans (List.take_prefix n t)
      generalize dropEndWhile (!isBlank ·) (trimEnd (t.take n)) = front at size start ⊢
      have front_ : front = t.take front.length := List.prefix_iff_eq_take.mp start
      have short := start.length_le
      have at_ : byteSize front = place t front.length := by rw [place, ← front_]
      rw [lastBlankWord, ← size, less?_add, Option.bind_some, at_, ih _ short, ← front_]
    · rw [if_neg qualifier] at unfolded ⊢
      rw [unfolded]
      simp [Nat.min_eq_left inText]

theorem introducerAt?_none (inText : n ≤ t.length) (top : (cursorAt t n).atTop) (none_ : joinWordAt? (cursorAt t n) = none) :
    introducerAt? t (place t n) = some none := by
  rw [joinWordAt?, if_pos top, List.find?_eq_none] at none_
  have join := keyword?_eq_none (k := ["JOIN"]) (by decide) inText (Bool.eq_false_iff.mpr (none_ .join (by simp)))
  have straight := keyword?_eq_none (k := ["STRAIGHT_JOIN"]) (by decide) inText
    (Bool.eq_false_iff.mpr (none_ .straightJoin (by simp)))
  rw [introducerAt?, join, Option.bind_eq_bind, Option.bind_some, straight]
  rfl

def introducer (t : Text) (n q : Nat) : JoinWord → Introducer
  | .join => ⟨place t (trailingQualifiers (t.take n)).1.length, place t q, (trailingQualifiers (t.take n)).2⟩
  | .straightJoin => ⟨place t n, place t q, []⟩

theorem introducerAt?_some {w : JoinWord} (inText : n ≤ t.length) (found : joinWordAt? (cursorAt t n) = some w) :
    (cursorAt t n).atTop ∧ ∃ q, Stands t [w.word] n q ∧ introducerAt? t (place t n) = some (some (introducer t n q w)) := by
  rw [joinWordAt?] at found
  by_cases top : (cursorAt t n).atTop
  · rw [if_pos top] at found
    have starts := List.find?_some found
    obtain ⟨after, here⟩ := Option.isSome_iff_exists.mp starts
    obtain ⟨q, stands, -⟩ := (keyword?_cursorAt (isKeyword_joinWord w) inText).mp ⟨top, here⟩
    have hit := keyword?_of_stands (isKeyword_joinWord w) stands
    refine ⟨top, q, stands, ?_⟩
    cases w with
    | join =>
      have hit : keyword? t (place t n) ["JOIN"] = some (some (place t q)) := hit
      simp only [introducerAt?, hit, Option.bind_eq_bind, Option.bind_some, upTo?_place, walkBack?_place _ _ inText]
      rfl
    | straightJoin =>
      have hit : keyword? t (place t n) ["STRAIGHT_JOIN"] = some (some (place t q)) := hit
      have other : (cursorAt t n).startsWith ["JOIN"] = false := by
        by_contra starts
        have first : (cursorAt t n).startsWith [JoinWord.join.word] = true := Bool.eq_true_of_not_eq_false starts
        simp only [List.find?_cons, first] at found
        cases found
      simp only [introducerAt?, hit, keyword?_eq_none (k := ["JOIN"]) (by decide) inText other, Option.bind_eq_bind,
        Option.bind_some]
      rfl
  · rw [if_neg top] at found
    cases found

theorem introducersFrom?_inside {w : Text} {q i : Nat} (isKeyword : IsKeyword [w]) (stands : Stands t [w] n q)
    (behind : n < i) (inside : i ≤ q) :
    introducersFrom? t (spots (place t i) ((scan t).drop i)) = introducersFrom? t (spots (place t q) ((scan t).drop q)) := by
  have bound := stands.bound
  by_cases last : i = q
  · rw [last]
  · have next := introducersFrom?_inside isKeyword stands (i := i + 1) (by omega) (by omega)
    have before := before_of_stands isKeyword stands behind inside
    have inScan : i < (scan t).length := by simp; omega
    rw [spots_drop inScan, introducersFrom?, ← next]
    by_cases top : (scan t)[i].isTop
    · have noWord (k : Keyword) : (cursorAt t i).startsWith k = false := by
        rw [Cursor.startsWith, Cursor.keyword?, if_pos before]
        rfl
      have none_ : introducerAt? t (place t i) = some none := by
        simp only [introducerAt?, keyword?_eq_none (k := ["JOIN"]) (by decide) (Nat.le_trans inside bound) (noWord _),
          keyword?_eq_none (k := ["STRAIGHT_JOIN"]) (by decide) (Nat.le_trans inside bound) (noWord _),
          Option.bind_eq_bind, Option.bind_some]
        rfl
      rw [if_pos top, none_]
      simp
    · rw [if_neg top]
termination_by q - i

/-- At the start of a text or behind the keyword of a join, nothing in front of a place counts as a
    qualifier of the join behind it. -/
theorem trailingQualifiers_take {a : Nat} (le : a ≤ n)
    (fresh : a = 0 ∨ ∃ (w : JoinWord) (p : Nat), Stands t [w.word] p a) :
    trailingQualifiers (t.take n) =
      (t.take a ++ (trailingQualifiers (slice a n t)).1, (trailingQualifiers (slice a n t)).2) := by
  rw [← take_append_slice le]
  rcases fresh with rfl | ⟨w, p, stands⟩
  · simp
  · have before : slice p a t <:+ t.take a := by
      rw [← take_append_slice stands.le]
      exact List.suffix_append _ _
    have letters : upper w.word = upper (slice p a t) := by
      cases stands.spells with
      | word same => exact same
    have join : upper ((slice p a t).drop (w.word.length - 4)) = "JOIN".toList := by
      rw [upper, List.map_drop, ← upper, ← letters]
      cases w <;> decide
    refine trailingQualifiers_append join ((List.drop_suffix _ _).trans before) ?_
    have after := stands.after
    rw [slice_eq_take_drop]
    cases rest : t.drop a with
    | nil => simp
    | cons c u =>
      rw [rest] at after
      cases n - a with
      | zero => rfl
      | succ m => exact after

theorem part?_zero (t : Text) (stop : Nat) : part? t 0 stop = upTo? t stop := by
  rw [part?, if_pos (Nat.zero_le _)]
  cases upTo? t stop with
  | none => rfl
  | some u => simp [from?, cutAt?]

theorem segment?_eq (j : JoinText) : segment? j = some j.segment := by
  have on := keywordSpan?_place (t := j.body) (k := ["ON"]) (by decide) (Nat.zero_le _)
  have using_ := keywordSpan?_place (t := j.body) (k := ["USING"]) (by decide) (Nat.zero_le _)
  have table := part?_upTo (by decide : ∀ k ∈ ([["ON"], ["USING"]] : List Keyword), IsKeyword k)
    (Nat.zero_le j.body.length)
  rw [place_zero] at on using_
  rw [place_zero, part?_zero, stops, List.map_cons, List.map_cons, List.map_nil] at table
  rw [segment?, on, using_]
  simp only [Option.bind_eq_bind, Option.bind_some]
  rw [table]
  simp only [JoinText.segment, hasKeyword, ← cursorAt_zero, Option.bind_some, Option.isSome_map]
  cases found : (cursorAt j.body 0).find? [["ON"]] with
  | none => rfl
  | some hit =>
    obtain ⟨passed, after⟩ := hit
    obtain ⟨p, q, -, -, -, -, rfl, -⟩ := find?_one (by decide) (Nat.zero_le _) found
    simp only [Option.map_some, Option.mapM_some, place_cursorAt, from?_place, text_cursorAt]
    rfl

end Walk
end Bytewise
end QueryChain
