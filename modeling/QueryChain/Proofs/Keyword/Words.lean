import QueryChain.Proofs.Params.Values
import QueryChain.Proofs.NormalForm.Region

namespace QueryChain

section Cut

variable {κ : Type} {word : κ → Text} {t : Text}

inductive CutAt (word : κ → Text) (t : Text) : Nat → Text → List (κ × Text) → Prop
  | last {a : Nat} : CutAt word t a (t.drop a) []
  | cut {a n q : Nat} {k : κ} {head : Text} {parts : List (κ × Text)} (le : a ≤ n)
      (stands : Stands t [word k] n q) (rest : CutAt word t q head parts) :
      CutAt word t a (slice a n t) ((k, head) :: parts)

theorem slice_self {α : Type} {l : List α} (n : Nat) : slice n n l = [] := by
  rw [slice_eq_take_drop, Nat.sub_self, List.take_zero]

theorem cons_slice {α : Type} {l : List α} {b e : Nat} (less : b < e) (inList : b < l.length) :
    l[b] :: slice (b + 1) e l = slice b e l := by
  rw [slice_eq_take_drop, slice_eq_take_drop, List.drop_eq_getElem_cons inList,
    show e - b = e - (b + 1) + 1 by omega, List.take_succ_cons]

theorem CutAt.cons {a : Nat} {head : Text} {parts : List (κ × Text)} (inText : a < t.length)
    (cut : CutAt word t (a + 1) head parts) : CutAt word t a (t[a] :: head) parts := by
  cases cut with
  | last =>
    rw [← List.drop_eq_getElem_cons inText]
    exact .last
  | cut le stands rest =>
    rw [cons_slice (by omega) inText]
    exact .cut (by omega) stands rest

theorem cutWords_skip (size : κ → Nat) (skip : Nat) (anns : List (Char × Option κ)) :
    cutWords size skip anns = cutWords size 0 (anns.drop skip) := by
  induction anns generalizing skip with
  | nil => cases skip <;> rfl
  | cons a anns ih =>
    cases skip with
    | zero => rfl
    | succ skip => rw [cutWords, ih, List.drop_succ_cons]

theorem length_of_spells {w u : Text} (spells : Spells [w] u) : u.length = w.length := by
  cases spells with
  | word letters => exact (length_of_upper letters).symm

/-- Cutting at words that stand in the text gives the parts between them. -/
theorem cutAt_cutWords {anns : List (Char × Option κ)} (chars : anns.map Prod.fst = t)
    (isKeyword : ∀ k, IsKeyword [word k])
    (stands : ∀ n c k, anns[n]? = some (c, some k) → ∃ q, Stands t [word k] n q) (a : Nat) :
    CutAt word t a (cutWords (fun k => (word k).length) 0 (anns.drop a)).1
      (cutWords (fun k => (word k).length) 0 (anns.drop a)).2 := by
  have length : anns.length = t.length := by rw [← chars, List.length_map]
  by_cases inText : a < anns.length
  · have here := List.drop_eq_getElem_cons inText
    have char : (anns[a]).1 = t[a] := by simp [← chars]
    rcases found : anns[a] with ⟨c, _ | k⟩
    · have rest := cutAt_cutWords chars isKeyword stands (a + 1)
      rw [here, found, cutWords]
      rw [found] at char
      dsimp only at char ⊢
      rw [char]
      exact rest.cons (length ▸ inText)
    · obtain ⟨q, opens⟩ := stands a c k (by rw [List.getElem?_eq_getElem inText, found])
      have size := length_of_spells opens.spells
      rw [length_slice opens.bound] at size
      have less := opens.lt (isKeyword k)
      have rest := cutAt_cutWords chars isKeyword stands q
      rw [here, found, cutWords, cutWords_skip, List.drop_drop,
        show a + 1 + ((word k).length - 1) = q by omega]
      have cut := CutAt.cut (Nat.le_refl a) opens rest
      rw [slice_self] at cut
      exact cut
  · rw [List.drop_eq_nil_of_le (by omega), cutWords]
    have empty : t.drop a = [] := List.drop_eq_nil_of_le (by omega)
    have last : CutAt word t a (t.drop a) [] := .last
    rw [empty] at last
    exact last
termination_by anns.length - a

theorem getElem?_annotate {α : Type} (probe : Cursor → Option α) (c : Cursor) (n : Nat) :
    (Cursor.annotate probe c.before c.marks)[n]? =
      c.marks[n]?.map fun m => (m.char, probe (c.skip n)) := by
  obtain ⟨before, ms⟩ := c
  induction ms generalizing before n with
  | nil => rfl
  | cons m ms ih =>
    cases n with
    | zero => simp [Cursor.annotate]
    | succ n => simpa [Cursor.annotate] using ih n (some m.char)

theorem map_fst_annotate {α : Type} (probe : Cursor → Option α) (before : Option Char) (ms : Marks) :
    (Cursor.annotate probe before ms).map Prod.fst = markText ms := by
  induction ms generalizing before with
  | nil => rfl
  | cons m ms ih => rw [Cursor.annotate, List.map_cons, ih]; rfl

/-- A probe for words finds those that stand in the text. -/
theorem stands_of_annotate {all : List κ} {probe : Cursor → Option κ} {n : Nat} {c : Char} {k : κ}
    (isKeyword : IsKeyword [word k])
    (probes : ∀ c, probe c = if c.atTop then all.find? fun w => c.startsWith [word w] else none)
    (found : (Cursor.annotate probe none (scan t))[n]? = some (c, some k)) :
    ∃ q, Stands t [word k] n q := by
  have there := getElem?_annotate probe (Cursor.start t) n
  rw [show (Cursor.start t).before = none from rfl, show (Cursor.start t).marks = scan t from rfl,
    found] at there
  obtain ⟨m, at_, eq⟩ := Option.map_eq_some_iff.mp there.symm
  have inText : n < t.length := by
    rw [← length_scan]
    exact (List.getElem?_eq_some_iff.mp at_).1
  have probed : probe (cursorAt t n) = some k := congrArg Prod.snd eq
  rw [probes] at probed
  by_cases top : (cursorAt t n).atTop
  · rw [if_pos top] at probed
    have starts := List.find?_some probed
    obtain ⟨after, here⟩ := Option.isSome_iff_exists.mp starts
    obtain ⟨q, stands, -⟩ := (keyword?_cursorAt isKeyword inText.le).mp ⟨top, here⟩
    exact ⟨q, stands⟩
  · rw [if_neg top] at probed
    cases probed

end Cut
section Names

variable {κ : Type} {word : κ → Text} {t : Text}

theorem no_colon_of_spells {k : Keyword} {u : Text} (isKeyword : IsKeyword k) (spells : Spells k u) :
    ':' ∉ u := by
  intro member
  rcases spells.chars isKeyword ':' member with blank | letter
  · revert blank
    decide
  · revert letter
    decide

/-- No name goes on over the start of a word that stands in the text, but one could go on with `P`. -/
theorem Stands.apart_front {w : Text} {a n q : Nat} (stands : Stands t [w] n q) (le : a ≤ n)
    (isKeyword : IsKeyword [w]) (noP : w.head? ≠ some 'P') (u : Text) :
    Apart (slice a n t) (slice n q t ++ u) := by
  apply apart_of
  right
  by_cases moved : a = n
  · rw [moved, slice_self]
    simp
  · have bound := stands.le.trans stands.bound
    have full : slice a n t ≠ [] := by
      rw [← List.length_pos_iff, length_slice bound]
      omega
    have before := stands.before
    rw [before_eq_getLast? bound, ← take_append_slice le, getLast?_append_of_ne_nil full] at before
    refine ⟨?_, .inr ?_⟩
    · apply any_eq_false
      intro c last
      rw [Option.mem_def.mp last, Option.any_some] at before
      rw [Bool.eq_false_iff]
      intro name
      rw [isWordChar_of_isNameChar name] at before
      cases before
    · intro p
      cases spelled : slice n q t with
      | nil =>
        have full := stands.spells.ne_nil isKeyword
        exact full spelled
      | cons c rest =>
        rw [spelled] at p
        obtain rfl := Option.some.inj p
        have letters : upper w = upper (slice n q t) := by
          cases stands.spells with
          | word letters => exact letters
        rw [spelled] at letters
        cases w with
        | nil => cases letters
        | cons d w =>
          have capital : isCapital d := (isKeyword.2 (d :: w) (by simp)).2 d (by simp)
          have same := (List.cons.inj letters).1
          rw [toUpper_of_isCapital d capital] at same
          exact noP (by rw [same]; rfl)

theorem Stands.apart_back {k : Keyword} {n q : Nat} (stands : Stands t k n q) (s : Text) :
    Apart s (t.drop q) := by
  apply apart_of
  left
  have after := stands.after
  apply any_eq_false
  intro c first
  rw [Option.mem_def.mp first, Option.any_some] at after
  rw [Bool.eq_false_iff]
  intro name
  rw [isWordChar_of_isNameChar name] at after
  cases after

theorem Clear.atWord {w : Text} {a n q : Nat} (clear : Clear (t.drop a)) (start : stateAt t a = {})
    (isKeyword : IsKeyword [w]) (noP : w.head? ≠ some 'P') (le : a ≤ n) (stands : Stands t [w] n q) :
    Splits (t.drop a) [slice a n t, t.drop q] := by
  have bound := stands.bound
  have order := stands.le
  have parts : t.drop a = slice a n t ++ slice n q t ++ t.drop q := by
    rw [slice_append le order bound, slice_append_drop (by omega) bound]
  have length : (slice a n t ++ slice n q t).length = q - a := by
    rw [slice_append le order bound, length_slice bound]
  have apart := stands.apart_back (slice a n t ++ slice n q t)
  have outside : stateAt (t.drop a) (q - a) = {} := by
    rw [stateAt_drop start, Nat.add_sub_cancel' (by omega), stands.state_eq_end isKeyword]
  have cut : Apart ((t.drop a).take (q - a)) ((t.drop a).drop (q - a)) := by
    rw [parts, ← length, List.take_left, List.drop_left]
    exact apart
  have front := clear.take cut
  have back := clear.drop (by rw [outside]) cut
  have names := clear.split (outside_of_state outside) cut
  rw [parts, ← length, List.take_left] at front
  rw [parts, ← length, List.drop_left] at back
  rw [parts, ← length, List.take_left, List.drop_left] at names
  have head := front.cutEnd (no_colon_of_spells isKeyword stands.spells)
    (by simpa using stands.apart_front le isKeyword noP [])
  refine ⟨?_, ?_⟩
  · intro u member
    rcases List.mem_pair.mp member with rfl | rfl
    · exact head.clear_one
    · exact back
  · rw [parts, names, head.names_one]
    simp

theorem CutAt.splits {a : Nat} {head : Text} {parts : List (κ × Text)}
    (cut : CutAt word t a head parts) (isKeyword : ∀ k, IsKeyword [word k])
    (noP : ∀ k, (word k).head? ≠ some 'P') (clear : Clear (t.drop a)) (start : stateAt t a = {}) :
    Splits (t.drop a) (head :: parts.map Prod.snd) := by
  induction cut with
  | last => exact .self clear
  | @cut a n q k head parts le stands rest ih =>
    have two := clear.atWord start (isKeyword k) (noP k) le stands
    have more := ih (two.clear (t.drop q) (by simp)) (stands.state_eq_end (isKeyword k))
    refine ⟨?_, ?_⟩
    · intro u member
      rcases List.mem_cons.mp member with rfl | later
      · exact two.clear _ (by simp)
      · exact more.clear u later
    · rw [two.names, List.flatMap_cons, List.flatMap_cons, List.flatMap_cons, List.flatMap_nil,
        List.append_nil, more.names, List.map_cons, List.flatMap_cons]

end Names
end QueryChain
