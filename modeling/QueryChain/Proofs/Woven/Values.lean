import QueryChain.Proofs.Params.Naming
import QueryChain.Proofs.Params.Values
import QueryChain.Proofs.Woven.Tables

namespace QueryChain

/-- The text has no `:param` in it, whatever the letter case. -/
def Unmarked (t : Text) : Prop := ¬upper paramMarker <:+: upper t

instance (t : Text) : Decidable (Unmarked t) := inferInstanceAs (Decidable (¬_))

def Marked (t : Text) : Prop := ∀ x, x <:+: t → upper x = upper paramMarker → x = paramMarker

section Marker

variable {t u x : Text}

theorem Unmarked.within (unmarked : Unmarked t) (inside : x <:+: t) : Unmarked x :=
  fun found => unmarked (found.trans (inside.map Char.toUpper))

theorem Marked.within (marked : Marked t) (inside : x <:+: t) : Marked x :=
  fun y found => marked y (found.trans inside)

theorem exists_of_not_unmarked (found : upper paramMarker <:+: upper t) : ∃ x, x <:+: t ∧ upper x = upper paramMarker := by
  obtain ⟨front, back, whole⟩ := found
  obtain ⟨first, rest, rfl, heads, -⟩ := List.map_eq_append_iff.mp whole.symm
  obtain ⟨before, x, rfl, -, same⟩ := List.map_eq_append_iff.mp heads
  exact ⟨x, ⟨before, rest, rfl⟩, same⟩

theorem not_mem_marker {c : Char} (same : upper x = upper paramMarker) (other : c.toUpper ∉ upper paramMarker) : c ∉ x := by
  intro member
  rw [← same] at other
  exact other (List.mem_map_of_mem member)

theorem Unmarked.normalize (unmarked : Unmarked t) : Unmarked (normalize t) := by
  intro found
  obtain ⟨x, inside, same⟩ := exists_of_not_unmarked found
  have full : x ≠ [] := by
    rintro rfl
    cases same
  have kept := infix_of_normalize full (not_mem_marker same (by decide)) (not_mem_marker same (by decide)) t inside
  refine unmarked ?_
  rw [← same]
  exact kept.map Char.toUpper

theorem marker_cons (same : upper x = upper paramMarker) : ∃ y, x = ':' :: y ∧ ':' ∉ y := by
  have letters : upper paramMarker = ':'.toUpper :: upper "param" := by decide
  rw [letters] at same
  cases x with
  | nil => cases same
  | cons c y =>
    obtain ⟨first, rest⟩ : c.toUpper = ':'.toUpper ∧ upper y = upper "param" := List.cons.inj same
    have colon : sameLetter c ':' := by rw [sameLetter, beq_iff_eq, first]
    obtain rfl : c = ':' := (eq_iff_of_sameLetter colon (by decide)).mpr rfl
    refine ⟨y, rfl, fun member => ?_⟩
    have letter : ':'.toUpper ∈ upper "param" := by
      rw [← rest]
      exact List.mem_map_of_mem member
    exact absurd letter (by decide)

theorem infix_behind {y front back : Text} (no : ':' ∉ front) (inside : ':' :: y <:+: front ++ back) :
    ':' :: y <:+: back := by
  induction front with
  | nil => exact inside
  | cons c front ih =>
    rcases List.infix_cons_iff.mp inside with starts | later
    · have first := (List.cons_prefix_cons.mp starts).1
      exact absurd (by rw [first]; exact List.mem_cons_self) no
    · exact ih (fun member => no (List.mem_cons_of_mem c member)) later

theorem no_colon_of_decimal (n : Nat) : ':' ∉ decimal n := fun member => absurd (isDigit_of_mem_decimal member) (by decide)

theorem marked_numberMarks {ms : Marks} (issued : Nat) (unmarked : Unmarked (markText ms)) :
    Marked (numberMarks issued ms) := by
  intro x inside same
  obtain ⟨y, rfl, noColon⟩ := marker_cons same
  induction ms generalizing issued with
  | nil => cases List.infix_nil.mp inside
  | cons m ms ih =>
    have rest : Unmarked (markText ms) := unmarked.within (List.suffix_cons m.char (markText ms)).isInfix
    rw [numberMarks] at inside
    by_cases placeholder : m.isPlaceholder
    · rw [if_pos placeholder] at inside
      have name : paramName (issued + 1) = ':' :: ("param".toList ++ decimal (issued + 1)) := rfl
      have free : ':' ∉ "param".toList ++ decimal (issued + 1) := by
        rw [List.mem_append, not_or]
        exact ⟨by decide, no_colon_of_decimal _⟩
      rw [name, List.cons_append] at inside
      rcases List.infix_cons_iff.mp inside with starts | later
      · have length : y.length = "param".toList.length := by
          have equal := congrArg List.length same
          have marker : paramMarker.length = "param".toList.length + 1 := by decide
          simpa [upper, marker] using equal
        have letters := (List.cons_prefix_cons.mp starts).2
        rw [List.append_assoc] at letters
        have taken := List.prefix_iff_eq_take.mp letters
        rw [length, List.take_left] at taken
        rw [taken]
        rfl
      · exact ih (issued + 1) rest (infix_behind free later)
    · rw [if_neg placeholder] at inside
      rcases List.infix_cons_iff.mp inside with starts | later
      · obtain ⟨colon, letters⟩ := List.cons_prefix_cons.mp starts
        have whole : ':' :: y <+: markText (m :: ms) :=
          List.cons_prefix_cons.mpr ⟨colon, prefix_of_numberMarks noColon letters⟩
        refine absurd ?_ unmarked
        rw [← same]
        exact whole.isInfix.map Char.toUpper
      · exact ih issued rest later

theorem Unmarked.numbered (unmarked : Unmarked t) (issued : Nat) : Marked (numbered issued t) :=
  marked_numberMarks issued (by rwa [markText_scan])

end Marker
section Values

variable {w : Weave} {s : ScanState} {t u : Text} {f : Char → Bool}

def Weave.Legible (w : Weave) (t u : Text) : Prop := (∀ c d, w.same c d → c = d) ∨ Marked t ∧ Marked u

theorem Weave.Legible.within {x y : Text} (legible : w.Legible t u) (inside : x <:+: t) (inside' : y <:+: u) :
    w.Legible x y :=
  legible.imp_right fun both => ⟨both.1.within inside, both.2.within inside'⟩

theorem isDigit_of_isAlpha {c : Char} (alpha : c.isAlpha) : c.isDigit = false := by
  have letter := (isAlpha_iff c).mp alpha
  rw [Bool.eq_false_iff]
  intro digit
  have range := (isDigit_iff c).mp digit
  omega

theorem folds_isDigit : Folds Char.isDigit := fun _ _ =>
  congr_of_sameLetter fun _ alpha => (isDigit_of_isAlpha alpha).trans (by decide)

namespace Weave.Bare

theorem all_eq (folds : Folds f) (bare : w.Bare t u) : t.all f = u.all f := by
  induction bare with
  | nil => rfl
  | @cons c d _ _ same _ ih => rw [List.all_cons, List.all_cons, folds c d (w.letter same), ih]

theorem eq_of_digits (bare : w.Bare t u) (digits : t.all Char.isDigit) : t = u := by
  induction bare with
  | nil => rfl
  | @cons c d _ _ same _ ih =>
    rw [List.all_cons, Bool.and_eq_true] at digits
    rcases sameLetter_cases (w.letter same) with rfl | ⟨alpha, -⟩
    · rw [ih digits.2]
    · rw [isDigit_of_isAlpha alpha] at digits
      exact absurd digits.1 Bool.false_ne_true

theorem eq_of_exact (bare : w.Bare t u) (same : ∀ c d, w.same c d → c = d) : t = u := by
  have equal := bare.imp same
  rwa [List.forall₂_eq_eq_eq] at equal

theorem number?_eq (bare : w.Bare t u) : number? t = number? u := by
  by_cases digits : t.all Char.isDigit
  · rw [bare.eq_of_digits digits]
  · have digits' : ¬u.all Char.isDigit := by rwa [← bare.all_eq folds_isDigit]
    rw [number?, number?, if_neg fun both => digits both.2, if_neg fun both => digits' both.2]

theorem marker_iff (bare : w.Bare t u) (legible : w.Legible t u) :
    t.take paramMarker.length = paramMarker ↔ u.take paramMarker.length = paramMarker := by
  have front : w.Bare (t.take paramMarker.length) (u.take paramMarker.length) := List.forall₂_take _ bare
  rcases legible with same | ⟨marked, marked'⟩
  · rw [front.eq_of_exact same]
  · constructor
    · intro same
      exact marked' _ (List.take_prefix _ u).isInfix (by rw [← front.upper_eq, same])
    · intro same
      exact marked _ (List.take_prefix _ t).isInfix (by rw [front.upper_eq, same])

end Weave.Bare

theorem after?_marker (t : Text) : after? paramMarker t =
    if t.take paramMarker.length = paramMarker then some (t.drop paramMarker.length) else none := by
  rw [after?]
  have starts : paramMarker.isPrefixOf t ↔ t.take paramMarker.length = paramMarker := by
    rw [List.isPrefixOf_iff_prefix, List.prefix_iff_eq_take, eq_comm]
  simp only [starts]

theorem Woven.bare_or_quoted (woven : Woven w s t u) : w.Bare t u ∨ '\'' ∈ t ∧ '\'' ∈ u := by
  induction woven with
  | nil => exact .inl .nil
  | char same _ _ ih =>
    rcases ih with bare | ⟨quote, quote'⟩
    · exact .inl (.cons same bare)
    · exact .inr ⟨List.mem_cons_of_mem _ quote, List.mem_cons_of_mem _ quote'⟩
  | literal => exact .inr ⟨by simp [QueryChain.literal], by simp [QueryChain.literal]⟩

theorem all_isDigit_quoted (quote : '\'' ∈ t) : t.all Char.isDigit = false := by
  rw [Bool.eq_false_iff]
  intro digits
  exact absurd (List.all_eq_true.mp digits _ quote) (by decide)

theorem param?_quoted (quote : '\'' ∈ trim t) : param? t = none := by
  rw [param?]
  cases found : after? paramMarker (trim t) with
  | none => rfl
  | some rest =>
    have whole := after?_eq_some_iff.mp found
    rw [whole, List.mem_append] at quote
    have behind := quote.resolve_left (by decide)
    rw [Option.bind_some, number?, if_neg fun both => Bool.false_ne_true ((all_isDigit_quoted behind).symm.trans both.2)]
    rfl

theorem Woven.param?_eq (woven : Woven w {} t u) (legible : w.Legible t u) : param? t = param? u := by
  rcases (woven.trim rfl).bare_or_quoted with bare | ⟨quote, quote'⟩
  · have starts := bare.marker_iff (legible.within (infix_trim t) (infix_trim u))
    have behind : w.Bare ((QueryChain.trim t).drop paramMarker.length) ((QueryChain.trim u).drop paramMarker.length) :=
      List.forall₂_drop _ bare
    rw [param?, param?, after?_marker, after?_marker]
    by_cases marker : (QueryChain.trim t).take paramMarker.length = paramMarker
    · rw [if_pos marker, if_pos (starts.mp marker), Option.bind_some, Option.bind_some, behind.number?_eq]
    · rw [if_neg marker, if_neg (mt starts.mpr marker)]
  · rw [param?_quoted quote, param?_quoted quote']

theorem Woven.bound?_eq (woven : Woven w {} t u) (legible : w.Legible t u) : bound? t = bound? u := by
  have param : param? (QueryChain.trim t) = param? (QueryChain.trim u) :=
    (woven.trim rfl).param?_eq (legible.within (infix_trim t) (infix_trim u))
  rw [bound?, bound?, param]
  rcases (woven.trim rfl).bare_or_quoted with bare | ⟨quote, quote'⟩
  · have full : QueryChain.trim t ≠ [] ↔ QueryChain.trim u ≠ [] := not_congr (woven.trim rfl).nil_iff
    simp only [full, bare.all_eq folds_isDigit, bare.number?_eq]
  · rw [if_neg fun both => Bool.false_ne_true ((all_isDigit_quoted quote).symm.trans both.2),
      if_neg fun both => Bool.false_ne_true ((all_isDigit_quoted quote').symm.trans both.2)]

theorem Woven.limit?_eq (woven : Woven w {} t u) (legible : w.Legible t u) : limit? t = limit? u := by
  have pieces := woven.splitTop (x := ',') (by decide)
  have inside (x : Text) (member : x ∈ QueryChain.splitTop ',' t) : x <:+: t := infix_of_mem_splitTop member
  have inside' (x : Text) (member : x ∈ QueryChain.splitTop ',' u) : x <:+: u := infix_of_mem_splitTop member
  rw [limit?, limit?]
  generalize QueryChain.splitTop ',' t = ts at pieces inside
  generalize QueryChain.splitTop ',' u = us at pieces inside'
  cases pieces with
  | nil => rfl
  | cons first rest =>
    have bound := first.bound?_eq (legible.within (inside _ (by simp)) (inside' _ (by simp)))
    cases rest with
    | nil =>
      dsimp only
      rw [bound]
    | cons second more =>
      have bound' := second.bound?_eq (legible.within (inside _ (by simp)) (inside' _ (by simp)))
      cases more with
      | nil =>
        dsimp only
        rw [bound, bound']
      | cons _ _ => rfl

end Values
end QueryChain
