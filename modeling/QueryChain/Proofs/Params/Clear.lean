import Mathlib.Data.List.Basic
import QueryChain.Proofs.Keyword.Section
import QueryChain.Proofs.Scan.Tracker

namespace QueryChain

def namesIn : Text → List Nat
  | [] => []
  | c :: rest => (paramAtStart? (c :: rest)).toList ++ namesIn rest

theorem namesIn_append (s u : Text) (apart : Apart s u) :
    namesIn (s ++ u) = namesIn s ++ namesIn u := by
  induction s with
  | nil => rfl
  | cons c s ih =>
    have here := apart (c :: s) (by simp) (List.suffix_refl _)
    rw [List.cons_append] at here ⊢
    rw [namesIn, namesIn, here, ih apart.tail, List.append_assoc]

theorem paramsWithin_sublist (w : Option Char × Bool) (t : Text) :
    (paramsWithin w t).Sublist (namesIn t) := by
  induction t generalizing w with
  | nil => simp [paramsWithin, paramsFrom, namesIn]
  | cons c t ih =>
    rw [paramsWithin_cons, namesIn]
    refine List.Sublist.append ?_ (ih _)
    split
    · exact List.Sublist.refl _
    · exact List.nil_sublist _

theorem paramsIn_sublist (t : Text) : (paramsIn t).Sublist (namesIn t) :=
  paramsWithin_sublist (none, false) t

theorem paramAtStart?_other {c : Char} (other : c ≠ ':') (rest : Text) :
    paramAtStart? (c :: rest) = none := by
  apply paramAtStart?_eq_none
  intro behind eq
  exact other (List.cons.inj eq).1

theorem namesIn_of_no_colon {t : Text} (no : ':' ∉ t) : namesIn t = [] := by
  induction t with
  | nil => rfl
  | cons c t ih =>
    rw [namesIn, paramAtStart?_other (fun colon => no (by simp [colon])),
      ih fun member => no (by simp [member])]
    rfl

theorem paramsIn_of_no_colon {t : Text} (no : ':' ∉ t) : paramsIn t = [] := by
  have names := paramsIn_sublist t
  rw [namesIn_of_no_colon no] at names
  exact List.sublist_nil.mp names

structure Clear (t : Text) : Prop where
  dashes : DashesOnly {} t
  shown : paramsIn t = namesIn t

def Outside (t : Text) (n : Nat) : Prop := (stateAt t n).mode.quoting = (none, false)

section Split

variable {t : Text} {n : Nat}

theorem outside_of_state (start : stateAt t n = {}) : Outside t n := by
  rw [Outside, start]
  rfl

/-- In both parts of a clear text the names stand outside quotes. -/
theorem Clear.parts (clear : Clear t) (apart : Apart (t.take n) (t.drop n)) :
    paramsIn (t.take n) = namesIn (t.take n) ∧
      paramsWithin (stateAt t n).mode.quoting (t.drop n) = namesIn (t.drop n) ∧
      paramsIn t = paramsIn (t.take n) ++ paramsWithin (stateAt t n).mode.quoting (t.drop n) := by
  have dashes : DashesOnly {} (t.take n ++ t.drop n) := by
    rw [List.take_append_drop]
    exact clear.dashes
  have behind : (t.take n).foldl quotingBehind (none, false) = (stateAt t n).mode.quoting :=
    (quoting_behind rfl dashes).2.symm
  have parts := paramsWithin_append (none, false) (t.take n) (t.drop n) apart
  have names := namesIn_append (t.take n) (t.drop n) apart
  rw [List.take_append_drop] at parts names
  rw [behind, paramsWithin_none, paramsWithin_none] at parts
  have shown := clear.shown
  rw [parts, names] at shown
  have left := (paramsIn_sublist (t.take n)).length_le
  have right := (paramsWithin_sublist (stateAt t n).mode.quoting (t.drop n)).length_le
  have lengths := congrArg List.length shown
  rw [List.length_append, List.length_append] at lengths
  exact ⟨(paramsIn_sublist _).eq_of_length (by omega),
    (paramsWithin_sublist _ _).eq_of_length (by omega), parts⟩

theorem Clear.take (clear : Clear t) (apart : Apart (t.take n) (t.drop n)) : Clear (t.take n) := by
  refine ⟨?_, (clear.parts apart).1⟩
  apply dashesOnly_cut (u := t.drop n) rfl rfl
  rw [List.take_append_drop]
  exact clear.dashes

theorem Clear.drop (clear : Clear t) (code : (stateAt t n).mode = .code)
    (apart : Apart (t.take n) (t.drop n)) : Clear (t.drop n) := by
  have shown := (clear.parts apart).2.1
  rw [code] at shown
  refine ⟨?_, shown⟩
  have inPlace : DashesOnly (stateAt t n) (t.drop n ++ []) := by
    rw [List.append_nil]
    intro m member
    rw [← drop_scan] at member
    exact clear.dashes m (List.mem_of_mem_drop member)
  apply dashesOnly_cut _ code inPlace
  rw [code]
  rfl

/-- Cut where no quote is open, a text names the parameters of both parts. -/
theorem Clear.split (clear : Clear t) (outside : Outside t n) (apart : Apart (t.take n) (t.drop n)) :
    paramsIn t = paramsIn (t.take n) ++ paramsIn (t.drop n) := by
  have parts := (clear.parts apart).2.2
  rw [outside] at parts
  exact parts

end Split

theorem isWordChar_of_isNameChar {c : Char} (name : isNameChar c) : isWordChar c := by
  rw [isNameChar, Bool.or_eq_true] at name
  rcases name with letter | digit
  · have letters : ∀ d ∈ "param".toList, isWordChar d := by decide
    exact letters c (List.contains_iff_mem.mp letter)
  · have code := (isDigit_iff c).mp digit
    have ascii : c.toNat < 0x80 := by omega
    simp [isWordChar, isLetterOrNumber, ascii, Char.isAlphanum, digit]

theorem isNameChar_of_isBlank {c : Char} (blank : isBlank c) : isNameChar c = false ∧ c ≠ ':' := by
  have noWord := isWordChar_of_isBlank c blank
  constructor
  · rw [Bool.eq_false_iff]
    intro name
    rw [isWordChar_of_isNameChar name] at noWord
    cases noWord
  · rintro rfl
    revert blank
    decide

structure Splits (t : Text) (pieces : List Text) : Prop where
  clear : ∀ u ∈ pieces, Clear u
  names : paramsIn t = pieces.flatMap paramsIn

namespace Splits

variable {t u : Text} {us : List Text}

theorem self (clear : Clear t) : Splits t [t] := ⟨by simpa using clear, by simp⟩

theorem clear_one (splits : Splits t [u]) : Clear u := splits.clear u (by simp)

theorem names_one (splits : Splits t [u]) : paramsIn t = paramsIn u := by simpa using splits.names

theorem trans (splits : Splits t us) {f : Text → List Text} (each : ∀ u ∈ us, Splits u (f u)) :
    Splits t (us.flatMap f) := by
  refine ⟨?_, ?_⟩
  · intro v member
    obtain ⟨u, from_, member⟩ := List.mem_flatMap.mp member
    exact (each u from_).clear v member
  · rw [splits.names, List.flatMap_assoc]
    exact List.flatMap_congr fun u from_ => (each u from_).names

theorem map (splits : Splits t us) {f : Text → Text} (each : ∀ u ∈ us, Splits u [f u]) :
    Splits t (us.map f) := by
  rw [← List.flatMap_singleton' us, List.map_flatMap]
  exact splits.trans each

/-- Empty pieces may be left out. -/
theorem of_sublist {vs : List Text} (splits : Splits t us) (sub : vs.Sublist us)
    (names : us.flatMap paramsIn = vs.flatMap paramsIn) : Splits t vs :=
  ⟨fun v member => splits.clear v (sub.subset member), splits.names.trans names⟩

end Splits

section Ends

variable {s u : Text}

theorem Clear.cutEnd (clear : Clear (s ++ u)) (no : ':' ∉ u) (apart : Apart s u) :
    Splits (s ++ u) [s] := by
  have cut : Apart ((s ++ u).take s.length) ((s ++ u).drop s.length) := by
    rwa [List.take_left, List.drop_left]
  have front := clear.take cut
  have parts := (clear.parts cut).2.2
  have back := paramsWithin_sublist (stateAt (s ++ u) s.length).mode.quoting u
  rw [namesIn_of_no_colon no] at back
  rw [List.take_left] at front
  rw [List.take_left, List.drop_left, List.sublist_nil.mp back, List.append_nil] at parts
  exact ⟨by simpa using front, by simpa using parts⟩

theorem Clear.cutStart (clear : Clear (s ++ u)) (no : ':' ∉ s)
    (code : (stateAt (s ++ u) s.length).mode = .code) (apart : Apart s u) : Splits (s ++ u) [u] := by
  have cut : Apart ((s ++ u).take s.length) ((s ++ u).drop s.length) := by
    rwa [List.take_left, List.drop_left]
  have back := clear.drop code cut
  have outside : Outside (s ++ u) s.length := by
    rw [Outside, code]
    rfl
  have parts := clear.split outside cut
  rw [List.drop_left] at back
  rw [List.take_left, List.drop_left, paramsIn_of_no_colon no, List.nil_append] at parts
  exact ⟨by simpa using back, by simpa using parts⟩

theorem apart_of_blank_end (blank : s.getLast?.all isBlank) : Apart s u := by
  apply apart_of
  right
  cases last : s.getLast? with
  | none => simp
  | some c =>
    rw [last] at blank
    obtain ⟨noName, noColon⟩ := isNameChar_of_isBlank (by simpa using blank : isBlank c)
    simp [noName, noColon]

theorem apart_of_blank_start (blank : u.head?.all isBlank) : Apart s u := by
  apply apart_of
  left
  cases first : u.head? with
  | none => rfl
  | some c =>
    rw [first] at blank
    exact (isNameChar_of_isBlank (by simpa using blank : isBlank c)).1

theorem no_colon_of_blank (blank : ∀ c ∈ s, isBlank c) : ':' ∉ s := by
  intro member
  have isBlank := blank ':' member
  revert isBlank
  decide

theorem splits_trim {t : Text} (clear : Clear t) : Splits t [trim t] := by
  obtain ⟨front, back, parts, blankFront, blankBack⟩ := trim_spec t
  rw [parts] at clear
  have cutBack := clear.cutEnd (no_colon_of_blank blankBack) (apart_of_blank_start (by
    rw [Option.all_eq_true]
    exact fun c first => blankBack c (List.mem_of_head? first)))
  have code : (stateAt (front ++ trim t) front.length).mode = .code := by
    rw [stateAt_plain (Nat.zero_le _) (fun c member => isPlain_of_isBlank c (blankFront c ?_)) stateAt_zero]
    simpa [slice] using member
  have cutFront := cutBack.clear_one.cutStart (no_colon_of_blank blankFront) code
    (apart_of_blank_end (by
      rw [Option.all_eq_true]
      exact fun c last => blankFront c (List.mem_of_getLast? last)))
  refine ⟨cutFront.clear, ?_⟩
  conv_lhs => rw [parts]
  rw [cutBack.names_one]
  exact cutFront.names

end Ends
end QueryChain
