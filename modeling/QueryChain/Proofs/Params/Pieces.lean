import QueryChain.Proofs.Params.Clear
import QueryChain.Proofs.Keyword.Tail
import QueryChain.Sql.Pieces

namespace QueryChain

structure Separator (p : Mark → Bool) : Prop where
  top : ∀ {m}, p m → m.isTop
  plain : ∀ {m}, p m → isPlain m.char
  noName : ∀ {m}, p m → isNameChar m.char = false ∧ m.char ≠ ':'

def IsDelimiter (d : Char) : Prop := isPlain d ∧ isNameChar d = false ∧ d ≠ ':'

instance (d : Char) : Decidable (IsDelimiter d) := inferInstanceAs (Decidable (_ ∧ _))

theorem IsDelimiter.separator {d : Char} (delimiter : IsDelimiter d) : Separator (·.isTopOf d) := by
  have char {m : Mark} (top : m.isTopOf d) : m.char = d ∧ m.isTop := by
    simpa [Mark.isTopOf] using top
  refine ⟨fun top => (char top).2, fun top => ?_, fun top => ?_⟩
  · rw [(char top).1]
    exact delimiter.1
  · rw [(char top).1]
    exact delimiter.2

theorem separator_blank : Separator Mark.isTopBlank := by
  have blank {m : Mark} (top : m.isTopBlank) : isBlank m.char ∧ m.isTop := by
    simpa [Mark.isTopBlank] using top
  exact ⟨fun top => (blank top).2, fun top => isPlain_of_isBlank _ (blank top).1,
    fun top => isNameChar_of_isBlank (blank top).1⟩

section First

variable {p : Mark → Bool} {t : Text} {n : Nat}

theorem ScanState.next_separator {s : ScanState} {c : Char} {rest : Text} (top : (s.mark c rest).isTop)
    (plain : isPlain c) : s.next c rest = {} := by
  by_cases feed : c = '\n'
  · obtain ⟨mode, depth⟩ := s
    subst feed
    have role : Role.of '\n' rest = .plain := role_of_plain _ _ plain
    cases mode with
    | code =>
      have flat : depth = 0 := by simpa [Mark.isTop, Mark.isCode, mark, role] using top
      simp [next, role, flat]
    | lineComment =>
      have flat : depth = 0 := by simpa [Mark.isTop, Mark.isCode, mark] using top
      simp [next, flat]
    | quote q escaped => simp [Mark.isTop, Mark.isCode, mark] at top
    | opener => simp [Mark.isTop, Mark.isCode, mark] at top
    | blockComment star => simp [Mark.isTop, Mark.isCode, mark] at top
  · rw [s.state_of_plain_top c rest plain feed top, next_plain {} rfl c rest plain]

/-- What stands around the first separator of a text. -/
theorem first_separator (sep : Separator p) {m : Mark} {after : Marks}
    (rest : (scan t).dropWhile (!p ·) = m :: after) :
    ∃ n, t.drop n = m.char :: t.drop (n + 1) ∧ p m ∧ stateAt t (n + 1) = {} ∧
      (scan t).takeWhile (!p ·) = (scan t).take n ∧ after = scan (t.drop (n + 1)) := by
  have split := List.takeWhile_append_dropWhile (p := (!p ·)) (l := scan t)
  have found : p m := by
    have stop := List.head?_dropWhile_not (!p ·) (scan t)
    rw [rest] at stop
    simpa using stop
  generalize front : (scan t).takeWhile (!p ·) = before at split
  rw [rest] at split
  have text : t.drop before.length = m.char :: markText after := by
    rw [← markText_drop_scan, ← split, List.drop_left]
    rfl
  have at_ : (scan t)[before.length]? = some m := by
    rw [← split, List.getElem?_append_right (Nat.le_refl _), Nat.sub_self, List.getElem?_cons_zero]
  rw [mark_at text, Option.some.injEq] at at_
  have top := sep.top found
  rw [← at_] at top
  have start : stateAt t (before.length + 1) = {} := by
    rw [stateAt_succ text]
    exact ScanState.next_separator top (sep.plain found)
  have behind : (scan t).drop (before.length + 1) = after := by
    rw [← split, ← List.drop_drop, List.drop_left]
    rfl
  refine ⟨before.length, ?_, found, start, ?_, ?_⟩
  · rw [text, ← behind, markText_drop_scan]
  · rw [← split, List.take_left]
  · rw [← behind, drop_scan, start]
    rfl

theorem Clear.atSeparator (clear : Clear t) {c : Char} (text : t.drop n = c :: t.drop (n + 1))
    (noName : isNameChar c = false ∧ c ≠ ':') (start : stateAt t (n + 1) = {}) :
    Splits t [t.take n, t.drop (n + 1)] := by
  have inText : n < t.length := by
    by_contra beyond
    rw [List.drop_eq_nil_of_le (by omega)] at text
    cases text
  have front : t.take (n + 1) = t.take n ++ [c] := by
    rw [List.take_add, text]
    rfl
  have apart : Apart (t.take (n + 1)) (t.drop (n + 1)) := by
    apply apart_of
    right
    rw [front, List.getLast?_append]
    simp [noName]
  have clearFront := clear.take apart
  have names := clear.split (outside_of_state start) apart
  rw [front] at clearFront
  have shorter := clearFront.cutEnd (by simp [noName.2.symm]) (apart_of (.inl (by simp [noName.1])))
  refine ⟨?_, ?_⟩
  · intro u member
    rcases List.mem_pair.mp member with rfl | rfl
    · exact shorter.clear_one
    · exact clear.drop (by rw [start]) apart
  · rw [names, front, shorter.names_one]
    simp

end First

section Cuts

theorem markText_take_scan {t : Text} (n : Nat) : markText ((scan t).take n) = t.take n := by
  rw [markText, List.map_take, ← markText, markText_scan]

theorem splits_splitOnP {p : Mark → Bool} (sep : Separator p) {t : Text} (clear : Clear t) :
    Splits t (((scan t).splitOnP p).map markText) := by
  cases rest : (scan t).dropWhile (!p ·) with
  | nil =>
    have none : ∀ m ∈ scan t, p m = false := by
      simpa using List.dropWhile_eq_nil_iff.mp rest
    rw [List.splitOnP_eq_singleton none, List.map_singleton, markText_scan]
    exact .self clear
  | cons m after =>
    obtain ⟨n, text, found, start, front, rfl⟩ := first_separator sep rest
    have two := clear.atSeparator text (sep.noName found) start
    have shorter : (t.drop (n + 1)).length < t.length := by
      have lengths := congrArg List.length text
      simp only [List.length_drop, List.length_cons] at lengths ⊢
      omega
    have more := splits_splitOnP sep (two.clear (t.drop (n + 1)) (by simp))
    have none : ∀ m ∈ (scan t).take n, p m = false := by
      intro m member
      rw [← front] at member
      simpa using List.mem_takeWhile_imp member
    have parts : scan t = (scan t).take n ++ m :: scan (t.drop (n + 1)) := by
      rw [← rest, ← front, List.takeWhile_append_dropWhile]
    rw [parts, List.splitOnP_append_cons_of_forall_mem none m found, List.map_cons, markText_take_scan]
    refine ⟨?_, ?_⟩
    · intro u member
      rcases List.mem_cons.mp member with rfl | later
      · exact two.clear _ (by simp)
      · exact more.clear u later
    · rw [two.names, List.flatMap_cons, List.flatMap_cons, List.flatMap_cons, List.flatMap_nil,
        List.append_nil, more.names]
termination_by t.length

variable {t : Text}

theorem flatMap_paramsIn_empty {us : List Text} (empty : ∀ u ∈ us, u = []) : us.flatMap paramsIn = [] := by
  rw [List.flatMap_eq_nil_iff]
  intro u member
  rw [empty u member]
  rfl

theorem Splits.dropEmpty {us : List Text} (splits : Splits t us) : Splits t (us.filter (· ≠ [])) := by
  apply splits.of_sublist List.filter_sublist
  clear splits
  induction us with
  | nil => rfl
  | cons u us ih =>
    rw [List.flatMap_cons, ih, List.filter_cons]
    by_cases empty : u = []
    · simp [empty, paramsIn, paramsFrom]
    · simp [empty]

theorem splits_splitTop {d : Char} (delimiter : IsDelimiter d) (clear : Clear t) :
    Splits t (splitTop d t) := by
  have pieces := splits_splitOnP delimiter.separator clear
  have trimmed := pieces.map fun u member => splits_trim (pieces.clear u member)
  rw [List.map_map] at trimmed
  have kept := dropEndWhile_append_takeWhile List.isEmpty
    (((scan t).splitOnP (·.isTopOf d)).map (trim ∘ markText))
  have dropped : ∀ u ∈ ((((scan t).splitOnP (·.isTopOf d)).map (trim ∘ markText)).reverse.takeWhile
      List.isEmpty).reverse, u = [] := by
    intro u member
    simpa using List.mem_takeWhile_imp (List.mem_reverse.mp member)
  apply trimmed.of_sublist
  · exact List.IsPrefix.sublist ⟨_, kept⟩
  · conv_lhs => rw [← kept]
    rw [List.flatMap_append, flatMap_paramsIn_empty dropped, List.append_nil]
    rfl

theorem splits_tokens (clear : Clear t) : Splits t (tokens t) := by
  have pieces := (splits_splitOnP separator_blank clear).dropEmpty
  rw [List.filter_map] at pieces
  have same : ((fun u : Text => decide (u ≠ [])) ∘ markText) = fun ms : Marks => decide (ms ≠ []) := by
    funext ms
    simp [markText]
  rwa [same] at pieces

theorem splits_cutTop? {d : Char} {before after : Text} (delimiter : IsDelimiter d)
    (found : cutTop? d t = some (before, after)) (clear : Clear t) : Splits t [before, after] := by
  rw [cutTop?] at found
  cases rest : (scan t).dropWhile (!·.isTopOf d) with
  | nil =>
    rw [rest] at found
    cases found
  | cons m more =>
    rw [rest] at found
    cases found
    obtain ⟨n, text, found, start, front, rfl⟩ := first_separator delimiter.separator rest
    rw [front, markText_take_scan, markText_scan]
    exact clear.atSeparator text (delimiter.separator.noName found) start

theorem splits_parentheses {inner : Text} (clear : Clear ('(' :: inner ++ [')'])) :
    Splits ('(' :: inner ++ [')']) [inner] := by
  have closed := clear.cutEnd (by decide) (apart_of (.inl (by simp; decide)))
  have code : (stateAt (['('] ++ inner) 1).mode = .code := by
    have text : (['('] ++ inner).drop 0 = '(' :: inner := rfl
    rw [show 1 = 0 + 1 from rfl, stateAt_succ text, stateAt_zero]
    simp [ScanState.next, role_opening]
  have opened := Clear.cutStart (s := ['(']) closed.clear_one (by decide) code
    (apart_of (.inr (by simp; decide)))
  exact ⟨opened.clear, closed.names_one.trans opened.names⟩

theorem splits_groupBody (clear : Clear t) : Splits t [groupBody t] := by
  have trimmed := splits_trim clear
  rw [groupBody]
  by_cases group : isGroup (trim t)
  · rw [if_pos group]
    simp only [isGroup, trim_trim, Bool.and_eq_true, beq_iff_eq] at group
    obtain ⟨⟨⟨first, last⟩, -⟩, -⟩ := group
    obtain ⟨inner, parts⟩ : ∃ inner, trim t = '(' :: inner ++ [')'] := by
      cases whole : trim t with
      | nil =>
        rw [whole] at first
        cases first
      | cons c rest =>
        rw [whole] at first last
        obtain rfl := Option.some.inj first
        cases end_ : rest.getLast? with
        | none =>
          rw [List.getLast?_eq_none_iff] at end_
          rw [end_] at last
          simp at last
        | some d =>
          rw [List.getLast?_cons, end_] at last
          obtain rfl := Option.some.inj last
          obtain ⟨inner, rfl⟩ := List.getLast?_eq_some_iff.mp end_
          exact ⟨inner, rfl⟩
    have inside : (trim t).tail.dropLast = inner := by simp [parts]
    rw [inside]
    have clearGroup := trimmed.clear_one
    rw [parts] at clearGroup
    have group := splits_parentheses clearGroup
    have body := splits_trim group.clear_one
    refine ⟨body.clear, ?_⟩
    rw [trimmed.names_one, parts, group.names_one]
    exact body.names
  · rw [if_neg group]
    exact trimmed

end Cuts
end QueryChain
