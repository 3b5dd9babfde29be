import QueryChain.Proofs.Params.Values
import QueryChain.Statement.Assignment

namespace QueryChain

variable {t u : Text}

section Infixes

theorem infix_of_mem_splitOnP {α : Type} {p : α → Bool} (l : List α) {piece : List α}
    (member : piece ∈ l.splitOnP p) : piece <:+: l := by
  rcases splitOnP_last p l with one | ⟨front, sep, last, parts, -, pieces⟩
  · rw [one, List.mem_singleton] at member
    exact member ▸ List.infix_refl _
  · rw [pieces, List.mem_append, List.mem_singleton] at member
    rcases member with earlier | rfl
    · have shorter : front.length < l.length := by simp [parts]
      have inFront := infix_of_mem_splitOnP front earlier
      rw [parts]
      exact inFront.trans (List.prefix_append _ _).isInfix
    · exact ⟨front ++ [sep], [], by simp [parts]⟩
termination_by l.length

theorem infix_trim (t : Text) : trim t <:+: t := by
  obtain ⟨front, back, parts, -, -⟩ := trim_spec t
  exact ⟨front, back, parts.symm⟩

theorem exists_of_mem_splitTop {d : Char} (member : u ∈ splitTop d t) :
    ∃ ms ∈ (scan t).splitOnP (·.isTopOf d), u = trim (markText ms) := by
  have kept := dropEndWhile_append_takeWhile List.isEmpty (((scan t).splitOnP (·.isTopOf d)).map (trim <| markText ·))
  have listed : u ∈ ((scan t).splitOnP (·.isTopOf d)).map (trim <| markText ·) := by
    rw [← kept]
    exact List.mem_append_left _ member
  obtain ⟨ms, piece, same⟩ := List.mem_map.mp listed
  exact ⟨ms, piece, same.symm⟩

theorem infix_of_mem_splitTop {d : Char} (member : u ∈ splitTop d t) : u <:+: t := by
  obtain ⟨ms, piece, rfl⟩ := exists_of_mem_splitTop member
  have text := (infix_of_mem_splitOnP _ piece).map Mark.char
  rw [← markText, ← markText, markText_scan] at text
  exact (infix_trim _).trans text

theorem infix_groupBody (t : Text) : groupBody t <:+: t := by
  rw [groupBody]
  by_cases group : isGroup (trim t)
  · rw [if_pos group]
    have inner := (List.dropLast_prefix (trim t).tail).isInfix.trans (List.tail_suffix (trim t)).isInfix
    exact ((infix_trim _).trans inner).trans (infix_trim t)
  · rw [if_neg group]
    exact infix_trim t

theorem infix_unquoted (segment : Text) : unquoted segment <:+: segment := by
  rw [unquoted]
  split
  · have inner := (List.dropLast_prefix (trim segment).tail).isInfix.trans
      (List.tail_suffix (trim segment)).isInfix
    exact inner.trans (infix_trim segment)
  · exact infix_trim segment

theorem infix_of_mem_segments (member : u ∈ segments t) : u <:+: t := by
  obtain ⟨segment, piece, rfl⟩ := List.mem_map.mp member
  exact ((infix_unquoted segment).trans (infix_of_mem_splitTop piece)).trans (infix_trim t)

theorem infix_of_joinWith {w : Text} {c : Char} {parts : List Text} (full : w ≠ []) (no : c ∉ w)
    (inside : w <:+: joinWith [c] parts) : ∃ part ∈ parts, w <:+: part := by
  induction parts with
  | nil =>
    rw [joinWith, List.intercalate_nil] at inside
    exact absurd (List.infix_nil.mp inside) full
  | cons part parts ih =>
    cases parts with
    | nil =>
      rw [joinWith, List.intercalate_singleton] at inside
      exact ⟨part, by simp, inside⟩
    | cons next parts =>
      rw [joinWith, List.intercalate_cons_cons, List.append_assoc, List.singleton_append] at inside
      rcases infix_of_append_cons no inside with here | later
      · exact ⟨part, by simp, here⟩
      · obtain ⟨found, member, there⟩ := ih later
        exact ⟨found, List.mem_cons_of_mem _ member, there⟩

end Infixes
section Marker

theorem namesIn_of_no_marker (free : ¬paramMarker <:+: t) : namesIn t = [] := by
  induction t with
  | nil => rfl
  | cons c t ih =>
    have rest := ih fun inside => free (inside.trans (List.suffix_cons c t).isInfix)
    rw [namesIn, rest, paramAtStart?_eq_none]
    · rfl
    · intro more eq
      exact free (eq ▸ (List.prefix_append _ _).isInfix)

theorem paramsIn_of_no_marker (free : ¬paramMarker <:+: t) : paramsIn t = [] := by
  have names := paramsIn_sublist t
  rw [namesIn_of_no_marker free] at names
  exact List.sublist_nil.mp names

theorem paramsIn_columnName_of_no_marker (free : ¬paramMarker <:+: t) : paramsIn (columnName t) = [] := by
  apply paramsIn_of_no_marker
  intro inside
  rw [columnName, List.getLastD_eq_getLast?] at inside
  cases last : (segments t).getLast? with
  | none =>
    rw [last] at inside
    have empty := List.infix_nil.mp inside
    revert empty
    decide
  | some segment =>
    rw [last, Option.getD_some] at inside
    exact free (inside.trans (infix_of_mem_segments (List.mem_of_getLast? last)))

theorem paramsIn_plainName_of_no_marker (free : ¬paramMarker <:+: t) : paramsIn (plainName t) = [] := by
  apply paramsIn_of_no_marker
  intro inside
  obtain ⟨segment, member, there⟩ := infix_of_joinWith (by decide) (by decide) inside
  exact free (there.trans (infix_of_mem_segments member))

end Marker
section Unquoting

theorem namesIn_blank_append {blanks : Text} (blank : ∀ c ∈ blanks, isBlank c) (t : Text) :
    namesIn (blanks ++ t) = namesIn t := by
  rw [namesIn_append _ _ (apart_of_blank_end (by
      rw [Option.all_eq_true]
      exact fun c last => blank c (List.mem_of_getLast? last))),
    namesIn_of_no_colon (no_colon_of_blank blank), List.nil_append]

theorem namesIn_trim (t : Text) : namesIn (trim t) = namesIn t := by
  obtain ⟨front, back, parts, blankFront, blankBack⟩ := trim_spec t
  conv_rhs => rw [parts]
  rw [List.append_assoc, namesIn_blank_append blankFront,
    namesIn_append _ _ (apart_of_blank_start (by
      rw [Option.all_eq_true]
      exact fun c first => blankBack c (List.mem_of_head? first))),
    namesIn_of_no_colon (no_colon_of_blank blankBack), List.append_nil]

theorem eq_of_ends {c d : Char} (long : 2 ≤ t.length) (first : t.head? = some c)
    (last : t.getLast? = some d) : t = c :: t.tail.dropLast ++ [d] := by
  cases t with
  | nil => cases first
  | cons c' rest =>
    obtain rfl := Option.some.inj first
    obtain ⟨inner, eq⟩ := List.getLast?_eq_some_iff.mp last
    cases inner with
    | nil =>
      rw [eq] at long
      simp at long
    | cons e inner =>
      obtain ⟨-, rfl⟩ := List.cons.inj eq
      simp

theorem namesIn_between {q : Char} (noName : isNameChar q = false ∧ q ≠ ':') (inner : Text) :
    namesIn (q :: inner ++ [q]) = namesIn inner := by
  have closing : namesIn [q] = [] := namesIn_of_no_colon (by simpa using noName.2.symm)
  rw [List.cons_append, namesIn, paramAtStart?_other noName.2,
    namesIn_append _ _ (apart_of (.inl (by simpa using noName.1))), closing, List.append_nil]
  rfl

theorem namesIn_unquoted (segment : Text) : namesIn (unquoted segment) = namesIn segment := by
  rw [unquoted]
  by_cases quoted : 2 ≤ (trim segment).length ∧
      (((trim segment).head? = some '`' ∧ (trim segment).getLast? = some '`') ∨
        ((trim segment).head? = some '"' ∧ (trim segment).getLast? = some '"'))
  · rw [if_pos quoted, ← namesIn_trim segment]
    obtain ⟨long, ⟨first, last⟩ | ⟨first, last⟩⟩ := quoted
    · conv_rhs => rw [eq_of_ends long first last]
      rw [namesIn_between (by decide)]
    · conv_rhs => rw [eq_of_ends long first last]
      rw [namesIn_between (by decide)]
  · rw [if_neg quoted]
    exact namesIn_trim segment

theorem namesIn_joinWith (parts : List Text) :
    namesIn (joinWith ".".toList parts) = parts.flatMap namesIn := by
  induction parts with
  | nil => rfl
  | cons part parts ih =>
    cases parts with
    | nil => simp [joinWith]
    | cons next parts =>
      have dot (u : Text) : namesIn ('.' :: u) = namesIn u := by
        rw [namesIn, paramAtStart?_other (by decide)]
        rfl
      rw [joinWith, List.intercalate_cons_cons, List.append_assoc,
        namesIn_append _ _ (apart_of (.inl (by simp; decide))), List.flatMap_cons, ← ih]
      exact congrArg _ (dot _)

/-- Unquoting leaves all the names in a name, but not all of them outside quotes. -/
theorem namesIn_segments (clear : Clear t) : (segments t).flatMap namesIn = paramsIn t := by
  have trimmed := splits_trim clear
  have pieces := splits_splitTop (d := '.') (by decide) trimmed.clear_one
  rw [trimmed.names_one, pieces.names, segments, List.flatMap_map]
  exact List.flatMap_congr fun u member => by rw [namesIn_unquoted, (pieces.clear u member).shown]

theorem paramsIn_plainName_sublist (clear : Clear t) : (paramsIn (plainName t)).Sublist (paramsIn t) := by
  have names := paramsIn_sublist (plainName t)
  rwa [plainName, namesIn_joinWith, namesIn_segments clear] at names

theorem paramsIn_columnName_sublist (clear : Clear t) : (paramsIn (columnName t)).Sublist (paramsIn t) := by
  have names := paramsIn_sublist (columnName t)
  rw [columnName, List.getLastD_eq_getLast?] at names ⊢
  cases last : (segments t).getLast? with
  | none => exact List.nil_sublist _
  | some segment =>
    rw [last, Option.getD_some] at names
    rw [Option.getD_some, ← namesIn_segments clear]
    obtain ⟨front, eq⟩ := List.getLast?_eq_some_iff.mp last
    rw [eq, List.flatMap_append]
    exact names.trans (by simp)

end Unquoting
end QueryChain
