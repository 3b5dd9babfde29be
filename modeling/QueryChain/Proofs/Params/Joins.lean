import QueryChain.Proofs.Keyword.Words
import QueryChain.Statement.Join

namespace QueryChain

section Qualifiers

variable {t : Text}

theorem isKeyword_joinWord (w : JoinWord) : IsKeyword [w.word] := by cases w <;> decide

theorem splits_lastQualifier? {front word : Text} (found : lastQualifier? t = some (front, word))
    (clear : Clear t) : Splits t [front] := by
  rw [lastQualifier?] at found
  by_cases qualifier :
      upper (((trimEnd t).reverse.takeWhile (!isBlank ·)).reverse) ∈ joinQualifiers
  · rw [if_pos qualifier] at found
    cases found
    have parts := dropEndWhile_append_takeWhile (!isBlank ·) (trimEnd t)
    have whole := dropEndWhile_append_takeWhile isBlank t
    have blank : ∀ c ∈ (t.reverse.takeWhile isBlank).reverse, isBlank c := fun c member =>
      List.mem_takeWhile_imp (List.mem_reverse.mp member)
    have letters : ':' ∉ ((trimEnd t).reverse.takeWhile (!isBlank ·)).reverse := by
      intro member
      have capital : ∀ w ∈ joinQualifiers, ∀ c ∈ w, c ≠ ':' := by decide
      exact capital _ qualifier ':'.toUpper (List.mem_map_of_mem member) (by decide)
    rw [← trimEnd] at whole
    rw [← whole] at clear
    have trimmed := clear.cutEnd (no_colon_of_blank blank) (apart_of_blank_start (by
      rw [Option.all_eq_true]
      exact fun c first => blank c (List.mem_of_head? first)))
    have clearEnd := trimmed.clear_one
    rw [← parts] at clearEnd
    have cut := clearEnd.cutEnd letters (apart_of_blank_end (by
      rw [Option.all_eq_true]
      intro c last
      have stop := List.head?_dropWhile_not (!isBlank ·) (trimEnd t).reverse
      rw [dropEndWhile, List.getLast?_reverse] at last
      rw [last] at stop
      simpa using stop))
    refine ⟨cut.clear, ?_⟩
    conv_lhs => rw [← whole]
    rw [trimmed.names_one]
    conv_lhs => rw [← parts]
    exact cut.names
  · rw [if_neg qualifier] at found
    cases found

theorem splits_dropQualifiers (fuel : Nat) (found : List Text) (clear : Clear t) :
    Splits t [(dropQualifiers fuel t found).1] := by
  induction fuel generalizing t found with
  | zero => exact .self clear
  | succ fuel ih =>
    rw [dropQualifiers]
    cases last : lastQualifier? t with
    | none => exact .self clear
    | some frontWord =>
      obtain ⟨front, word⟩ := frontWord
      have cut := splits_lastQualifier? last clear
      have rest := ih (word :: found) cut.clear_one
      exact ⟨rest.clear, cut.names_one.trans rest.names⟩

theorem splits_trailingQualifiers (clear : Clear t) : Splits t [(trailingQualifiers t).1] :=
  splits_dropQualifiers t.length [] clear

theorem names_assignQualifiers (front : Text) (parts : List (JoinWord × Text))
    (clear : ∀ u ∈ front :: parts.map Prod.snd, Clear u) :
    (∀ u ∈ (assignQualifiers front parts).1 :: (assignQualifiers front parts).2.map JoinText.body,
      Clear u) ∧
    ((assignQualifiers front parts).1 :: (assignQualifiers front parts).2.map JoinText.body).flatMap
      paramsIn = (front :: parts.map Prod.snd).flatMap paramsIn := by
  induction parts generalizing front with
  | nil => exact ⟨clear, rfl⟩
  | cons part parts ih =>
    obtain ⟨word, behind⟩ := part
    obtain ⟨clearRest, names⟩ := ih behind fun u member => clear u (List.mem_cons_of_mem _ member)
    have clearFront := clear front (by simp)
    cases word with
    | join =>
      have cut := splits_trailingQualifiers clearFront
      refine ⟨?_, ?_⟩
      · intro u member
        rcases List.mem_cons.mp member with rfl | later
        · exact cut.clear_one
        · exact clearRest u later
      · rw [List.flatMap_cons, List.map_cons, List.flatMap_cons, cut.names_one, ← names]
        rfl
    | straightJoin =>
      refine ⟨?_, ?_⟩
      · intro u member
        rcases List.mem_cons.mp member with rfl | later
        · exact clearFront
        · exact clearRest u later
      · rw [List.flatMap_cons, List.map_cons, List.flatMap_cons, ← names]
        rfl

theorem splits_cutJoins (clear : Clear t) :
    Splits t ((cutJoins t).1 :: (cutJoins t).2.map JoinText.body) := by
  have cut : CutAt JoinWord.word t 0
      (cutWords (·.word.length) 0 (Cursor.annotate joinWordAt? none (scan t))).1
      (cutWords (·.word.length) 0 (Cursor.annotate joinWordAt? none (scan t))).2 := by
    apply cutAt_cutWords
    · rw [map_fst_annotate, markText_scan]
    · exact isKeyword_joinWord
    · intro n c w found
      exact stands_of_annotate (isKeyword_joinWord w) (fun _ => rfl) found
  have whole : t.drop 0 = t := List.drop_zero
  have pieces := cut.splits isKeyword_joinWord (by intro w; cases w <;> decide) (by rwa [whole])
    stateAt_zero
  rw [whole] at pieces
  obtain ⟨clearAll, names⟩ := names_assignQualifiers _ _ pieces.clear
  exact ⟨clearAll, pieces.names.trans names.symm⟩

end Qualifiers
section Segments

variable {t : Text}

/-- A join without a list of columns consists of its table and its condition. -/
theorem splits_segment {j : JoinText} (noUsing : j.segment.usesUsing = false) (clear : Clear j.body) :
    Splits j.body (j.segment.table :: j.segment.condition.toList) := by
  have areKeywords : ∀ k ∈ ([["ON"], ["USING"]] : List Keyword), IsKeyword k := by decide
  have noWord : ∀ p q, ¬Stands j.body ["USING"] p q := by
    intro p q stands
    have missed : (Cursor.start j.body).find? [["USING"]] = none := by
      simpa [JoinText.segment, hasKeyword] using noUsing
    have less := stands.lt (by decide)
    have bound := stands.bound
    rw [← cursorAt_zero] at missed
    exact find?_cursorAt_eq_none (by decide) missed p (Nat.zero_le p) (by omega)
      ⟨["USING"], by simp, q, stands⟩
  obtain ⟨e, -, bound, table, inside, stop⟩ := upTo_cursorAt areKeywords (Nat.zero_le j.body.length)
  rw [cursorAt_zero] at table
  have notInside : ∀ i < e, ∀ q, ¬Stands j.body ["ON"] i q := fun i less q stands =>
    inside i (Nat.zero_le i) less ⟨["ON"], by simp, q, stands⟩
  cases found : (Cursor.start j.body).find? [["ON"]] with
  | none =>
    have atEnd : e = j.body.length := by
      rcases stop with atEnd | ⟨k, member, q, stands⟩
      · exact atEnd
      · exfalso
        have isKeyword := areKeywords k member
        have less := stands.lt isKeyword
        have inText := stands.bound
        rcases List.mem_pair.mp member with rfl | rfl
        · rw [← cursorAt_zero] at found
          exact find?_cursorAt_eq_none (by decide) found e (Nat.zero_le e) (by omega)
            ⟨["ON"], by simp, q, stands⟩
        · exact noWord e q stands
    have whole : j.segment.table = trim j.body := by
      rw [JoinText.segment]
      dsimp only
      rw [table, atEnd, slice, List.take_length, List.drop_zero]
    have noCondition : j.segment.condition = none := by
      rw [JoinText.segment]
      dsimp only
      rw [found]
      rfl
    rw [whole, noCondition]
    exact splits_trim clear
  | some passedAfter =>
    obtain ⟨passed, after⟩ := passedAfter
    have here := found
    rw [← cursorAt_zero] at here
    obtain ⟨p, -, -, before, k, member, q, stands, rfl⟩ :=
      find?_cursorAt (by decide) (Nat.zero_le _) here
    obtain rfl := List.mem_singleton.mp member
    have same : e = p := by
      have less := stands.lt (by decide)
      have inText := stands.bound
      by_contra other
      by_cases earlier : p < e
      · exact notInside p earlier q stands
      · rcases stop with atEnd | ⟨k', member', q', stands'⟩
        · omega
        · rcases List.mem_pair.mp member' with rfl | rfl
          · exact before e (Nat.zero_le e) (by omega) ⟨["ON"], by simp, q', stands'⟩
          · exact noWord e q' stands'
    subst same
    have start : stateAt j.body 0 = {} := stateAt_zero
    have two := Clear.atWord (a := 0) (by rwa [List.drop_zero]) start (by decide) (by decide)
      (Nat.zero_le e) stands
    rw [List.drop_zero] at two
    have trimmed := two.map fun u member => splits_trim (two.clear u member)
    have tablePart : j.segment.table = trim (slice 0 e j.body) := by
      rw [JoinText.segment]
      dsimp only
      rw [table]
    have conditionPart : j.segment.condition = some (trim (j.body.drop q)) := by
      rw [JoinText.segment]
      dsimp only
      rw [found, Option.map_some, text_cursorAt]
    rw [tablePart, conditionPart]
    exact trimmed

/-- What a join is resolved to: its table is named in full, and its condition is kept. -/
theorem resolve_ok {reserved : ReservedWords} {s : JoinSegment} {join : Join} {issue : Option Issue}
    (ok : s.resolve reserved = .ok (join, issue)) :
    s.usesUsing = false ∧ ∃ f, TableFragment.ofText? reserved s.table = some f ∧
      f.checkTrailing "JOIN" = .ok issue ∧ join.table = f.table ∧
      join.condition = s.condition.filter (· ≠ []) := by
  simp only [JoinSegment.resolve, bind, Except.bind, throw, throwThe, MonadExceptOf.throw, pure,
    Except.pure] at ok
  split_ifs at ok with natural usesUsing derived mixed
  cases read : TableFragment.ofText? reserved s.table with
  | none =>
    rw [read] at ok
    cases ok
  | some f =>
    rw [read] at ok
    cases trailing : f.checkTrailing "JOIN" with
    | error fault =>
      simp only [trailing] at ok
      cases ok
    | ok found =>
      simp only [trailing] at ok
      cases ok
      exact ⟨by simpa using usesUsing, f, rfl, trailing, rfl, rfl⟩

end Segments
end QueryChain
