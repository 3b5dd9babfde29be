import QueryChain.Proofs.Bytes.Split
import QueryChain.Proofs.Params.Pieces
import QueryChain.Proofs.Keyword.Skipping
import QueryChain.Proofs.Keyword.Tail

namespace QueryChain

namespace Bytewise

def section? (k : Keyword) (ends : List Keyword) (sql : Text) : Option (Option Text) := do
  match ← keywordSpan? sql k 0 with
  | none => return none
  | some (_, start) =>
    let stops ← ends.mapM (keywordSpan? sql · start)
    let stop := ((stops.filterMap id).map Prod.fst).min?.getD (byteSize sql)
    return some (trim (← part? sql start stop))

def fromSection? : Text → Option (Option Text) := section? ["FROM"] (["WHERE"] :: bodyEnds)

def whereSection? : Text → Option (Option Text) := section? ["WHERE"] bodyEnds

def groupBySection? : Text → Option (Option Text) := section? ["GROUP", "BY"] (bodyEnds.drop 1)

def havingSection? : Text → Option (Option Text) := section? ["HAVING"] (bodyEnds.drop 2)

def orderBySection? : Text → Option (Option Text) := section? ["ORDER", "BY"] (bodyEnds.drop 4)

def limitSection? : Text → Option (Option Text) := section? ["LIMIT"] (bodyEnds.drop 5)

def offsetSection? : Text → Option (Option Text) := section? ["OFFSET"] (bodyEnds.drop 6)

def setSection? : Text → Option (Option Text) := section? ["SET"] [["WHERE"], ["ORDER", "BY"], ["LIMIT"]]

def selectSection? (sql : Text) : Option (Option (Bool × Text)) := do
  match ← section? ["SELECT"] listEnds sql with
  | none => return none
  | some body =>
    match ← afterKeyword? ["DISTINCT"] body with
    | some list => return some (true, trim list)
    | none =>
      match ← afterKeyword? ["ALL"] body with
      | some list => return some (false, trim list)
      | none => return some (false, body)

def skipRun? (sql : Text) (ks : List Keyword) : Nat → Nat → Option Nat
  | 0, start => some start
  | fuel + 1, start => do
    let blanks ← blanks? sql start
    match ← ks.findSomeM? (keyword? sql (start + blanks)) with
    | some stop => skipRun? sql ks fuel stop
    | none => return start

def skipAny? (sql : Text) (ks : List Keyword) (start : Nat) : Option Nat := do
  skipRun? sql ks (← from? sql start).length start

def updateTarget? (sql : Text) : Option (Option Text) := do
  match ← keywordSpan? sql ["UPDATE"] 0 with
  | none => return none
  | some (_, behind) =>
    let start ← skipAny? sql [["LOW_PRIORITY"], ["IGNORE"]] behind
    let stop := ((← keywordSpan? sql ["SET"] start).map Prod.fst).getD (byteSize sql)
    return some (trim (← part? sql start stop))

def deleteParts? (sql : Text) : Option (Option DeleteParts) := do
  match ← keywordSpan? sql ["DELETE"] 0 with
  | none => return none
  | some (_, behind) =>
    let start ← skipAny? sql [["LOW_PRIORITY"], ["QUICK"], ["IGNORE"]] behind
    match ← keywordSpan? sql ["FROM"] start with
    | none => return some ⟨[], none⟩
    | some (stop, _) =>
      let targets ← splitTop? ',' (← part? sql start stop)
      return some ⟨targets, ← fromSection? sql⟩

def opensQuery? (t : Text) : Option Bool := do
  if t.head? = some '(' then
    return (← keyword? (trimStart (← from? t 1)) 0 ["SELECT"]).isSome
  else return false

def leadingGroup? (t : Text) : Option (Option (Text × Text)) := do
  match ((← scan? t).tail.find? (·.2.isTopOf ')')).map Prod.fst with
  | none => return none
  | some close => return some (← part? t 0 (close + 1), ← from? t (close + 1))

def insertBody? (t : Text) : Option InsertBody := do
  match (← afterKeyword? ["VALUES"] t).or (← afterKeyword? ["VALUE"] t) with
  | some values => return .values (trim values)
  | none =>
    match ← afterKeyword? ["SET"] t with
    | some pairs => return .set (trim pairs)
    | none =>
      if (← afterKeyword? ["SELECT"] t).isSome || (← opensQuery? t) then return .query t else return .missing

def insertParts? (sql : Text) : Option (Option InsertParts) := do
  match ← keywordSpan? sql ["INSERT"] 0 with
  | none => return none
  | some (_, behind) =>
    let into ← skipAny? sql [["LOW_PRIORITY"], ["DELAYED"], ["HIGH_PRIORITY"], ["IGNORE"]] behind
    let target := trimStart (← from? sql (← skipAny? sql [["INTO"]] into))
    let size := (((← scan? target).find? (endsTable ·.2)).map Prod.fst).getD (byteSize target)
    if size = 0 then return none
    let table ← upTo? target size
    let rest := trimStart (← from? target size)
    if rest.head? == some '(' && !(← opensQuery? rest) then
      match ← leadingGroup? rest with
      | none => return none
      | some (columns, after) => return some ⟨table, some columns, ← insertBody? (trimStart after)⟩
    else return some ⟨table, none, ← insertBody? rest⟩

end Bytewise

section Lists

variable {α β γ : Type} {l : List α}

theorem mapM_some {f : α → Option β} {g : α → β} (each : ∀ a ∈ l, f a = some (g a)) : l.mapM f = some (l.map g) := by
  induction l with
  | nil => rfl
  | cons a l ih =>
    rw [List.mapM_cons, each a (by simp), ih fun b member => each b (by simp [member])]
    rfl

theorem findSomeM?_some {f : α → Option (Option γ)} {g : α → Option β} {h : β → γ}
    (each : ∀ a ∈ l, f a = some ((g a).map h)) : l.findSomeM? f = some ((l.findSome? g).map h) := by
  induction l with
  | nil => rfl
  | cons a l ih =>
    rw [List.findSomeM?_cons, each a (by simp), List.findSome?_cons]
    cases g a with
    | some b => rfl
    | none => exact ih fun b member => each b (by simp [member])

end Lists

section Words

variable {t : Text} {n : Nat}

theorem isWordChar_of_letters {q u : Text} (capital : ∀ c ∈ q, isCapital c) (letters : upper q = upper u) :
    ∀ c ∈ u, isWordChar c := fun c member =>
  isWordChar_of_isKeywordChar c (isKeywordChar_of_upper capital letters c member)

/-- The characters of a word that stands in a text have word characters in front of them. -/
theorem before_of_stands {w : Text} {q i : Nat} (isKeyword : IsKeyword [w]) (stands : Stands t [w] n q)
    (behind : n < i) (inside : i ≤ q) : (cursorAt t i).before.any isWordChar := by
  have bound := stands.bound
  have full : slice n i t ≠ [] := by
    rw [← List.length_pos_iff, length_slice (by omega)]
    omega
  have letters : ∀ c ∈ slice n q t, isWordChar c := by
    cases stands.spells with
    | word same => exact isWordChar_of_letters (isKeyword.2 w (by simp)).2 same
  rw [before_eq_getLast? (by omega), ← take_append_slice (Nat.le_of_lt behind), getLast?_append_of_ne_nil full,
    List.getLast?_eq_some_getLast full, Option.any_some]
  apply letters
  rw [← slice_append (Nat.le_of_lt behind) inside bound]
  exact List.mem_append_left _ (List.getLast_mem full)

/-- What a probe answers at a character and behind it. -/
theorem annotate_drop {α : Type} (probe : Cursor → Option α) (bound : n < t.length) :
    (Cursor.annotate probe none (scan t)).drop n =
      (t[n], probe (cursorAt t n)) :: (Cursor.annotate probe none (scan t)).drop (n + 1) := by
  have inScan : n < (scan t).length := by simpa using bound
  have there := getElem?_annotate probe (Cursor.start t) n
  have char : ((scan t)[n]).char = t[n] := by
    have chars : (markText (scan t))[n]? = t[n]? := by rw [markText_scan]
    rw [markText, List.getElem?_map, List.getElem?_eq_getElem inScan, List.getElem?_eq_getElem bound] at chars
    exact Option.some.inj chars
  have length : (Cursor.annotate probe none (scan t)).length = t.length := by
    rw [← List.length_map (f := Prod.fst), map_fst_annotate, markText_scan]
  have marks : (Cursor.start t).marks[n]? = some ((scan t)[n]) := List.getElem?_eq_getElem inScan
  rw [marks, Option.map_some, char] at there
  obtain ⟨inMarks, here⟩ := List.getElem?_eq_some_iff.mp there
  rw [List.drop_eq_getElem_cons (by omega)]
  exact congrArg (· :: _) here

end Words

namespace Bytewise

section Clauses

variable {sql : Text} {n : Nat} {k : Keyword} {ks : List Keyword}

theorem keyword?_of_stands {t : Text} {q : Nat} (isKeyword : IsKeyword k) (stands : Stands t k n q) :
    keyword? t (place t n) k = some (some (place t q)) := by
  have here := ((keyword?_cursorAt isKeyword (stands.le.trans stands.bound)).mpr ⟨q, stands, rfl⟩).2
  rw [keyword?_place isKeyword (stands.le.trans stands.bound), here, Option.map_some, place_cursorAt]

theorem keyword?_eq_none {t : Text} (isKeyword : IsKeyword k) (inText : n ≤ t.length)
    (missed : (cursorAt t n).startsWith k = false) : keyword? t (place t n) k = some none := by
  have none_ : (cursorAt t n).keyword? k = none := by simpa [Cursor.startsWith] using missed
  rw [keyword?_place isKeyword inText, none_, Option.map_none]

/-- A found keyword by the characters where it starts and ends. -/
theorem find?_one {passed : Text} {after : Cursor} (isKeyword : IsKeyword k) (inText : n ≤ sql.length)
    (found : (cursorAt sql n).find? [k] = some (passed, after)) :
    ∃ p q, n ≤ p ∧ passed = slice n p sql ∧ n + passed.length = p ∧ Stands sql k p q ∧ after = cursorAt sql q ∧
      ∀ i, n ≤ i → i < p → ¬StandsOne sql [k] i := by
  obtain ⟨p, le, rfl, none_, k', member, q, stands, rfl⟩ := find?_cursorAt (by simpa using isKeyword) inText found
  obtain rfl := List.mem_singleton.mp member
  have length := length_slice (b := n) (stands.le.trans stands.bound)
  exact ⟨p, q, le, rfl, by omega, stands, rfl, none_⟩

def stops (sql : Text) (ks : List Keyword) (n : Nat) : List Nat :=
  ((ks.map fun k => ((cursorAt sql n).find? [k]).map fun p => (place sql (n + p.1.length), p.2.place sql)).filterMap
    id).map Prod.fst

theorem mem_stops (areKeywords : ∀ k ∈ ks, IsKeyword k) (inText : n ≤ sql.length) {x : Nat} :
    x ∈ stops sql ks n ↔ ∃ k ∈ ks, ∃ p, n ≤ p ∧ x = place sql p ∧ StandsOne sql [k] p ∧
      ∀ i, n ≤ i → i < p → ¬StandsOne sql [k] i := by
  simp only [stops, List.filterMap_map, List.mem_map, List.mem_filterMap]
  constructor
  · rintro ⟨⟨x, y⟩, ⟨k, member, found⟩, rfl⟩
    obtain ⟨⟨passed, after⟩, here, same⟩ := Option.map_eq_some_iff.mp found
    obtain ⟨p, q, le, -, length, stands, -, none_⟩ := find?_one (areKeywords k member) inText here
    cases same
    exact ⟨k, member, p, le, by simp only [length], ⟨k, by simp, q, stands⟩, none_⟩
  · rintro ⟨k, member, p, le, rfl, standsOne, none_⟩
    have isKeyword := areKeywords k member
    have one : ∀ k' ∈ [k], IsKeyword k' := by simpa using isKeyword
    obtain ⟨k', here, q, stands⟩ := standsOne
    cases found : (cursorAt sql n).find? [k] with
    | none =>
      have bound := stands.bound
      have less := stands.lt (one k' here)
      exact absurd ⟨k', here, q, stands⟩ (find?_cursorAt_eq_none one found p le (by omega))
    | some hit =>
      obtain ⟨passed, after⟩ := hit
      obtain ⟨p', q', le', -, length, stands', rfl, none_'⟩ := find?_one isKeyword inText found
      obtain rfl : p = p' := by
        by_contra other
        rcases Nat.lt_or_gt_of_ne other with less | less
        · exact none_' p le less ⟨k', here, q, stands⟩
        · exact none_ p' le' less ⟨k, by simp, q', stands'⟩
      refine ⟨(place sql p, place sql q'), ⟨k, member, ?_⟩, rfl⟩
      simp [found, length, place_cursorAt]

/-- A text up to the first keyword that ends it can be taken. -/
theorem part?_upTo (areKeywords : ∀ k ∈ ks, IsKeyword k) (inText : n ≤ sql.length) :
    part? sql (place sql n) ((stops sql ks n).min?.getD (byteSize sql)) = some ((cursorAt sql n).upTo ks) := by
  obtain ⟨e, le, bound, text, none_, last⟩ := upTo_cursorAt areKeywords inText
  have one {k : Keyword} {p : Nat} (member : k ∈ ks) (stands : StandsOne sql [k] p) : StandsOne sql ks p := by
    obtain ⟨k', here, q, stands⟩ := stands
    obtain rfl := List.mem_singleton.mp here
    exact ⟨k', member, q, stands⟩
  have stop : (stops sql ks n).min?.getD (byteSize sql) = place sql e := by
    rcases last with rfl | ⟨k, member, q, stands⟩
    · have empty : stops sql ks n = [] := by
        rw [List.eq_nil_iff_forall_not_mem]
        intro x inStops
        obtain ⟨k, member, p, from_, -, standsOne, -⟩ := (mem_stops areKeywords inText).mp inStops
        obtain ⟨k', here, q, stands⟩ := one member standsOne
        have less := stands.lt (areKeywords k' here)
        have inSql := stands.bound
        exact none_ p from_ (by omega) ⟨k', here, q, stands⟩
      rw [empty]
      simp
    · have first : (stops sql ks n).min? = some (place sql e) := by
        rw [List.min?_eq_some_iff]
        constructor
        · refine (mem_stops areKeywords inText).mpr ⟨k, member, e, le, rfl, ⟨k, by simp, q, stands⟩, ?_⟩
          intro i from_ below standsOne
          exact none_ i from_ below (one member standsOne)
        · intro x inStops
          obtain ⟨k', member', p, from_, rfl, standsOne, -⟩ := (mem_stops areKeywords inText).mp inStops
          apply place_le
          by_contra less
          exact none_ p from_ (by omega) (one member' standsOne)
      rw [first]
      rfl
  rw [stop, part?_place le, text]

theorem section?_eq {ends : List Keyword} (isKeyword : IsKeyword k) (areKeywords : ∀ k ∈ ends, IsKeyword k)
    (sql : Text) : section? k ends sql = some (QueryChain.section? k ends sql) := by
  have found := keywordSpan?_place (t := sql) isKeyword (Nat.zero_le _)
  rw [place_zero] at found
  simp only [section?, found, QueryChain.section?, Option.bind_eq_bind, Option.bind_some, ← cursorAt_zero]
  cases here : (cursorAt sql 0).find? [k] with
  | none => rfl
  | some hit =>
    obtain ⟨passed, after⟩ := hit
    obtain ⟨p, q, -, -, -, stands, rfl, -⟩ := find?_one isKeyword (Nat.zero_le _) here
    have all : ends.mapM (keywordSpan? sql · (place sql q)) = some _ := mapM_some fun k member =>
      keywordSpan?_place (areKeywords k member) stands.bound
    have part := part?_upTo areKeywords stands.bound
    rw [stops] at part
    simp only [Option.map_some, place_cursorAt, all, Option.bind_some, part]
    rfl

theorem fromSection?_eq (sql : Text) : fromSection? sql = some (QueryChain.fromSection? sql) := by
  exact section?_eq (by decide) (by decide) sql

theorem whereSection?_eq (sql : Text) : whereSection? sql = some (QueryChain.whereSection? sql) := by
  exact section?_eq (by decide) (by decide) sql

theorem groupBySection?_eq (sql : Text) : groupBySection? sql = some (QueryChain.groupBySection? sql) := by
  exact section?_eq (by decide) (by decide) sql

theorem havingSection?_eq (sql : Text) : havingSection? sql = some (QueryChain.havingSection? sql) := by
  exact section?_eq (by decide) (by decide) sql

theorem orderBySection?_eq (sql : Text) : orderBySection? sql = some (QueryChain.orderBySection? sql) := by
  exact section?_eq (by decide) (by decide) sql

theorem limitSection?_eq (sql : Text) : limitSection? sql = some (QueryChain.limitSection? sql) := by
  exact section?_eq (by decide) (by decide) sql

theorem offsetSection?_eq (sql : Text) : offsetSection? sql = some (QueryChain.offsetSection? sql) := by
  exact section?_eq (by decide) (by decide) sql

theorem setSection?_eq (sql : Text) : setSection? sql = some (QueryChain.setSection? sql) := by
  exact section?_eq (by decide) (by decide) sql

theorem selectSection?_eq (sql : Text) : selectSection? sql = some (QueryChain.selectSection? sql) := by
  have isKeyword : IsKeyword ["SELECT"] := by decide
  have ends : ∀ k ∈ listEnds, IsKeyword k := by decide
  simp only [selectSection?, QueryChain.selectSection?, section?_eq isKeyword ends, Option.bind_eq_bind,
    Option.bind_some]
  cases QueryChain.section? ["SELECT"] listEnds sql with
  | none => rfl
  | some body =>
    simp only [afterKeyword?_eq (k := ["DISTINCT"]) (by decide), afterKeyword?_eq (k := ["ALL"]) (by decide),
      Option.bind_some, Option.map_some]
    cases QueryChain.afterKeyword? ["DISTINCT"] body with
    | some list => rfl
    | none => cases QueryChain.afterKeyword? ["ALL"] body <;> rfl

theorem skipRun?_place (areKeywords : ∀ k ∈ ks, IsKeyword k) (fuel : Nat) (inText : n ≤ sql.length) :
    ∃ m, n ≤ m ∧ m ≤ sql.length ∧ (cursorAt sql n).skipRun ks fuel = cursorAt sql m ∧
      skipRun? sql ks fuel (place sql n) = some (place sql m) := by
  induction fuel generalizing n with
  | zero => exact ⟨n, Nat.le_refl n, inText, rfl, rfl⟩
  | succ fuel ih =>
    have text : markText (cursorAt sql n).marks = sql.drop n := text_cursorAt
    have short := (List.takeWhile_prefix isBlank (l := sql.drop n)).length_le
    rw [List.length_drop] at short
    have blanks := Cursor.skipBlanks_eq_skip (cursorAt sql n).before (cursorAt sql n).marks
    rw [text] at blanks
    have behind : Cursor.skipBlanks (cursorAt sql n).before (cursorAt sql n).marks =
        cursorAt sql (n + ((sql.drop n).takeWhile isBlank).length) := blanks.trans skip_cursorAt
    have found := findSomeM?_some (l := ks)
      (f := keyword? sql (place sql (n + ((sql.drop n).takeWhile isBlank).length)))
      fun k member => keyword?_place (areKeywords k member) (by omega)
    rw [skipRun?, Cursor.skipRun, behind]
    simp only [blanks?_place, Option.bind_eq_bind, Option.bind_some, ← place_add, found]
    cases here : ks.findSome? (cursorAt sql (n + ((sql.drop n).takeWhile isBlank).length)).keyword? with
    | none => exact ⟨n, Nat.le_refl n, inText, rfl, rfl⟩
    | some after =>
      obtain ⟨k, member, there⟩ := List.exists_of_findSome?_eq_some here
      obtain ⟨j, le, bound, -, -, -, rfl⟩ := (keyword?_cursorAt_iff (areKeywords k member) (by omega)).mp there
      simp only [Option.map_some, place_cursorAt]
      obtain ⟨m, later, inSql, skipped, skipped?⟩ := ih bound
      exact ⟨m, by omega, inSql, skipped, skipped?⟩

theorem skipAny?_place (areKeywords : ∀ k ∈ ks, IsKeyword k) (inText : n ≤ sql.length) :
    ∃ m, n ≤ m ∧ m ≤ sql.length ∧ (cursorAt sql n).skipAny ks = cursorAt sql m ∧
      skipAny? sql ks (place sql n) = some (place sql m) := by
  have fuel : (cursorAt sql n).marks.length = (sql.drop n).length := by simp
  simp only [skipAny?, from?_place, Option.bind_eq_bind, Option.bind_some, Cursor.skipAny, fuel]
  exact skipRun?_place areKeywords _ inText

theorem part?_upTo_one (isKeyword : IsKeyword k) (inText : n ≤ sql.length) :
    part? sql (place sql n) ((((cursorAt sql n).find? [k]).map fun p => place sql (n + p.1.length)).getD (byteSize sql)) =
      some ((cursorAt sql n).upTo [k]) := by
  rw [← part?_upTo (by simpa using isKeyword) inText, stops]
  cases found : (cursorAt sql n).find? [k] with
  | none => simp [found]
  | some hit => simp [found]

theorem updateTarget?_eq (sql : Text) : updateTarget? sql = some (QueryChain.updateTarget? sql) := by
  have verb := keywordSpan?_place (t := sql) (k := ["UPDATE"]) (by decide) (Nat.zero_le _)
  rw [place_zero] at verb
  simp only [updateTarget?, verb, QueryChain.updateTarget?, Option.bind_eq_bind, Option.bind_some, ← cursorAt_zero]
  cases here : (cursorAt sql 0).find? [["UPDATE"]] with
  | none => rfl
  | some hit =>
    obtain ⟨passed, after⟩ := hit
    obtain ⟨p, q, -, -, -, stands, rfl, -⟩ := find?_one (by decide) (Nat.zero_le _) here
    obtain ⟨m, le, bound, skipped, skipped?⟩ :=
      skipAny?_place (by decide : ∀ k ∈ ([["LOW_PRIORITY"], ["IGNORE"]] : List Keyword), IsKeyword k) stands.bound
    have part := part?_upTo_one (k := ["SET"]) (by decide) bound
    simp only [Option.map_some, place_cursorAt, skipped?, Option.bind_some,
      keywordSpan?_place (k := ["SET"]) (by decide) bound, Option.map_map, Function.comp_def, part, skipped]
    rfl

theorem deleteParts?_eq (sql : Text) : deleteParts? sql = some (QueryChain.deleteParts? sql) := by
  have verb := keywordSpan?_place (t := sql) (k := ["DELETE"]) (by decide) (Nat.zero_le _)
  rw [place_zero] at verb
  simp only [deleteParts?, verb, QueryChain.deleteParts?, Option.bind_eq_bind, Option.bind_some, ← cursorAt_zero,
    fromSection?_eq, splitTop?_eq]
  cases here : (cursorAt sql 0).find? [["DELETE"]] with
  | none => rfl
  | some hit =>
    obtain ⟨passed, after⟩ := hit
    obtain ⟨p, q, -, -, -, stands, rfl, -⟩ := find?_one (by decide) (Nat.zero_le _) here
    obtain ⟨m, le, bound, skipped, skipped?⟩ :=
      skipAny?_place (by decide : ∀ k ∈ ([["LOW_PRIORITY"], ["QUICK"], ["IGNORE"]] : List Keyword), IsKeyword k)
        stands.bound
    simp only [Option.map_some, place_cursorAt, skipped?, skipped, Option.bind_some,
      keywordSpan?_place (k := ["FROM"]) (by decide) bound]
    cases target : (cursorAt sql m).find? [["FROM"]] with
    | none => rfl
    | some hit =>
      obtain ⟨passed, after⟩ := hit
      obtain ⟨p', q', from_, rfl, length, -⟩ := find?_one (by decide) bound target
      simp only [Option.map_some, length, part?_place from_, Option.bind_some]
      rfl

theorem opensQuery?_eq (t : Text) : opensQuery? t = some (opensQuery t) := by
  rw [opensQuery?, opensQuery.eq_def]
  cases t with
  | nil => rfl
  | cons c inner =>
    by_cases opening : c = '('
    · subst opening
      have behind : from? ('(' :: inner) 1 = some inner := from?_append ['('] inner
      have found := keyword?_place (t := trimStart inner) (k := ["SELECT"]) (by decide) (Nat.zero_le _)
      rw [place_zero, cursorAt_zero] at found
      simp only [List.head?_cons, if_true, behind, found, Option.bind_eq_bind, Option.bind_some, Option.isSome_map,
        startsWithKeyword, QueryChain.afterKeyword?]
      rfl
    · rw [if_neg (by simpa using opening)]
      split
      · rename_i same
        exact absurd (List.cons.inj same).1 opening
      · rfl

theorem leadingGroup?_eq (t : Text) : leadingGroup? t = some (QueryChain.leadingGroup? t) := by
  simp only [leadingGroup?, scan?_eq, Option.bind_eq_bind, Option.bind_some]
  rw [QueryChain.leadingGroup?]
  have found (full : 1 ≤ t.length) := find?_spots (t := t) (·.isTopOf ')') 1 full
  cases marks : scan t with
  | nil => rfl
  | cons opening rest =>
    have text : t = opening.char :: markText rest := by
      have chars := congrArg markText marks
      rwa [markText_scan] at chars
    have start : 0 + opening.char.utf8Size = place t 1 := by
      rw [text, place, List.take_succ_cons, List.take_zero, byteSize_cons, byteSize_nil, Nat.zero_add, Nat.add_zero]
    have drop : (scan t).drop 1 = rest := by rw [marks, List.drop_succ_cons, List.drop_zero]
    rw [drop] at found
    rw [spots, List.tail_cons, start, found (by rw [text]; simp)]
    have parts := List.takeWhile_append_dropWhile (p := (!·.isTopOf ')')) (l := rest)
    cases behind : rest.dropWhile (!·.isTopOf ')') with
    | nil =>
      have none_ : rest.any (·.isTopOf ')') = false := by
        rw [List.any_eq_false]
        simpa using List.dropWhile_eq_nil_iff.mp behind
      rw [none_]
      simp [behind]
    | cons closing after =>
      have top : closing.isTopOf ')' := by
        have stop := List.head?_dropWhile_not (!·.isTopOf ')') rest
        rw [behind] at stop
        simpa using stop
      have any : rest.any (·.isTopOf ')') := by
        rw [List.any_eq_true]
        exact ⟨closing, by rw [← parts, behind]; simp, top⟩
      have char : closing.char = ')' := by
        rw [Mark.isTopOf, Bool.and_eq_true, beq_iff_eq] at top
        exact top.1
      rw [behind] at parts
      simp only [any, if_true, behind]
      generalize rest.takeWhile (!·.isTopOf ')') = before at parts ⊢
      have whole : t = (opening.char :: markText before ++ [')']) ++ markText after := by
        rw [text, ← parts, ← char]
        simp [markText]
      have close : place t (1 + before.length) + 1 = byteSize (opening.char :: markText before ++ [')']) := by
        have inFront : t.take (1 + before.length) = opening.char :: markText before := by
          rw [whole, List.append_assoc, List.take_left' (by simp [markText, Nat.add_comm])]
        have small : byteSize [')'] = 1 := rfl
        rw [place, inFront, byteSize_append, small]
      rw [close, whole, char, from?_append, part?, if_pos (Nat.zero_le _), upTo?_append]
      simp [from?, cutAt?]

theorem insertBody?_eq (t : Text) : insertBody? t = some (insertBody t) := by
  simp only [insertBody?, insertBody, afterKeyword?_eq (k := ["VALUES"]) (by decide),
    afterKeyword?_eq (k := ["VALUE"]) (by decide), afterKeyword?_eq (k := ["SET"]) (by decide),
    afterKeyword?_eq (k := ["SELECT"]) (by decide), opensQuery?_eq, Option.bind_eq_bind, Option.bind_some]
  cases (QueryChain.afterKeyword? ["VALUES"] t).or (QueryChain.afterKeyword? ["VALUE"] t) with
  | some values => rfl
  | none =>
    cases QueryChain.afterKeyword? ["SET"] t with
    | some pairs => rfl
    | none =>
      have starts : (QueryChain.afterKeyword? ["SELECT"] t).isSome = startsWithKeyword ["SELECT"] t := rfl
      simp only [starts]
      cases (startsWithKeyword ["SELECT"] t || opensQuery t) <;> rfl

theorem place_first (p : Mark → Bool) (t : Text) :
    (((spots 0 (scan t)).find? (p ·.2)).map Prod.fst).getD (byteSize t) =
      place t ((scan t).takeWhile (!p ·)).length := by
  have found := find?_spots (t := t) p 0 (Nat.zero_le _)
  rw [place_zero, List.drop_zero, Nat.zero_add] at found
  rw [found]
  by_cases any : (scan t).any p
  · rw [if_pos any, Option.getD_some]
  · have all : (scan t).takeWhile (!p ·) = scan t := by
      rw [List.takeWhile_eq_self_iff]
      simpa using any
    rw [if_neg any, Option.getD_none, all, length_scan, place_length]

/-- The parts of a text in front of its first mark that counts and from there on. -/
theorem parts_first (p : Mark → Bool) (t : Text) :
    t.take ((scan t).takeWhile (!p ·)).length = markText ((scan t).takeWhile (!p ·)) ∧
      t.drop ((scan t).takeWhile (!p ·)).length = markText ((scan t).dropWhile (!p ·)) := by
  constructor
  · rw [← markText_take_scan, ← List.prefix_iff_eq_take.mp (List.takeWhile_prefix _)]
  · rw [← markText_drop_scan, drop_length_takeWhile]

theorem insertParts?_eq (sql : Text) : insertParts? sql = some (QueryChain.insertParts? sql) := by
  have verb := keywordSpan?_place (t := sql) (k := ["INSERT"]) (by decide) (Nat.zero_le _)
  rw [place_zero] at verb
  simp only [insertParts?, verb, QueryChain.insertParts?, Option.bind_eq_bind, Option.bind_some, ← cursorAt_zero]
  cases here : (cursorAt sql 0).find? [["INSERT"]] with
  | none => rfl
  | some hit =>
    obtain ⟨passed, after⟩ := hit
    obtain ⟨p, q, -, -, -, stands, rfl, -⟩ := find?_one (by decide) (Nat.zero_le _) here
    obtain ⟨m, le, bound, skipped, skipped?⟩ :=
      skipAny?_place (by decide : ∀ k ∈ ([["LOW_PRIORITY"], ["DELAYED"], ["HIGH_PRIORITY"], ["IGNORE"]] : List Keyword),
        IsKeyword k) stands.bound
    obtain ⟨m', le', bound', skipped', skipped'?⟩ :=
      skipAny?_place (by decide : ∀ k ∈ ([["INTO"]] : List Keyword), IsKeyword k) bound
    simp only [Option.map_some, place_cursorAt, skipped?, skipped, skipped'?, skipped', Option.bind_some,
      from?_place, scan?_eq, text_cursorAt]
    generalize trimStart (sql.drop m') = target
    obtain ⟨table, rest⟩ := parts_first endsTable target
    simp only [place_first endsTable target, upTo?_place, from?_place, table, rest, Option.bind_some]
    by_cases empty : (scan target).takeWhile (!endsTable ·) = []
    · rw [empty]
      simp [markText]
    · have bound := (List.takeWhile_prefix (!endsTable ·) (l := scan target)).length_le
      rw [length_scan] at bound
      have some_ : place target ((scan target).takeWhile (!endsTable ·)).length ≠ 0 := by
        have full := place_lt (List.length_pos_iff.mpr empty) bound
        omega
      have named : markText ((scan target).takeWhile (!endsTable ·)) ≠ [] := by simpa [markText] using empty
      rw [if_neg some_]
      generalize trimStart (markText ((scan target).dropWhile (!endsTable ·))) = rest
      simp only [opensQuery?_eq, Option.bind_some, leadingGroup?_eq, insertBody?_eq, guard, if_pos named]
      cases (rest.head? == some '(' && !opensQuery rest) with
      | false => rfl
      | true =>
        simp only [if_true]
        cases QueryChain.leadingGroup? rest <;> rfl

end Clauses
end Bytewise
end QueryChain
