import QueryChain.Proofs.Params.Logged
import QueryChain.Proofs.Keyword.Tail

namespace QueryChain

def refinementOrder : List Keyword :=
  [["WHERE"], ["GROUP", "BY"], ["HAVING"], ["WINDOW"], ["ORDER", "BY"], ["LIMIT"], ["OFFSET"]]

def clauseOrder : StatementKind → List Keyword
  | .select => ["SELECT"] :: ["FROM"] :: refinementOrder
  | .update => ["UPDATE"] :: ["SET"] :: refinementOrder
  | .delete => ["DELETE"] :: ["FROM"] :: refinementOrder
  | .insert => []

theorem distinct_clauseOrder (kind : StatementKind) : Distinct (clauseOrder kind) := by
  cases kind <;> decide

section Taken

variable {sql : Text}

/-- What stands behind a keyword at the start of a region starts where nothing is open, too. -/
theorem Region.afterKeyword? {b e : Nat} {k : Keyword} {t : Text} (region : Region sql b e)
    (isKeyword : IsKeyword k) (starts : afterKeyword? k (slice b e sql) = some t) :
    ∃ b' e', b ≤ b' ∧ b' ≤ e' ∧ e' ≤ e ∧ stateAt sql b' = {} ∧ trim t = slice b' e' sql := by
  have length := length_slice region.bound (b := b)
  have bound := region.bound
  obtain ⟨after, here, rfl⟩ := Option.map_eq_some_iff.mp starts
  rw [← cursorAt_zero] at here
  obtain ⟨j, -, inSlice, spells, -, -, rfl⟩ :=
    (keyword?_cursorAt_iff isKeyword (Nat.zero_le _)).mp here
  have order := region.le
  have plain := spells.isPlain isKeyword
  rw [slice_slice (by omega), Nat.add_zero] at plain
  have rest : (slice b e sql).drop j = slice (b + j) e sql := by
    rw [slice_eq_take_drop, slice_eq_take_drop, List.drop_take, List.drop_drop]
    congr 1
    omega
  obtain ⟨b', e', first, order', last, trimmed, front, -⟩ := trim_slice (by omega : b + j ≤ e) bound
  have start := stateAt_plain (Nat.le_add_right b j) plain region.start
  refine ⟨b', e', by omega, order', last, ?_, ?_⟩
  · exact stateAt_plain first (fun c member => isPlain_of_isBlank c (front c member)) start
  · rw [text_cursorAt, rest, trimmed]

theorem takenFrom_selectSection? {distinct : Bool} {list : Text}
    (found : selectSection? sql = some (distinct, list)) : TakenFrom sql ["SELECT"] listEnds list := by
  obtain ⟨body, there, eq⟩ := Option.map_eq_some_iff.mp found
  obtain ⟨p, b, e, sec, rfl⟩ := section?_eq_some (by decide) (by decide) there
  obtain ⟨b', e', first, last, region, trimmed⟩ := sec.region (by decide)
  rw [trimmed] at eq
  have behind {k : Keyword} {t : Text} (isKeyword : IsKeyword k)
      (starts : afterKeyword? k (slice b' e' sql) = some t) :
      TakenFrom sql ["SELECT"] listEnds (trim t) := by
    obtain ⟨b₂, e₂, from_, order, upTo, start, taken⟩ := region.afterKeyword? isKeyword starts
    exact ⟨p, b, e, b₂, e₂, sec, by omega, order, by omega, start, taken⟩
  cases distinct? : afterKeyword? ["DISTINCT"] (slice b' e' sql) with
  | some t =>
    rw [distinct?] at eq
    cases eq
    exact behind (by decide) distinct?
  | none =>
    rw [distinct?] at eq
    cases all? : afterKeyword? ["ALL"] (slice b' e' sql) with
    | some t =>
      rw [all?] at eq
      cases eq
      exact behind (by decide) all?
    | none =>
      rw [all?] at eq
      cases eq
      exact ⟨p, b, e, b', e', sec, first, region.le, last, region.start, rfl⟩

/-- The target of an update ends where its assignments start. -/
theorem updateTarget?_eq_slice {target : Text} (found : updateTarget? sql = some target) :
    ∃ p q b e, Stands sql ["UPDATE"] p q ∧ b ≤ e ∧ e ≤ sql.length ∧ stateAt sql b = {} ∧
      target = slice b e sql ∧ ∀ p' q', Stands sql ["SET"] p' q' → q ≤ p' → e ≤ p' := by
  obtain ⟨⟨passed, after⟩, verb, rfl⟩ := Option.map_eq_some_iff.mp found
  rw [← cursorAt_zero] at verb
  obtain ⟨p, -, -, -, k, member, q, stands, rfl⟩ := find?_cursorAt (by decide) (Nat.zero_le _) verb
  obtain rfl := List.mem_singleton.mp member
  obtain ⟨m, -, bound, start, run, behind⟩ :=
    skipRun_cursorAt [["LOW_PRIORITY"], ["IGNORE"]] (by decide)
      (cursorAt sql q).marks.length stands.bound (stands.state_eq_end (by decide))
  obtain ⟨e, le, boundEnd, text, inside, -⟩ :=
    upTo_cursorAt (show ∀ k ∈ ([["SET"]] : List Keyword), IsKeyword k by decide) bound
  obtain ⟨b, e', first, order, last, trimmed, front, -⟩ := trim_slice le boundEnd
  dsimp only
  refine ⟨p, q, b, e', stands, order, by omega, ?_, ?_, ?_⟩
  · exact stateAt_plain first (fun c member => isPlain_of_isBlank c (front c member)) start
  · rw [Cursor.skipAny, run, text, trimmed]
  · intro p' q' set from_
    have passedOver := behind ["SET"] (by decide) p' q' set from_
    by_contra before
    exact inside p' passedOver (by omega) ⟨["SET"], by simp, q', set⟩

end Taken

section Parts

variable {reserved : ReservedWords} {sql : Text} {p p' : Progress} {c : Clauses}

def selectLayout : List (Keyword × List Keyword) :=
  [(["SELECT"], listEnds), (["FROM"], ["WHERE"] :: bodyEnds), (["WHERE"], bodyEnds),
    (["GROUP", "BY"], bodyEnds.drop 1), (["HAVING"], bodyEnds.drop 2),
    (["ORDER", "BY"], bodyEnds.drop 4), (["LIMIT"], bodyEnds.drop 5), (["OFFSET"], bodyEnds.drop 6)]

def updateLayout : List (Keyword × List Keyword) :=
  [(["SET"], [["WHERE"], ["ORDER", "BY"], ["LIMIT"]]), (["WHERE"], bodyEnds),
    (["ORDER", "BY"], bodyEnds.drop 4), (["LIMIT"], bodyEnds.drop 5)]

def deleteLayout : List (Keyword × List Keyword) :=
  [(["FROM"], ["WHERE"] :: bodyEnds), (["WHERE"], bodyEnds), (["ORDER", "BY"], bodyEnds.drop 4),
    (["LIMIT"], bodyEnds.drop 5)]

theorem takenFrom_whereSection? (normal : IsNormal sql) :
    ∀ t ∈ (whereSection? sql).map normalize, TakenFrom sql ["WHERE"] bodyEnds t := by
  intro t member
  obtain ⟨body, found, rfl⟩ := Option.map_eq_some_iff.mp member
  exact takenFrom_normalize normal (by decide) (by decide) found

/-- The texts whose placeholders a query names are its sections from left to right. -/
theorem parts_of_select (normal : IsNormal sql) (order : InOrder (clauseOrder .select) sql)
    (ok : Gives (readSelect reserved sql) {} c p) :
    ∃ parts, Parts sql 0 parts ∧ Advance (parts.map fun s => slice s.1 s.2 sql) {} p := by
  obtain ⟨distinct, list, found, advance⟩ := advance_readSelect ok
  obtain ⟨parts, rising, eq⟩ := parts_of_sections order
    (distinct_clauseOrder _) selectLayout [some list, fromSection? sql, (whereSection? sql).map normalize,
      groupBySection? sql, havingSection? sql, orderBySection? sql, limitSection? sql,
      offsetSection? sql] (by
    refine .cons ?_ (.cons ?_ (.cons (takenFrom_whereSection? normal)
      (.cons ?_ (.cons ?_ (.cons ?_ (.cons ?_ (.cons ?_ .nil)))))))
    · intro t member
      obtain rfl := Option.some.inj member
      exact takenFrom_selectSection? found
    all_goals exact fun t found => takenFrom_section (by decide) (by decide) found)
    (by decide) (by decide) 0 (fun _ _ _ _ _ => Nat.zero_le _)
  rw [eq] at advance
  exact ⟨parts, rising, advance⟩

theorem parts_of_update (normal : IsNormal sql) (order : InOrder (clauseOrder .update) sql)
    (ok : Gives (readUpdate reserved sql) {} c p) :
    ∃ parts, Parts sql 0 parts ∧ Advance (parts.map fun s => slice s.1 s.2 sql) {} p := by
  obtain ⟨target, list, foundTarget, foundSet, advance⟩ := advance_readUpdate ok
  obtain ⟨p₀, q, b, e, verb, le, bound, start, rfl, behind⟩ := updateTarget?_eq_slice foundTarget
  have distinct := distinct_clauseOrder .update
  obtain ⟨pSet, bSet, eSet, set, -⟩ := section?_eq_some (by decide) (by decide) foundSet
  have afterVerb := order.lt distinct (by decide) (by decide) (by decide) (by decide) verb set.opens
  have outside := verb.not_inside set.opens (by decide) (by decide) (by decide) afterVerb
  have beforeSet : e ≤ pSet := behind pSet bSet set.opens outside
  have sections : ∀ s ∈ updateLayout, ∀ p q, Stands sql s.1 p q → e ≤ q := by
    intro s member p q stands
    have le := stands.le
    rcases List.mem_cons.mp member with rfl | later
    · have same := order.unique distinct (by decide) set.opens stands
      omega
    · have listed : ∀ s ∈ updateLayout.tail, s.1 ∈ clauseOrder .update ∧
          Precedes (clauseOrder .update) (["SET"], [["WHERE"], ["ORDER", "BY"], ["LIMIT"]]) s := by
        decide
      obtain ⟨known, precedes⟩ := listed s later
      have after := set.end_le order distinct precedes (by decide) known stands
      have inside := set.le
      have opening := set.opens.le
      omega
  obtain ⟨parts, rising, eq⟩ := parts_of_sections order distinct
    updateLayout [some list, (whereSection? sql).map normalize, orderBySection? sql, limitSection? sql] (by
    refine .cons ?_ (.cons (takenFrom_whereSection? normal) (.cons ?_ (.cons ?_ .nil)))
    · intro t member
      obtain rfl := Option.some.inj member
      exact takenFrom_section (by decide) (by decide) foundSet
    all_goals exact fun t found => takenFrom_section (by decide) (by decide) found)
    (by decide) (by decide) e sections
  rw [eq] at advance
  exact ⟨(b, e) :: parts, .cons (Nat.zero_le b) le bound start rising, advance⟩

theorem parts_of_delete (normal : IsNormal sql) (order : InOrder (clauseOrder .delete) sql)
    (ok : Gives (readDelete reserved sql) {} c p) :
    ∃ parts, Parts sql 0 parts ∧ Advance (parts.map fun s => slice s.1 s.2 sql) {} p := by
  have advance := advance_readDelete ok
  obtain ⟨parts, rising, eq⟩ := parts_of_sections order
    (distinct_clauseOrder _) deleteLayout [fromSection? sql, (whereSection? sql).map normalize,
      orderBySection? sql, limitSection? sql] (by
    refine .cons ?_ (.cons (takenFrom_whereSection? normal) (.cons ?_ (.cons ?_ .nil)))
    all_goals exact fun t found => takenFrom_section (by decide) (by decide) found)
    (by decide) (by decide) 0 (fun _ _ _ _ _ => Nat.zero_le _)
  rw [eq] at advance
  exact ⟨parts, rising, advance⟩

theorem parts_of_insert (normal : IsNormal sql) (ok : Gives (readInsert sql) {} c p) :
    ∃ parts, Parts sql 0 parts ∧ Advance (parts.map fun s => slice s.1 s.2 sql) {} p := by
  obtain ⟨parts, found, there, advance⟩ := advance_readInsert ok
  obtain ⟨b, e, le, bound, start, text⟩ := insertParts?_eq_slice normal.commentFree found there
  rw [text] at advance
  exact ⟨[(b, e)], .cons (Nat.zero_le b) le bound start (.nil e), advance⟩

end Parts

/-- In a statement in normal form with its keywords in order, parameters are numbered by place: the
    texts they are named in are parts of the statement from left to right that hold all placeholders,
    and the `k`-th placeholder of the statement is named `k`. These texts are the statement's sections,
    and each clause is read from its own section as it is named. -/
theorem params_numbered_by_place {reserved : ReservedWords} {sql : Text} {c : Conversion}
    (normal : normalize sql = sql) (ok : convert reserved sql = .ok c)
    (order : InOrder (clauseOrder c.kind) sql) :
    ∃ p, (readStatement reserved c.kind sql).run {} = (.ok c.clauses, p) ∧ Tile sql p.named ∧
      ∃ log : Sections (Text × Text), log.all = p.named ∧ log.map Prod.fst = Sections.ofStatement sql c.kind ∧
        c.clauses.ReadFrom reserved (log.map Prod.snd) := by
  obtain ⟨p, converted⟩ := convert_ok ok
  have isNormal := isNormal_of_normalize normal
  have read := converted.read
  rw [normal] at read
  obtain ⟨parts, rising, advance⟩ :
      ∃ parts, Parts sql 0 parts ∧ Advance (parts.map fun s => slice s.1 s.2 sql) {} p := by
    cases kind : c.kind with
    | select =>
      rw [kind] at read order
      exact parts_of_select isNormal order read
    | insert =>
      rw [kind] at read
      exact parts_of_insert isNormal read
    | update =>
      rw [kind] at read order
      exact parts_of_update isNormal order read
    | delete =>
      rw [kind] at read order
      exact parts_of_delete isNormal order read
  have all : placeholders sql ≤ ((parts.map fun s => slice s.1 s.2 sql).map placeholders).sum := by
    have issued := advance.issued
    rw [converted.issued] at issued
    simpa using issued.le
  refine ⟨p, read, ?_, log_of_read read⟩
  have named := advance.named
  rw [List.nil_append] at named
  rw [named]
  exact rising.tile isNormal.commentFree all

def nestedQuery : Text :=
  "SELECT a FROM t WHERE b IN (SELECT c FROM u WHERE d = ?) AND e <> '?' LIMIT ?"

theorem params_numbered_by_place_nested :
    ∃ (c : Conversion) (p : Progress),
      (readStatement default c.kind nestedQuery).run {} = (.ok c.clauses, p) ∧
        Tile nestedQuery p.named ∧
        ∃ log : Sections (Text × Text), log.all = p.named ∧ log.map Prod.fst = Sections.ofStatement nestedQuery c.kind ∧
          c.clauses.ReadFrom default (log.map Prod.snd) := by
  have chars : nestedQuery = _ := String.toList_ofList
  have kind : (convert default nestedQuery).map Conversion.kind = .ok .select := by
    rw [chars]
    decide +kernel
  have normal : normalize nestedQuery = nestedQuery := by
    rw [chars]
    decide +kernel
  have inOrder : InOrder (clauseOrder .select) nestedQuery := by
    rw [chars]
    decide +kernel
  cases ok : convert default nestedQuery with
  | error issue =>
    rw [ok] at kind
    cases kind
  | ok c =>
    rw [ok] at kind
    have select : c.kind = .select := Except.ok.inj kind
    have order : InOrder (clauseOrder c.kind) nestedQuery := by
      rw [select]
      exact inOrder
    exact ⟨c, params_numbered_by_place normal ok order⟩

end QueryChain
