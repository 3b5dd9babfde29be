import QueryChain.Proofs.Bytes.Reading

namespace QueryChain

namespace Bytewise

def hasTop? (delimiter : Char) (t : Text) : Option Bool := do return (← scan? t).any (·.2.isTopOf delimiter)

def hasTopOne? (delimiter : Char) (ts : List Text) : Option Bool := do return (← ts.mapM (hasTop? delimiter)).any id

def resolve? (reserved : ReservedWords) (s : JoinSegment) : ExceptT Issue Option (Join × Option Issue) := do
  if s.isNatural then throw (.unsupportedConstruct "NATURAL JOIN" "FROM clause")
  if s.usesUsing then throw (.unsupportedConstruct "JOIN ... USING" "FROM clause")
  if s.table.head? == some '(' then throw (.unsupportedConstruct "derived table" "JOIN")
  if ← hasTopOne? ',' (s.table :: s.condition.toList) then throw (.unsupportedConstruct mixedJoin "FROM clause")
  match ← tableFragment? reserved s.table with
  | none => throw (.malformedClause "JOIN" s.table "expected a table name")
  | some fragment =>
    let issue ← ExceptT.mk (some (fragment.checkTrailing "JOIN"))
    return (⟨.ofQualifiers s.qualifiers, fragment.table, s.condition.filter (· ≠ [])⟩, issue)

def resolveJoins? (reserved : ReservedWords) (t : Text) : ExceptT Issue Option (List Join × List Issue) := do
  let segments ← joinSegments? t
  let resolved ← segments.mapM (resolve? reserved)
  return (resolved.map Prod.fst, resolved.filterMap Prod.snd)

def readTable? (reserved : ReservedWords) (clause fragment : Text) : Reading TableRef := do
  if fragment.head? == some '(' then reading (refuse (.unsupportedConstruct "derived table" clause))
  let parsed ← reading (require (← tableFragment? reserved fragment)
    (.malformedClause clause fragment "expected a table name"))
  match parsed.checkTrailing clause with
  | .error issue => reading (refuse issue)
  | .ok issue => reading (noteAll issue.toList)
  return parsed.table

def readTables? (reserved : ReservedWords) (clause : Text) : List Text → Reading (List TableRef)
  | [] => return []
  | fragment :: fragments => do
    let table ← readTable? reserved clause fragment
    return table :: (← readTables? reserved clause fragments)

def readSources? (reserved : ReservedWords) (clause : Text) (manyTables : Bool) (t : Text) : Reading Sources := do
  let named ← nameParams? t
  let fragments ← splitTop? ',' (← mainTables? named)
  if fragments.length > 1 && !manyTables then
    reading (refuse (.unsupportedConstruct "multiple target tables" clause))
  match ← readTables? reserved clause fragments with
  | [] => reading (refuse (.malformedClause clause t "expected a table name"))
  | table :: extraTables =>
    match ← (resolveJoins? reserved named).run with
    | .error issue => reading (refuse issue)
    | .ok (joins, issues) =>
      if fragments.length > 1 && !joins.isEmpty then
        reading (refuse (.unsupportedConstruct mixedJoin clause))
      reading (noteAll issues)
      return ⟨table, extraTables, joins⟩

def readFrom? (reserved : ReservedWords) (sql : Text) : Reading (Option Sources) := do
  match ← fromSection? sql with
  | none => return none
  | some body => return some (← readSources? reserved "FROM clause" true body)

section Sources

variable {t : Text}

theorem hasTop?_eq (d : Char) (t : Text) : hasTop? d t = some (hasTop d t) := by
  have any : (scan t).any (·.isTopOf d) = hasTop d t := by
    rw [hasTop, QueryChain.cutTop?]
    cases behind : (scan t).dropWhile (!·.isTopOf d) with
    | nil =>
      refine List.any_eq_false.mpr ?_
      simpa using List.dropWhile_eq_nil_iff.mp behind
    | cons m after =>
      have stop := List.head?_dropWhile_not (!·.isTopOf d) (scan t)
      rw [behind] at stop
      exact List.any_eq_true.mpr ⟨m, (List.dropWhile_suffix _).subset (by rw [behind]; simp), by simpa using stop⟩
  simp only [hasTop?, scan?_eq, Option.bind_eq_bind, Option.bind_some, ← any]
  conv_rhs => rw [← map_snd_spots 0 (scan t), List.any_map]
  rfl

theorem hasTopOne?_eq (d : Char) (ts : List Text) : hasTopOne? d ts = some (ts.any (hasTop d)) := by
  simp only [hasTopOne?, mapM_some fun t _ => hasTop?_eq d t, Option.bind_eq_bind, Option.bind_some, List.any_map]
  rfl

theorem bind_checked {α β : Type} (x : Except Issue α) (f : α → Except Issue β) :
    (ExceptT.mk (some x) >>= fun a => (ExceptT.mk (some (f a)) : ExceptT Issue Option β)) = ExceptT.mk (some (x >>= f)) := by
  cases x <;> rfl

theorem lift_checked {α : Type} (a : α) : (liftM (some a) : ExceptT Issue Option α) = pure a := rfl

theorem bind_checked_ok {α β : Type} (a : α) (f : α → ExceptT Issue Option β) :
    (ExceptT.mk (some (.ok a)) >>= f) = f a := rfl

theorem mapM_checked {α β : Type} {f : α → Except Issue β} (l : List α) :
    l.mapM (fun a => (ExceptT.mk (some (f a)) : ExceptT Issue Option β)) = ExceptT.mk (some (l.mapM f)) := by
  induction l with
  | nil => rfl
  | cons a l ih =>
    rw [List.mapM_cons, ih, List.mapM_cons, ← bind_checked]
    congr 1
    funext b
    exact bind_checked (l.mapM f) _

theorem resolve?_eq (reserved : ReservedWords) (s : JoinSegment) :
    resolve? reserved s = ExceptT.mk (some (s.resolve reserved)) := by
  have mixed : (s.table :: s.condition.toList).any (hasTop ',') = (hasTop ',' s.table || s.condition.any (hasTop ',')) := by
    cases s.condition <;> simp
  simp only [resolve?, JoinSegment.resolve, hasTopOne?_eq, tableFragment?_eq, mixed]
  cases s.isNatural with
  | true => rfl
  | false =>
    cases s.usesUsing with
    | true => rfl
    | false =>
      cases (s.table.head? == some '(') with
      | true => rfl
      | false =>
        cases (hasTop ',' s.table || s.condition.any (hasTop ',')) with
        | true => rfl
        | false =>
          cases TableFragment.ofText? reserved s.table with
          | none => rfl
          | some fragment => exact bind_checked (fragment.checkTrailing "JOIN") _

theorem resolveJoins?_eq (reserved : ReservedWords) (t : Text) :
    resolveJoins? reserved t = ExceptT.mk (some (resolveJoins reserved t)) := by
  have all : resolve? reserved = fun s => ExceptT.mk (some (s.resolve reserved)) := funext (resolve?_eq reserved)
  rw [resolveJoins?, joinSegments?_eq, all]
  change ((joinSegments t).mapM (fun s => ExceptT.mk (some (s.resolve reserved))) >>= fun resolved =>
    (pure (resolved.map Prod.fst, resolved.filterMap Prod.snd) : ExceptT Issue Option _)) = _
  rw [mapM_checked]
  exact bind_checked ((joinSegments t).mapM (·.resolve reserved)) _

theorem readTable?_eq (reserved : ReservedWords) (clause fragment : Text) :
    readTable? reserved clause fragment = reading (readTable reserved clause fragment) := by
  simp only [readTable?, readTable, tableFragment?_eq, lift_some', pure_bind]
  cases (fragment.head? == some '(') with
  | true => rfl
  | false =>
    cases TableFragment.ofText? reserved fragment with
    | none => rfl
    | some parsed =>
      simp only [Bool.false_eq_true, if_false, require, reading_pure, pure_bind]
      cases parsed.checkTrailing clause <;> rfl

theorem readTables?_eq (reserved : ReservedWords) (clause : Text) (fragments : List Text) :
    readTables? reserved clause fragments = reading (readTables reserved clause fragments) := by
  induction fragments with
  | nil => rfl
  | cons fragment fragments ih =>
    simp only [readTables?, readTables, readTable?_eq, ih, reading_bind, reading_pure]

theorem readSources?_eq (reserved : ReservedWords) (clause : Text) (manyTables : Bool) (t : Text) :
    readSources? reserved clause manyTables t = reading (readSources reserved clause manyTables t) := by
  simp only [readSources?, readSources, nameParams?_eq, mainTables?_eq, splitTop?_eq, lift_some', pure_bind, reading_bind,
    readTables?_eq, resolveJoins?_eq, reading_lift]
  refine bind_congr fun named => ?_
  cases (decide ((splitTop ',' (mainTables named)).length > 1) && !manyTables) with
  | true => rfl
  | false =>
    simp only [Bool.false_eq_true, if_false, reading_bind]
    refine bind_congr fun tables => ?_
    cases tables with
    | nil => rfl
    | cons table extraTables =>
      cases resolveJoins reserved named with
      | error issue => rfl
      | ok resolved =>
        obtain ⟨joins, issues⟩ := resolved
        simp only [ExceptT.run_mk, lift_some', pure_bind]
        cases (decide ((splitTop ',' (mainTables named)).length > 1) && !joins.isEmpty) with
        | true => rfl
        | false => rfl

theorem readFrom?_eq (reserved : ReservedWords) (sql : Text) :
    readFrom? reserved sql = reading (readFrom reserved sql) := by
  simp only [readFrom?, readFrom, fromSection?_eq, lift_some', pure_bind, readSources?_eq]
  cases QueryChain.fromSection? sql with
  | none => rfl
  | some body => simp only [reading_bind, reading_pure]

end Sources
end Bytewise
end QueryChain
