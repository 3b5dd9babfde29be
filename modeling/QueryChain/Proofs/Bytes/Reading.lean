import QueryChain.Proofs.Bytes.Conditions
import QueryChain.Proofs.Bytes.Lists
import QueryChain.Proofs.Join.Places
import QueryChain.Proofs.Params.Passes
import QueryChain.Statement.Read

namespace QueryChain

namespace Bytewise

abbrev Noting := StateT Progress Option

abbrev Reading := ExceptT Issue Noting

def noting {α : Type} (x : QueryChain.Noting α) : Noting α := fun p => some (x p)

def reading {α : Type} (x : QueryChain.Reading α) : Reading α := ExceptT.mk (noting x.run)

section Steps

variable {α β : Type}

theorem noting_pure (a : α) : noting (pure a) = pure a := rfl

theorem noting_bind (x : QueryChain.Noting α) (f : α → QueryChain.Noting β) :
    noting (x >>= f) = noting x >>= fun a => noting (f a) := rfl

theorem reading_pure (a : α) : reading (pure a) = pure a := rfl

theorem reading_bind (x : QueryChain.Reading α) (f : α → QueryChain.Reading β) :
    reading (x >>= f) = reading x >>= fun a => reading (f a) := by
  funext p
  show some (ExceptT.bindCont f (x.run p).1 (x.run p).2) = ExceptT.bindCont (fun a => reading (f a)) (x.run p).1 (x.run p).2
  cases (x.run p).1 with
  | ok a => rfl
  | error issue => rfl

theorem reading_ite (c : Prop) [Decidable c] (x y : QueryChain.Reading α) :
    reading (if c then x else y) = if c then reading x else reading y := by
  split_ifs <;> rfl

theorem reading_refuse (i : Issue) (f g : α → Reading β) :
    (reading (refuse i) >>= f) = (reading (refuse i) >>= g) := rfl

theorem reading_lift (x : QueryChain.Noting α) : reading (liftM x) = liftM (noting x) := rfl

theorem lift_some (a : α) : (liftM (some a) : Noting α) = pure a := rfl

theorem lift_some' (a : α) : (liftM (some a) : Reading α) = pure a := rfl

end Steps

def nameParams? (t : Text) : Noting Text := do
  let marks := (← scan? t).map Prod.snd
  fun p => some (numberMarks p.issued marks,
    { p with
      issued := p.issued + marks.countP Mark.isPlaceholder
      named := p.named ++ [(t, numberMarks p.issued marks)] })

def readWhere? (sql : Text) : Noting (List Condition) := do
  match ← whereSection? sql with
  | none => return []
  | some body =>
    let named ← nameParams? (← normalize? body)
    let conditions ← splitConditions? named
    if conditions = [] then noting (note (.malformedClause "WHERE" sql "empty condition"))
    return conditions

def readGroupBy? (sql : Text) : Noting (List Text) := do
  match ← groupBySection? sql with
  | none => return []
  | some body => splitTop? ',' (← nameParams? body)

def readHaving? (sql : Text) : Noting (Option Text) := do
  match ← havingSection? sql with
  | none => return none
  | some body =>
    let named ← nameParams? body
    return if named = [] then none else some named

def orderItems? (t : Text) : Option (List OrderItem) := do
  ((← splitTop? ',' t).filter (· ≠ [])).mapM orderItem?

def readOrderBy? (sql : Text) : Noting (List OrderItem) := do
  match ← orderBySection? sql with
  | none => return []
  | some body => orderItems? (← nameParams? body)

def readLimitSection? (sql : Text) : Noting (Option Bound × Option Bound) := do
  match ← limitSection? sql with
  | none => return (none, none)
  | some body =>
    let named ← nameParams? body
    match ← limit? named with
    | some (offset, count) => return (some count, offset)
    | none =>
      noting (note (badBound "LIMIT" named))
      return (none, none)

def readOffsetSection? (offset : Option Bound) (sql : Text) : Noting (Option Bound) := do
  match ← offsetSection? sql with
  | none => return offset
  | some body =>
    let named ← nameParams? body
    match bound? named with
    | some bound => return some bound
    | none =>
      noting (note (badBound "OFFSET" named))
      return offset

def readLimitAndOffset? (sql : Text) : Noting (Option Bound × Option Bound) := do
  let (limit, offset) ← readLimitSection? sql
  return (limit, ← readOffsetSection? offset sql)

def readRowCount? (sql : Text) : Noting (Option Bound) := do
  let (limit, offset) ← readLimitSection? sql
  if offset.isSome then
    let written ← limitSection? sql
    noting (note (.malformedClause "LIMIT" (written.getD []) "row offset is not allowed here"))
  return limit

section Refinement

variable {sql : Text}

theorem nameParams?_eq (t : Text) : nameParams? t = noting (nameParams t) := by
  simp only [nameParams?, scan?_eq, lift_some, pure_bind, map_snd_spots]
  rfl

theorem readWhere?_eq (sql : Text) : readWhere? sql = noting (readWhere sql) := by
  simp only [readWhere?, readWhere, whereSection?_eq, lift_some, pure_bind]
  cases QueryChain.whereSection? sql with
  | none => rfl
  | some body =>
    simp only [normalize?_eq, lift_some, pure_bind, nameParams?_eq, splitConditions?_eq, noting_bind]
    congr 1
    funext named
    split_ifs <;> rfl

theorem readGroupBy?_eq (sql : Text) : readGroupBy? sql = noting (readGroupBy sql) := by
  simp only [readGroupBy?, readGroupBy, groupBySection?_eq, lift_some, pure_bind]
  cases QueryChain.groupBySection? sql with
  | none => rfl
  | some body =>
    simp only [nameParams?_eq, splitTop?_eq, lift_some, noting_bind]
    rfl

theorem readHaving?_eq (sql : Text) : readHaving? sql = noting (readHaving sql) := by
  simp only [readHaving?, readHaving, havingSection?_eq, lift_some, pure_bind]
  cases QueryChain.havingSection? sql with
  | none => rfl
  | some body =>
    simp only [nameParams?_eq, noting_bind]
    rfl

theorem orderItems?_eq (t : Text) : orderItems? t = some (((splitTop ',' t).filter (· ≠ [])).map orderItem) := by
  simp only [orderItems?, splitTop?_eq, Option.bind_eq_bind, Option.bind_some]
  exact mapM_some fun u member => orderItem?_eq (trim_of_mem_splitTop (List.mem_of_mem_filter member))

theorem readOrderBy?_eq (sql : Text) : readOrderBy? sql = noting (readOrderBy sql) := by
  simp only [readOrderBy?, readOrderBy, orderBySection?_eq, lift_some, pure_bind]
  cases QueryChain.orderBySection? sql with
  | none => rfl
  | some body =>
    simp only [nameParams?_eq, orderItems?_eq, lift_some, noting_bind]
    rfl

theorem readLimitSection?_eq (sql : Text) : readLimitSection? sql = noting (readLimitSection sql) := by
  simp only [readLimitSection?, readLimitSection, limitSection?_eq, lift_some, pure_bind]
  cases QueryChain.limitSection? sql with
  | none => rfl
  | some body =>
    simp only [nameParams?_eq, limit?_eq, lift_some, pure_bind, noting_bind]
    congr 1
    funext named
    cases QueryChain.limit? named <;> rfl

theorem readOffsetSection?_eq (offset : Option Bound) (sql : Text) :
    readOffsetSection? offset sql = noting (readOffsetSection offset sql) := by
  simp only [readOffsetSection?, readOffsetSection, offsetSection?_eq, lift_some, pure_bind]
  cases QueryChain.offsetSection? sql with
  | none => rfl
  | some body =>
    simp only [nameParams?_eq, noting_bind]
    congr 1
    funext named
    cases bound? named <;> rfl

theorem readLimitAndOffset?_eq (sql : Text) : readLimitAndOffset? sql = noting (readLimitAndOffset sql) := by
  simp only [readLimitAndOffset?, readLimitAndOffset, readLimitSection?_eq, readOffsetSection?_eq, noting_bind, noting_pure]

theorem readRowCount?_eq (sql : Text) : readRowCount? sql = noting (readRowCount sql) := by
  simp only [readRowCount?, readRowCount, readLimitSection?_eq, limitSection?_eq, lift_some, pure_bind, noting_bind]
  congr 1
  funext bounds
  split_ifs <;> rfl

end Refinement
end Bytewise
end QueryChain
