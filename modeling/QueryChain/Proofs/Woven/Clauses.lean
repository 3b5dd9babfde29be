import QueryChain.Conversion
import QueryChain.Proofs.Woven.Values

namespace QueryChain

section Relations

/-- Arguments of one sort, of which texts may differ as told. -/
inductive Arg.Alike (R : Text → Text → Prop) : Arg → Arg → Prop
  | str {t u : Text} (related : R t u) : Arg.Alike R (.str t) (.str u)
  | int (n : Nat) : Arg.Alike R (.int n) (.int n)
  | param (n : Nat) : Arg.Alike R (.param n) (.param n)

structure Call.Alike (R : Text → Text → Prop) (c c' : Call) : Prop where
  method : c.method = c'.method
  args : List.Forall₂ (Arg.Alike R) c.args c'.args

inductive Outcome.Alike : Outcome → Outcome → Prop
  | success : Outcome.Alike .success .success
  | partialSuccess {is js : List Issue} (related : List.Forall₂ Issue.Alike is js) :
      Outcome.Alike (.partialSuccess is) (.partialSuccess js)

/-- Conversions that are the same but for texts that differ as told. -/
structure Conversion.Alike (R : Text → Text → Prop) (c c' : Conversion) : Prop where
  kind : c.kind = c'.kind
  paramCount : c.paramCount = c'.paramCount
  distinct : c.clauses.distinct = c'.clauses.distinct
  limit : c.clauses.limit = c'.clauses.limit
  offset : c.clauses.offset = c'.clauses.offset
  joinKinds : c.clauses.joins.map Join.kind = c'.clauses.joins.map Join.kind
  connectives : c.clauses.conditions.map Condition.connective = c'.clauses.conditions.map Condition.connective
  directions : c.clauses.orderBy.map OrderItem.direction = c'.clauses.orderBy.map OrderItem.direction
  calls : List.Forall₂ (Call.Alike R) c.calls c'.calls
  outcome : c.outcome.Alike c'.outcome

variable {R S : Text → Text → Prop}

theorem Call.Alike.imp {c c' : Call} (implies : ∀ t u, R t u → S t u) (alike : Call.Alike R c c') : Call.Alike S c c' := by
  refine ⟨alike.method, alike.args.imp fun a a' related => ?_⟩
  cases related with
  | str related => exact .str (implies _ _ related)
  | int n => exact .int n
  | param n => exact .param n

theorem Conversion.Alike.imp {c c' : Conversion} (implies : ∀ t u, R t u → S t u) (alike : Conversion.Alike R c c') :
    Conversion.Alike S c c' :=
  { alike with calls := alike.calls.imp fun _ _ => Call.Alike.imp implies }

end Relations
section Texts

variable {w : Weave} {s : ScanState} {t u : Text}

inductive Weave.Alike (w : Weave) : Text → Text → Prop
  | nil : w.Alike [] []
  | char {c d : Char} {t u : Text} (same : w.same c d) (rest : w.Alike t u) : w.Alike (c :: t) (d :: u)
  | literal {t u : Text} (quiet : w.quiet) (rest : w.Alike t u) : w.Alike (literal w.body ++ t) (literal w.body' ++ u)

theorem Woven.alike (woven : Woven w s t u) : w.Alike t u := by
  induction woven with
  | nil => exact .nil
  | char same _ _ ih => exact .char same ih
  | literal quiet _ _ ih => exact .literal quiet ih

theorem Weave.Bare.alike (bare : w.Bare t u) : w.Alike t u := by
  induction bare with
  | nil => exact .nil
  | cons same _ ih => exact .char same ih

theorem Weave.bare_refl (w : Weave) (t : Text) : w.Bare t t := List.forall₂_same.mpr fun c _ => w.refl c

theorem Weave.alike_refl (w : Weave) (t : Text) : w.Alike t t := (w.bare_refl t).alike

theorem Weave.Alike.append {t' u' : Text} (first : w.Alike t u) (second : w.Alike t' u') : w.Alike (t ++ t') (u ++ u') := by
  induction first with
  | nil => exact second
  | char same _ ih => exact .char same ih
  | literal quiet _ ih =>
    rw [List.append_assoc, List.append_assoc]
    exact .literal quiet ih

end Texts
section Parts

variable {w : Weave}

structure Weave.Value (w : Weave) (t u : Text) : Prop where
  woven : Woven w {} t u
  param : param? t = param? u

structure Weave.Assignment (w : Weave) (a a' : Assignment) : Prop where
  column : w.Bare a.column a'.column
  value : w.Value a.value a'.value

structure Weave.OrderItem (w : Weave) (o o' : OrderItem) : Prop where
  field : w.Alike o.field o'.field
  direction : o.direction = o'.direction

structure Weave.Where (w : Weave) (c c' : QueryChain.Condition) : Prop where
  connective : c.connective = c'.connective
  text : w.Alike c.text c'.text

inductive Weave.Source (w : Weave) : InsertSource → InsertSource → Prop
  | assignments {as as' : List QueryChain.Assignment} (related : List.Forall₂ w.Assignment as as') :
      w.Source (.assignments as) (.assignments as')
  | positional {vs vs' : List Text} (related : List.Forall₂ w.Value vs vs') : w.Source (.positional vs) (.positional vs')
  | query {columns columns' : List Text} {t u : Text} (names : List.Forall₂ w.Bare columns columns') (text : w.Alike t u) :
      w.Source (.query columns t) (.query columns' u)

structure Weave.Clauses (w : Weave) (c c' : QueryChain.Clauses) : Prop where
  kind : c.kind = c'.kind
  distinct : c.distinct = c'.distinct
  fields : List.Forall₂ w.Alike c.fields c'.fields
  table : Option.Rel w.Table c.table c'.table
  extraTables : List.Forall₂ w.Table c.extraTables c'.extraTables
  joins : List.Forall₂ w.Join c.joins c'.joins
  conditions : List.Forall₂ w.Where c.conditions c'.conditions
  groupBy : List.Forall₂ w.Alike c.groupBy c'.groupBy
  having : Option.Rel w.Alike c.having c'.having
  orderBy : List.Forall₂ w.OrderItem c.orderBy c'.orderBy
  limit : c.limit = c'.limit
  offset : c.offset = c'.offset
  assignments : List.Forall₂ w.Assignment c.assignments c'.assignments
  source : Option.Rel w.Source c.source c'.source

end Parts
section Calls

variable {w : Weave} {r r' : TableRef} {c c' : QueryChain.Clauses}

theorem forall₂_toList {α β : Type} {R : α → β → Prop} {o : Option α} {o' : Option β} (related : Option.Rel R o o') :
    List.Forall₂ R o.toList o'.toList := by
  cases related with
  | none => exact .nil
  | some same => exact .cons same .nil

theorem forall₂_zipIdx {α β : Type} {R : α → β → Prop} {l : List α} {m : List β} (related : List.Forall₂ R l m) (n : Nat) :
    List.Forall₂ (fun a b => R a.1 b.1 ∧ a.2 = b.2) (l.zipIdx n) (m.zipIdx n) := by
  induction related generalizing n with
  | nil => exact .nil
  | cons first _ ih => exact .cons ⟨first, rfl⟩ (ih (n + 1))

theorem map_eq_of_forall₂ {α β γ : Type} {R : α → β → Prop} {f : α → γ} {g : β → γ} {l : List α} {m : List β}
    (related : List.Forall₂ R l m) (same : ∀ a b, R a b → f a = g b) : l.map f = m.map g := by
  induction related with
  | nil => rfl
  | cons first _ ih => rw [List.map_cons, List.map_cons, same _ _ first, ih]

theorem Weave.Table.writtenAlias? (table : w.Table r r') : Option.Rel w.Bare r.writtenAlias? r'.writtenAlias? := by
  rw [TableRef.writtenAlias?, TableRef.writtenAlias?, table.aliasWritten]
  split
  · exact table.aliasName
  · exact .none

theorem Weave.Table.reference (table : w.Table r r') : w.Bare r.reference r'.reference := by
  have written := table.writtenAlias?
  rw [TableRef.reference, TableRef.reference]
  generalize r.writtenAlias? = o at written
  generalize r'.writtenAlias? = o' at written
  cases written with
  | none => exact table.table
  | some same => exact same

theorem Weave.Table.isReferredBy_eq {name name' : Text} (table : w.Table r r') (names : w.Bare name name') :
    r.isReferredBy name = r'.isReferredBy name' := by
  rw [TableRef.isReferredBy, TableRef.isReferredBy, table.reference.sameLetters_eq names, table.table.sameLetters_eq names]

theorem arg_str {t u : Text} (alike : w.Alike t u) : Arg.Alike w.Alike (.str t) (.str u) := .str alike

theorem Weave.Value.arg {t u : Text} (value : w.Value t u) : Arg.Alike w.Alike (.ofValue t) (.ofValue u) := by
  rw [Arg.ofValue, Arg.ofValue, value.param]
  split
  · exact .param _
  · exact .str (value.woven.trim rfl).alike

theorem Weave.Table.call (method : Method) (table : w.Table r r') :
    Call.Alike w.Alike (tableCall method r) (tableCall method r') :=
  ⟨rfl, .cons (.str table.table.alike) (forall₂_map (forall₂_toList table.writtenAlias?) fun _ _ same => .str same.alike)⟩

theorem Weave.Join.call {main main' : Text} {j j' : QueryChain.Join} (reference : w.Bare main main') (join : w.Join j j') :
    Call.Alike w.Alike (joinCall main j) (joinCall main' j') where
  method := congrArg JoinKind.method join.kind
  args := .cons (.str reference.alike) <| .cons (.str join.table.table.alike) <| .cons (.str join.table.reference.alike) <|
    forall₂_map (forall₂_toList join.condition) fun _ _ same => .str same.alike

theorem Weave.Assignment.call {a a' : QueryChain.Assignment} (method : Method) (related : w.Assignment a a') :
    Call.Alike w.Alike (assignmentCall method a) (assignmentCall method a') :=
  ⟨rfl, .cons (.str related.column.alike) (.cons related.value.arg .nil)⟩

theorem calls_conditions {cs cs' : List Condition} (related : List.Forall₂ w.Where cs cs') :
    List.Forall₂ (Call.Alike w.Alike) (conditionCalls cs) (conditionCalls cs') := by
  cases related with
  | nil => exact .nil
  | cons first rest =>
    refine .cons ⟨rfl, .cons (.str first.text) .nil⟩ (forall₂_map rest fun c c' same => ⟨?_, .cons (.str same.text) .nil⟩)
    rw [laterConditionCall, laterConditionCall, same.connective]

theorem calls_source {x x' : InsertSource} (related : w.Source x x') :
    List.Forall₂ (Call.Alike w.Alike) x.calls x'.calls := by
  cases related with
  | assignments related => exact forall₂_map related fun _ _ same => same.call .setValue
  | @positional vs vs' related =>
    rw [InsertSource.calls, InsertSource.calls, positionalCalls, positionalCalls, List.mapIdx_eq_zipIdx_map,
      List.mapIdx_eq_zipIdx_map]
    refine forall₂_map (forall₂_zipIdx related 0) fun a b same => ?_
    obtain ⟨v, i⟩ := a
    obtain ⟨v', i'⟩ := b
    obtain ⟨value, rfl⟩ := same
    exact ⟨rfl, .cons (.int _) (.cons value.arg .nil)⟩
  | @query columns columns' t u names text =>
    have empty : columns = [] ↔ columns' = [] := by
      rw [← List.length_eq_zero_iff, ← List.length_eq_zero_iff, names.length_eq]
    have label : w.Bare (queryLabel columns) (queryLabel columns') := by
      rw [queryLabel, queryLabel]
      simp only [empty]
      split
      · exact w.bare_refl _
      · exact List.rel_append (List.rel_append (w.bare_refl _) (Weave.Bare.joinWith names _)) (w.bare_refl _)
    exact .cons ⟨rfl, .cons (.str label.alike) (.cons (.str text) .nil)⟩ .nil

namespace Weave.Clauses

theorem joinCalls (related : w.Clauses c c') : List.Forall₂ (Call.Alike w.Alike) c.joinCalls c'.joinCalls := by
  have table := related.table
  rw [QueryChain.Clauses.joinCalls, QueryChain.Clauses.joinCalls, QueryChain.Clauses.mainReference?,
    QueryChain.Clauses.mainReference?]
  generalize c.table = o at table
  generalize c'.table = o' at table
  cases table with
  | none => exact .nil
  | some main => exact forall₂_map related.joins fun _ _ join => join.call main.reference

theorem orderCalls (related : w.Clauses c c') : List.Forall₂ (Call.Alike w.Alike) c.orderCalls c'.orderCalls :=
  forall₂_map related.orderBy fun o o' same =>
    ⟨rfl, .cons (.str same.field) (.cons (by rw [same.direction]; exact .str (w.alike_refl _)) .nil)⟩

theorem boundCall (method : Method) (b : Bound) : Call.Alike w.Alike ⟨method, [b.arg]⟩ ⟨method, [b.arg]⟩ := by
  cases b with
  | literal n => exact ⟨rfl, .cons (.int n) .nil⟩
  | param n => exact ⟨rfl, .cons (.param n) .nil⟩

theorem boundCalls (method : Method) (o : Option Bound) : List.Forall₂ (Call.Alike w.Alike)
    (o.toList.map fun b => ⟨method, [b.arg]⟩) (o.toList.map fun b => ⟨method, [b.arg]⟩) := by
  cases o with
  | none => exact .nil
  | some b => exact .cons (boundCall method b) .nil

theorem limitCalls (related : w.Clauses c c') : List.Forall₂ (Call.Alike w.Alike) c.limitCalls c'.limitCalls := by
  rw [QueryChain.Clauses.limitCalls, QueryChain.Clauses.limitCalls, related.limit]
  exact boundCalls .setMaxResults c'.limit

theorem tableCalls (method : Method) (related : w.Clauses c c') :
    List.Forall₂ (Call.Alike w.Alike) (c.tableCalls method) (c'.tableCalls method) :=
  forall₂_map (forall₂_toList related.table) fun _ _ table => table.call method

theorem selectCalls (related : w.Clauses c c') : List.Forall₂ (Call.Alike w.Alike) c.selectCalls c'.selectCalls := by
  have fields : List.Forall₂ (Call.Alike w.Alike) (if c.fields = [] then [] else [⟨.select, c.fields.map .str⟩])
      (if c'.fields = [] then [] else [⟨.select, c'.fields.map .str⟩]) := by
    have listed := related.fields
    generalize c.fields = l at listed
    generalize c'.fields = m at listed
    cases listed with
    | nil => exact .nil
    | cons first rest => exact .cons ⟨rfl, forall₂_map (.cons first rest) fun _ _ => arg_str⟩ .nil
  have distinct : List.Forall₂ (Call.Alike w.Alike) (if c.distinct then [⟨.distinct, []⟩] else [])
      (if c'.distinct then [⟨.distinct, []⟩] else []) := by
    rw [related.distinct]
    split
    · exact .cons ⟨rfl, .nil⟩ .nil
    · exact .nil
  have offset : List.Forall₂ (Call.Alike w.Alike) (c.offset.toList.map fun b => ⟨.setFirstResult, [b.arg]⟩)
      (c'.offset.toList.map fun b => ⟨.setFirstResult, [b.arg]⟩) := by
    rw [related.offset]
    exact boundCalls .setFirstResult c'.offset
  have tables := List.rel_append (forall₂_toList related.table) related.extraTables
  refine List.rel_append (List.rel_append (List.rel_append (List.rel_append (List.rel_append (List.rel_append
    (List.rel_append (List.rel_append (List.rel_append fields distinct) ?_) related.joinCalls) ?_) ?_) ?_)
    related.orderCalls) related.limitCalls) offset
  · exact forall₂_map tables fun _ _ table => table.call .addFrom
  · exact calls_conditions related.conditions
  · exact forall₂_map related.groupBy fun _ _ same => ⟨rfl, .cons (.str same) .nil⟩
  · exact forall₂_map (forall₂_toList related.having) fun _ _ same => ⟨rfl, .cons (.str same) .nil⟩

theorem insertCalls (related : w.Clauses c c') : List.Forall₂ (Call.Alike w.Alike) c.insertCalls c'.insertCalls := by
  have source := related.source
  rw [QueryChain.Clauses.insertCalls, QueryChain.Clauses.insertCalls]
  refine List.rel_append ?_ ?_
  · exact forall₂_map (forall₂_toList related.table) fun _ _ table => ⟨rfl, .cons (.str table.table.alike) .nil⟩
  · generalize c.source = o at source
    generalize c'.source = o' at source
    cases source with
    | none => exact .nil
    | some same => simpa using calls_source same

theorem updateCalls (related : w.Clauses c c') : List.Forall₂ (Call.Alike w.Alike) c.updateCalls c'.updateCalls :=
  List.rel_append (List.rel_append (List.rel_append (List.rel_append (List.rel_append (related.tableCalls .update)
    (forall₂_map related.assignments fun _ _ same => same.call .set)) related.joinCalls)
    (calls_conditions related.conditions)) related.orderCalls) related.limitCalls

theorem deleteCalls (related : w.Clauses c c') : List.Forall₂ (Call.Alike w.Alike) c.deleteCalls c'.deleteCalls :=
  List.rel_append (List.rel_append (List.rel_append (List.rel_append (related.tableCalls .delete) related.joinCalls)
    (calls_conditions related.conditions)) related.orderCalls) related.limitCalls

/-- Clauses that were read alike give calls that are alike. -/
theorem calls (related : w.Clauses c c') : List.Forall₂ (Call.Alike w.Alike) c.calls c'.calls := by
  rw [QueryChain.Clauses.calls, QueryChain.Clauses.calls, related.kind]
  cases c'.kind with
  | select => exact related.selectCalls
  | insert => exact related.insertCalls
  | update => exact related.updateCalls
  | delete => exact related.deleteCalls

end Weave.Clauses
end Calls
end QueryChain
