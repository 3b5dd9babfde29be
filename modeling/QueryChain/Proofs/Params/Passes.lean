import QueryChain.Proofs.Params.Naming
import QueryChain.Proofs.Params.Passing

namespace QueryChain

structure Fresh (t : Text) : Prop where
  dashes : DashesOnly {} t
  free : ¬paramMarker <:+: t

theorem Fresh.clear {t : Text} (fresh : Fresh t) (issued : Nat) : Clear (numbered issued t) :=
  clear_numbered fresh.dashes fresh.free

/-- What is named between two progresses against what is passed on of it. -/
def Passes (p p' : Progress) (passed : List Nat) (kept once : Prop) : Prop :=
  ∃ entries, p'.named = p.named ++ entries ∧
    Account (entries.flatMap fun e => namesIn e.2) passed kept once

namespace Passes

variable {p p₁ p' : Progress} {passed passed' : List Nat} {kept once kept' once' : Prop} {t : Text}

theorem refl (p : Progress) : Passes p p [] True True := ⟨[], by simp, .exact []⟩

theorem trans (first : Passes p p₁ passed kept once) (second : Passes p₁ p' passed' kept' once') :
    Passes p p' (passed ++ passed') (kept ∧ kept') (once ∧ once') := by
  obtain ⟨entries, named, account⟩ := first
  obtain ⟨entries', named', account'⟩ := second
  refine ⟨entries ++ entries', ?_, ?_⟩
  · rw [named', named, List.append_assoc]
  · rw [List.flatMap_append]
    exact account.append account'

theorem of_iff (passes : Passes p p' passed kept once) (sameKept : kept ↔ kept')
    (sameOnce : once ↔ once') : Passes p p' passed kept' once' := by
  obtain ⟨entries, named, account⟩ := passes
  exact ⟨entries, named, account.of_iff sameKept sameOnce⟩

theorem of_perm (passes : Passes p p' passed kept once) (out : passed'.Perm passed) :
    Passes p p' passed' kept once := by
  obtain ⟨entries, named, account⟩ := passes
  exact ⟨entries, named, account.of_perm (.refl _) out⟩

theorem of_named (passes : Passes p p₁ passed kept once) (same : p'.named = p₁.named) :
    Passes p p' passed kept once := by
  obtain ⟨entries, named, account⟩ := passes
  exact ⟨entries, same.trans named, account⟩

theorem nameParams (fresh : Fresh t)
    (account : Account (paramsIn (nameParams t p).1) passed kept once) :
    Passes p (nameParams t p).2 passed kept once := by
  refine ⟨[(t, numbered p.issued t)], rfl, ?_⟩
  rw [List.flatMap_singleton, ← (fresh.clear p.issued).shown]
  exact account

end Passes
section Refinement

variable {sql : Text} {p : Progress}

theorem passes_readWhere (fresh : ∀ t ∈ (whereSection? sql).map normalize, Fresh t) :
    Passes p (readWhere sql p).2 ((readWhere sql p).1.flatMap (paramsIn ·.text)) True True := by
  cases found : whereSection? sql with
  | none =>
    rw [readWhere_eq_none sql p found]
    exact .refl p
  | some body =>
    rw [found] at fresh
    have freshBody : Fresh (normalize body) := fresh _ rfl
    have names := paramsIn_splitConditions (freshBody.clear p.issued)
    rw [readWhere_eq_some sql p found]
    have account := Account.exact (paramsIn (nameParams (normalize body) p).1)
    have passes := Passes.nameParams (p := p) freshBody account
    dsimp only
    rw [show (nameParams (normalize body) p).1 = numbered p.issued (normalize body) from rfl] at passes ⊢
    rw [names]
    apply passes.of_named
    split
    · rfl
    · rfl

theorem passes_readGroupBy (fresh : ∀ t ∈ groupBySection? sql, Fresh t) :
    Passes p (readGroupBy sql p).2 ((readGroupBy sql p).1.flatMap paramsIn) True True := by
  rw [readGroupBy]
  cases found : groupBySection? sql with
  | none => exact .refl p
  | some body =>
    have freshBody := fresh body found
    have pieces := splits_splitTop (d := ',') (by decide) (freshBody.clear p.issued)
    have account := Account.exact (paramsIn (nameParams body p).1)
    have passes := Passes.nameParams (p := p) freshBody account
    exact passes.of_perm (.of_eq pieces.names.symm)

theorem passes_readHaving (fresh : ∀ t ∈ havingSection? sql, Fresh t) :
    Passes p (readHaving sql p).2 ((readHaving sql p).1.toList.flatMap paramsIn) True True := by
  rw [readHaving]
  cases found : havingSection? sql with
  | none => exact .refl p
  | some body =>
    have account := Account.exact (paramsIn (nameParams body p).1)
    have passes := Passes.nameParams (p := p) (fresh body found) account
    apply passes.of_perm
    dsimp only
    rw [noting_bind, noting_pure]
    by_cases empty : (nameParams body p).1 = []
    · rw [if_pos empty, empty]
      exact .refl _
    · rw [if_neg empty]
      simp

theorem trim_of_mem_splitTop {d : Char} {t u : Text} (member : u ∈ splitTop d t) : trim u = u := by
  obtain ⟨ms, -, rfl⟩ := exists_of_mem_splitTop member
  exact trim_trim _

theorem passes_readOrderBy (fresh : ∀ t ∈ orderBySection? sql, Fresh t) :
    Passes p (readOrderBy sql p).2 ((readOrderBy sql p).1.flatMap (paramsIn ·.field)) True True := by
  rw [readOrderBy]
  cases found : orderBySection? sql with
  | none => exact .refl p
  | some body =>
    have freshBody := fresh body found
    have pieces := (splits_splitTop (d := ',') (by decide) (freshBody.clear p.issued)).dropEmpty
    have account := Account.exact (paramsIn (nameParams body p).1)
    have passes := Passes.nameParams (p := p) freshBody account
    have items := pieces.map fun u member =>
      splits_orderItem (trim_of_mem_splitTop (List.mem_filter.mp member).1) (pieces.clear u member)
    have names := items.names
    rw [List.flatMap_map] at names
    apply passes.of_perm
    dsimp only
    rw [noting_bind, noting_pure, List.flatMap_map]
    exact .of_eq names.symm

theorem readLimitSection_clean (clean : (readLimitSection sql p).2.issues = []) :
    (limitSection? sql = none ∧ readLimitSection sql p = ((none, none), p)) ∨
      ∃ body offset count, limitSection? sql = some body ∧
        limit? (nameParams body p).1 = some (offset, count) ∧
        readLimitSection sql p = ((some count, offset), (nameParams body p).2) := by
  rw [readLimitSection] at clean ⊢
  cases found : limitSection? sql with
  | none => exact .inl ⟨rfl, rfl⟩
  | some body =>
    rw [found] at clean
    dsimp only at clean ⊢
    rw [noting_bind] at clean ⊢
    cases read : limit? (nameParams body p).1 with
    | none =>
      rw [read] at clean
      simp [noting_bind, noting_pure, note] at clean
    | some bounds => exact .inr ⟨body, bounds.1, bounds.2, rfl, read, rfl⟩

theorem readOffsetSection_clean {offset : Option Bound}
    (clean : (readOffsetSection offset sql p).2.issues = []) :
    (offsetSection? sql = none ∧ readOffsetSection offset sql p = (offset, p)) ∨
      ∃ body b, offsetSection? sql = some body ∧ bound? (nameParams body p).1 = some b ∧
        readOffsetSection offset sql p = (some b, (nameParams body p).2) := by
  rw [readOffsetSection] at clean ⊢
  cases found : offsetSection? sql with
  | none => exact .inl ⟨rfl, rfl⟩
  | some body =>
    rw [found] at clean
    dsimp only at clean ⊢
    rw [noting_bind] at clean ⊢
    cases read : bound? (nameParams body p).1 with
    | none =>
      rw [read] at clean
      simp [noting_bind, noting_pure, note] at clean
    | some b => exact .inr ⟨body, b, rfl, read, rfl⟩

def boundParams (b : Option Bound) : List Nat := b.toList.flatMap (·.arg.params)

theorem passes_readLimitSection (fresh : ∀ t ∈ limitSection? sql, Fresh t)
    (clean : (readLimitSection sql p).2.issues = []) :
    Passes p (readLimitSection sql p).2
      (boundParams (readLimitSection sql p).1.2 ++ boundParams (readLimitSection sql p).1.1)
      True True := by
  rcases readLimitSection_clean clean with ⟨-, eq⟩ | ⟨body, offset, count, found, read, eq⟩
  · rw [eq]
    exact .refl p
  · have freshBody := fresh body found
    have names := params_limit? (freshBody.clear p.issued) read
    have passes := Passes.nameParams freshBody (Account.exact (paramsIn (nameParams body p).1))
    rw [eq]
    apply passes.of_perm
    simpa [boundParams] using .of_eq names

/-- Where the row offset is not passed on, the row count has to take all parameters. -/
theorem passes_rowCount (fresh : ∀ t ∈ limitSection? sql, Fresh t)
    (clean : (readLimitSection sql p).2.issues = []) :
    Passes p (readLimitSection sql p).2 (boundParams (readLimitSection sql p).1.1)
      (∀ body ∈ limitSection? sql, (boundParams (readLimitSection sql p).1.1).length =
        (namesIn (numbered p.issued body)).length) True := by
  rcases readLimitSection_clean clean with ⟨missing, eq⟩ | ⟨body, offset, count, found, read, eq⟩
  · rw [eq, missing]
    exact (Passes.refl p).of_iff (by simp) Iff.rfl
  · have freshBody := fresh body found
    have names := params_limit? (freshBody.clear p.issued) read
    have part : count.arg.params.Sublist (paramsIn (nameParams body p).1) :=
      names ▸ List.sublist_append_right _ _
    have passes := Passes.nameParams freshBody (Account.of_sublist part)
    rw [eq, found]
    have counted : boundParams (some count) = count.arg.params := by simp [boundParams]
    rw [counted]
    apply passes.of_iff _ Iff.rfl
    have shown : paramsIn (nameParams body p).1 = namesIn (numbered p.issued body) :=
      (freshBody.clear p.issued).shown
    rw [shown] at part ⊢
    constructor
    · intro same body' member
      obtain rfl := Option.some.inj member
      rw [same]
    · exact fun same => part.eq_of_length (same body rfl)

/-- Without an offset of its own a query keeps the one in front of its row count, else it loses it. -/
theorem passes_readLimitAndOffset (freshLimit : ∀ t ∈ limitSection? sql, Fresh t)
    (freshOffset : ∀ t ∈ offsetSection? sql, Fresh t)
    (clean : (readLimitAndOffset sql p).2.issues = []) :
    Passes p (readLimitAndOffset sql p).2
      (boundParams (readLimitAndOffset sql p).1.1 ++ boundParams (readLimitAndOffset sql p).1.2)
      ((offsetSection? sql).isSome → ∀ body ∈ limitSection? sql,
        (boundParams (readLimitAndOffset sql p).1.1).length =
          (namesIn (numbered p.issued body)).length) True := by
  have cleanLimit : (readLimitSection sql p).2.issues = [] :=
    (advance_readOffsetSection sql _ _).clean clean
  have parts : readLimitAndOffset sql p =
      (((readLimitSection sql p).1.1,
        (readOffsetSection (readLimitSection sql p).1.2 sql (readLimitSection sql p).2).1),
        (readOffsetSection (readLimitSection sql p).1.2 sql (readLimitSection sql p).2).2) := rfl
  rw [parts] at clean ⊢
  rcases readOffsetSection_clean clean with ⟨missing, eq⟩ | ⟨body, b, found, read, eq⟩
  · rw [eq, missing]
    have passes := passes_readLimitSection freshLimit cleanLimit
    exact (passes.of_iff (by simp) Iff.rfl).of_perm List.perm_append_comm
  · rw [eq, found]
    have count := passes_rowCount freshLimit cleanLimit
    have freshBody := freshOffset body found
    have names := params_bound? (freshBody.clear (readLimitSection sql p).2.issued) read
    have offset := Passes.nameParams freshBody
      (Account.exact (paramsIn (nameParams body (readLimitSection sql p).2).1))
    have both := count.trans offset
    apply (both.of_iff (by simp) (by simp)).of_perm
    rw [show boundParams (some b) = b.arg.params by simp [boundParams], names]
    exact .refl _

theorem passes_readRowCount (fresh : ∀ t ∈ limitSection? sql, Fresh t)
    (clean : (readRowCount sql p).2.issues = []) :
    Passes p (readRowCount sql p).2 (boundParams (readRowCount sql p).1) True True := by
  rw [readRowCount, noting_bind] at clean ⊢
  by_cases offset : (readLimitSection sql p).1.2.isSome
  · simp only [offset, if_true] at clean
    rw [noting_bind, noting_pure] at clean
    simp [note] at clean
  · simp only [offset] at clean ⊢
    have passes := passes_readLimitSection fresh clean
    have none : (readLimitSection sql p).1.2 = none := by simpa using offset
    rw [none] at passes
    exact passes

end Refinement
section Assignments

variable {target : TableRef} {p : Progress}

theorem assignment?_ok {pair : Text} {a : Assignment} (ok : assignment? target pair = .ok a) :
    ∃ column value, cutTop? '=' pair = some (column, value) ∧ a = ⟨columnName column, trim value⟩ := by
  rw [assignment?] at ok
  cases cut : cutTop? '=' pair with
  | none =>
    rw [cut] at ok
    cases ok
  | some parts =>
    obtain ⟨column, value⟩ := parts
    rw [cut] at ok
    dsimp only at ok
    cases foreign : (qualifier? column).filter (!target.isReferredBy ·) with
    | some name =>
      rw [foreign] at ok
      cases ok
    | none =>
      rw [foreign] at ok
      dsimp only at ok
      split_ifs at ok
      cases ok
      exact ⟨column, value, rfl, rfl⟩

theorem readPairs_clean {pairs : List Text} (clean : (readPairs target pairs p).2.issues = []) :
    List.Forall₂ (fun pair a => assignment? target pair = .ok a) pairs (readPairs target pairs p).1 ∧
      (readPairs target pairs p).2 = p := by
  induction pairs generalizing p with
  | nil => exact ⟨.nil, rfl⟩
  | cons pair pairs ih =>
    rw [readPairs] at clean ⊢
    cases ok : assignment? target pair with
    | error issue =>
      rw [ok] at clean
      have before := (advance_readPairs target pairs (note issue p).2).clean clean
      simp [note] at before
    | ok a =>
      rw [ok] at clean
      obtain ⟨rest, stays⟩ := ih clean
      exact ⟨.cons ok rest, stays⟩

def columnTexts (named : Text) : List Text :=
  (splitTop ',' named).filterMap fun pair => (cutTop? '=' pair).map Prod.fst

/-- An assignment passes on its value, and its column without a qualifier and quotes. -/
theorem account_assignment {pair : Text} {a : Assignment} (clear : Clear pair)
    (ok : assignment? target pair = .ok a) (method : Method) :
    Account (paramsIn pair) (assignmentCall method a).params
      (∀ n ∈ (cutTop? '=' pair).map Prod.fst, paramsIn (columnName n) = paramsIn n) True := by
  obtain ⟨column, value, cut, rfl⟩ := assignment?_ok ok
  have parts := splits_cutTop? (by decide) cut clear
  have trimmed := splits_trim (parts.clear value (by simp))
  have lost := Account.of_sublist (paramsIn_columnName_sublist (parts.clear column (by simp)))
  have both := lost.append (Account.exact (paramsIn value))
  rw [parts.names, params_assignmentCall, params_ofValue trimmed.clear_one, ← trimmed.names_one, cut]
  apply (both.of_iff (by simp) (by simp)).of_perm (by simp) (.refl _)

theorem passes_readAssignments (target : TableRef) {list : Text} (fresh : Fresh list)
    (clean : (readAssignments target list p).2.issues = []) (method : Method) :
    Passes p (readAssignments target list p).2
      ((readAssignments target list p).1.flatMap fun a => (assignmentCall method a).params)
      (∀ n ∈ columnTexts (numbered p.issued list), paramsIn (columnName n) = paramsIn n) True := by
  have eq : readAssignments target list p =
      readPairs target (splitTop ',' (nameParams list p).1) (nameParams list p).2 := rfl
  have clear : Clear (nameParams list p).1 := fresh.clear p.issued
  have pieces := splits_splitTop (d := ',') (by decide) clear
  rw [eq] at clean ⊢
  obtain ⟨pairs, stays⟩ := readPairs_clean clean
  have account := Account.flatMap ((List.forall₂_and_left _ _).mpr ⟨pieces.clear, pairs⟩)
    (fun pair a ⟨clear, ok⟩ => account_assignment clear ok method)
  rw [← pieces.names] at account
  have passes := Passes.nameParams fresh account
  rw [stays]
  apply passes.of_iff _ (by simp)
  simp only [columnTexts, List.mem_filterMap]
  constructor
  · rintro all n ⟨pair, member, cut⟩
    exact all pair member n cut
  · intro all pair member n cut
    exact all n ⟨pair, member, cut⟩

end Assignments
end QueryChain
