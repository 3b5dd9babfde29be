import QueryChain.Proofs.Statement.DerivedTables
import QueryChain.Proofs.Woven.Clauses
import QueryChain.Proofs.Woven.Normal

namespace QueryChain

section Steps

variable {α β α' β' : Type} {R : α → β → Prop} {S : α' → β' → Prop} {n : Nat} {i j : Issue}
  {w : Weave} {t u : Text}

structure Progress.Alike (p p' : Progress) : Prop where
  issued : p.issued = p'.issued
  issues : List.Forall₂ Issue.Alike p.issues p'.issues

def Noting.Alike (n : Nat) (R : α → β → Prop) (x : Noting α) (y : Noting β) : Prop :=
  ∀ p p' : Progress, p.issued = n → p.Alike p' → R (x p).1 (y p').1 ∧ (x p).2.Alike (y p').2

namespace Noting.Alike

theorem pure {a : α} {b : β} (related : R a b) : Noting.Alike n R (pure a : Noting α) (pure b : Noting β) :=
  fun _ _ _ alike => ⟨related, alike⟩

theorem bind {x : Noting α} {y : Noting β} {f : α → Noting α'} {g : β → Noting β'} (first : Noting.Alike n R x y)
    (later : ∀ a b m, R a b → Noting.Alike m S (f a) (g b)) : Noting.Alike n S (x >>= f) (y >>= g) := by
  intro p p' start alike
  obtain ⟨related, alike⟩ := first p p' start alike
  rw [noting_bind, noting_bind]
  exact later _ _ _ related _ _ rfl alike

theorem nameParams {f : Text → Noting α} {g : Text → Noting β} (woven : Woven w {} t u)
    (later : Noting.Alike (n + placeholders t) R (f (numbered n t)) (g (numbered n u))) :
    Noting.Alike n R (nameParams t >>= f) (nameParams u >>= g) := by
  rintro p p' rfl alike
  have named : (QueryChain.nameParams t p).2.Alike (QueryChain.nameParams u p').2 :=
    ⟨by rw [QueryChain.nameParams, QueryChain.nameParams, alike.issued, woven.placeholders_eq], alike.issues⟩
  have text : (QueryChain.nameParams u p').1 = numbered p.issued u := by rw [QueryChain.nameParams, alike.issued]
  rw [noting_bind, noting_bind, text]
  exact later _ _ rfl named

theorem noteAll {is js : List Issue} (same : List.Forall₂ Issue.Alike is js) :
    Noting.Alike n (fun _ _ => True) (noteAll is) (noteAll js) :=
  fun _ _ _ alike => ⟨trivial, alike.issued, List.rel_append alike.issues same⟩

theorem note (same : i.Alike j) : Noting.Alike n (fun _ _ => True) (note i) (note j) :=
  fun _ _ _ alike => ⟨trivial, alike.issued, List.rel_append alike.issues (.cons same .nil)⟩

end Noting.Alike

def Reading.Alike (n : Nat) (R : α → β → Prop) (x : Reading α) (y : Reading β) : Prop :=
  Noting.Alike n (Agree R) x.run y.run

namespace Reading.Alike

theorem pure {a : α} {b : β} (related : R a b) : Reading.Alike n R (pure a : Reading α) (pure b : Reading β) :=
  fun _ _ _ alike => ⟨.ok related, alike⟩

theorem refuse (same : i.Alike j) : Reading.Alike n R (refuse i) (refuse j) :=
  fun _ _ _ alike => ⟨.error same, alike⟩

theorem require {o : Option α} {o' : Option β} (related : Option.Rel R o o') (same : i.Alike j) :
    Reading.Alike n (fun a b => o = some a ∧ o' = some b ∧ R a b) (require o i) (require o' j) := by
  cases related with
  | none => exact refuse same
  | some related => exact pure ⟨rfl, rfl, related⟩

theorem lift {x : Noting α} {y : Noting β} (alike : Noting.Alike n R x y) :
    Reading.Alike n R (liftM x : Reading α) (liftM y : Reading β) := by
  intro p p' start related
  obtain ⟨answers, ends⟩ := alike p p' start related
  exact ⟨.ok answers, ends⟩

/-- What the first step does tells how many parameters are named when the next one starts. -/
theorem bind {x : Reading α} {y : Reading β} {f : α → Reading α'} {g : β → Reading β'} (first : Reading.Alike n R x y)
    (later : ∀ a b p p₁, p.issued = n → Gives x p a p₁ → R a b → Reading.Alike p₁.issued S (f a) (g b)) :
    Reading.Alike n S (x >>= f) (y >>= g) := by
  intro p p' start alike
  obtain ⟨answers, ends⟩ := first p p' start alike
  rw [run_bind, run_bind]
  generalize left : x.run p = r at answers ends
  generalize y.run p' = r' at answers ends
  obtain ⟨e, p₁⟩ := r
  obtain ⟨e', p₁'⟩ := r'
  dsimp only at answers ends
  cases answers with
  | error same => exact ⟨.error same, ends⟩
  | ok related => exact later _ _ p p₁ start left related p₁ p₁' rfl ends

theorem nameParams {f : Text → Reading α} {g : Text → Reading β} (woven : Woven w {} t u)
    (later : Reading.Alike (n + placeholders t) R (f (numbered n t)) (g (numbered n u))) :
    Reading.Alike n R (liftM (nameParams t) >>= f) (liftM (nameParams u) >>= g) :=
  Noting.Alike.nameParams (f := fun a => (f a).run) (g := fun b => (g b).run) woven later

theorem refused {γ δ : Type} {f : γ → Reading α} {g : δ → Reading β} (same : i.Alike j) :
    Reading.Alike n R (QueryChain.refuse i >>= f) (QueryChain.refuse j >>= g) :=
  bind (refuse (R := fun _ _ => True) same) fun _ _ _ _ _ none => absurd none gives_refuse

/-- A step behind a check that refuses. -/
theorem guard {c c' : Prop} [Decidable c] [Decidable c'] {f : Unit → Reading α} {g : Unit → Reading β} (same : c ↔ c')
    (issue : i.Alike j) (later : ¬c → Reading.Alike n R (f ()) (g ())) :
    Reading.Alike n R (if c then QueryChain.refuse i >>= f else f ()) (if c' then QueryChain.refuse j >>= g else g ()) := by
  by_cases stops : c
  · rw [if_pos stops, if_pos (same.mp stops)]
    exact .refused issue
  · rw [if_neg stops, if_neg (stops ∘ same.mpr)]
    exact later stops

end Reading.Alike
end Steps
section Splitting

variable {w : Weave} {t u : Text} {cs cs' : List QueryChain.Condition} {c c' : QueryChain.Condition}

theorem Weave.Condition.where_ (related : w.Condition c c') : w.Where c c' := ⟨related.1, related.2.alike⟩

theorem forall₂_foldAnds (afterOr : Bool) (last : w.Where c c') (related : List.Forall₂ w.Where cs cs') :
    List.Forall₂ w.Where (foldAnds afterOr c cs) (foldAnds afterOr c' cs') := by
  induction related generalizing afterOr c c' with
  | nil => exact .cons last .nil
  | @cons d d' _ _ first _ ih =>
    rw [foldAnds, foldAnds, first.connective]
    split
    · exact ih _ ⟨last.connective, (last.text.append (w.alike_refl _)).append first.text⟩
    · exact .cons last (ih _ first)

theorem forall₂_foldPrecedence (related : List.Forall₂ w.Where cs cs') :
    List.Forall₂ w.Where (foldPrecedence cs) (foldPrecedence cs') := by
  cases related with
  | nil => exact .nil
  | cons first rest =>
    rw [foldPrecedence, foldPrecedence, first.connective]
    exact forall₂_foldAnds _ first rest

theorem Woven.splitConditions (woven : Woven w {} t u) :
    List.Forall₂ w.Where (splitConditions t) (splitConditions u) := by
  have pieces := woven.conditionPieces.imp fun _ _ => Weave.Condition.where_
  have whole : List.Forall₂ w.Where [⟨t, none⟩] [⟨u, none⟩] := .cons ⟨rfl, woven.alike⟩ .nil
  rw [QueryChain.splitConditions, QueryChain.splitConditions, woven.isGroup_eq, pieces.length_eq]
  simp only [woven.nil_iff]
  split
  · exact .nil
  · split
    · exact whole
    · split
      · exact whole
      · exact forall₂_foldPrecedence pieces

theorem Woven.take_back {s : ScanState} (woven : Woven w s t u) (n : Nat) (open_ : '\'' ∉ t.drop (t.length - n)) :
    Woven w s (t.take (t.length - n)) (u.take (u.length - n)) := by
  induction n with
  | zero => simpa using woven
  | succ n ih =>
    have shorter : '\'' ∉ t.drop (t.length - n) := fun member =>
      open_ ((List.drop_subset_drop_left t (by omega)) member)
    have dropped (x : Text) : x.take (x.length - (n + 1)) = (x.take (x.length - n)).dropLast := by
      rw [List.dropLast_eq_take, List.take_take, List.length_take]
      congr 1
      omega
    rw [dropped, dropped]
    apply (ih shorter).dropLast
    intro last
    have inside : t.length - n ≠ 0 := by
      intro empty
      rw [empty] at last
      cases last
    rw [List.getLast?_eq_getElem?, List.length_take, min_eq_left (Nat.sub_le _ _), List.getElem?_take,
      if_pos (by omega), show t.length - n - 1 = t.length - (n + 1) from by omega] at last
    apply open_
    apply List.mem_of_getElem? (i := 0)
    rw [List.getElem?_drop, Nat.add_zero, last]

end Splitting
section Items

variable {w : Weave} {t u : Text}

theorem alike_orderItem (woven : Woven w {} t u) (trimmed : trim t = t) : w.OrderItem (orderItem t) (orderItem u) := by
  have whole : w.OrderItem ⟨t, .ascending⟩ ⟨u, .ascending⟩ := ⟨woven.alike, rfl⟩
  have related := List.rel_reverse woven.tokens
  rw [orderItem, orderItem]
  generalize left : (tokens t).reverse = ts at related
  generalize (tokens u).reverse = us at related
  cases related with
  | nil => exact whole
  | @cons last last' _ _ word rest =>
    cases rest with
    | nil => exact whole
    | cons _ _ =>
      obtain ⟨front, b, text, -⟩ := last_token trimmed left (by simp)
      have behind : t.drop (t.length - last.length) = last := by
        conv_lhs => rw [text]
        rw [List.length_append, Nat.add_sub_cancel, List.drop_left]
      have directed (d : Direction) (named : upper last = d.word) :
          w.OrderItem ⟨trim (t.take (t.length - last.length)), d⟩ ⟨trim (u.take (u.length - last'.length)), d⟩ := by
        have open_ : '\'' ∉ last := by
          intro member
          have quote : '\'' ∈ upper last := List.mem_map.mpr ⟨_, member, rfl⟩
          rw [named] at quote
          cases d <;> exact absurd quote (by decide)
        have named' : upper last' = d.word := (word.upper_eq_iff (by cases d <;> decide)).mp named
        have length : last'.length = last.length := by
          have same := congrArg List.length (named'.trans named.symm)
          rwa [upper, upper, List.length_map, List.length_map] at same
        rw [length]
        exact ⟨((woven.take_back _ (by rwa [behind])).trim rfl).alike, rfl⟩
      have same (d : Direction) : sameLetters last d.word = sameLetters last' d.word := by
        rw [Bool.eq_iff_iff, sameLetters_iff, sameLetters_iff]
        cases d <;> exact word.upper_eq_iff (by decide)
      have descending := same .descending
      have ascending := same .ascending
      dsimp only [Direction.word] at descending ascending ⊢
      rw [← descending, ← ascending]
      split_ifs with named named
      · exact directed .descending (sameLetters_iff.mp named)
      · exact directed .ascending (sameLetters_iff.mp named)
      · exact whole

end Items
section Clauses

variable {w : Weave} {t u : Text} {n : Nat} {k : Keyword} {ends : List Keyword}

theorem steady_section (isKeyword : IsKeyword k) (areKeywords : ∀ k ∈ ends, IsKeyword k) (normal : IsNormal t) {body : Text}
    (found : section? k ends t = some body) : Steady body := by
  obtain ⟨p, b, e, sec, rfl⟩ := section?_eq_some isKeyword areKeywords found
  obtain ⟨b', e', -, -, region, trimmed⟩ := sec.region isKeyword
  exact Excerpt.steady ⟨t, b', e', normal, region, trimmed⟩

theorem infix_section {body : Text} (found : section? k ends t = some body) (isKeyword : IsKeyword k)
    (areKeywords : ∀ k ∈ ends, IsKeyword k) : body <:+: t := by
  obtain ⟨p, b, e, -, rfl⟩ := section?_eq_some isKeyword areKeywords found
  exact (infix_trim _).trans (infix_slice ..)

theorem alike_clause {α β : Type} {R : α → β → Prop} {a : α} {b : β} {f : Text → Noting α} {g : Text → Noting β}
    (woven : Woven w {} t u) (isKeyword : IsKeyword k) (areKeywords : ∀ k ∈ ends, IsKeyword k) (missing : R a b)
    (given : ∀ body body', section? k ends t = some body → section? k ends u = some body' → Woven w {} body body' →
      Noting.Alike n R (f body) (g body')) :
    Noting.Alike n R (match section? k ends t with
      | none => pure a
      | some body => f body) (match section? k ends u with
      | none => pure b
      | some body => g body) := by
  have found := rel_section? isKeyword areKeywords woven
  generalize left : section? k ends t = o at found given
  generalize right : section? k ends u = o' at found given
  cases found with
  | none => exact .pure missing
  | some body => exact given _ _ rfl rfl body

theorem alike_readWhere (woven : Woven w {} t u) (normal : w.quiet → IsNormal t) :
    Noting.Alike n (List.Forall₂ w.Where) (readWhere t) (readWhere u) := by
  refine alike_clause woven (by decide) (by decide) .nil fun body body' found _ related => ?_
  have cleaned := related.normalize fun quiet => steady_section (by decide) (by decide) (normal quiet) found
  refine .nameParams cleaned ?_
  have split := (cleaned.numbered n).splitConditions
  have empty : splitConditions (numbered n (normalize body)) = [] ↔ splitConditions (numbered n (normalize body')) = [] := by
    rw [← List.length_eq_zero_iff, split.length_eq, List.length_eq_zero_iff]
  dsimp only
  simp only [empty]
  split
  · exact .bind (.note rfl) fun _ _ _ _ => .pure split
  · exact .pure split

theorem alike_readGroupBy (woven : Woven w {} t u) : Noting.Alike n (List.Forall₂ w.Alike) (readGroupBy t) (readGroupBy u) :=
  alike_clause woven (by decide) (by decide) .nil fun _ _ _ _ related =>
    .nameParams related (.pure (((related.numbered n).splitTop (by decide)).imp fun _ _ => Woven.alike))

theorem alike_readHaving (woven : Woven w {} t u) : Noting.Alike n (Option.Rel w.Alike) (readHaving t) (readHaving u) := by
  refine alike_clause woven (by decide) (by decide) .none fun _ _ _ _ related => .nameParams related (.pure ?_)
  have named := related.numbered n
  simp only [named.nil_iff]
  split
  · exact .none
  · exact .some named.alike

theorem alike_readOrderBy (woven : Woven w {} t u) :
    Noting.Alike n (List.Forall₂ w.OrderItem) (readOrderBy t) (readOrderBy u) := by
  refine alike_clause woven (by decide) (by decide) .nil fun body _ _ _ related => .nameParams related (.pure ?_)
  have pieces := (related.numbered n).splitTop (x := ',') (by decide)
  have trimmed := (List.forall₂_and_left (p := fun piece => trim piece = piece) _ _).mpr
    ⟨fun _ => trim_of_mem_splitTop, pieces⟩
  refine forall₂_map (forall₂_filter trimmed fun a b related => ?_) fun _ _ related => alike_orderItem related.2 related.1
  simp only [ne_eq, related.2.nil_iff]

def Weave.Nameless (w : Weave) (t u : Text) : Prop := (∀ c d, w.same c d → c = d) ∨ Unmarked t ∧ Unmarked u

theorem Weave.Nameless.within {x y : Text} (nameless : w.Nameless t u) (inside : x <:+: t) (inside' : y <:+: u) :
    w.Nameless x y :=
  nameless.imp id fun both => ⟨both.1.within inside, both.2.within inside'⟩

theorem Weave.Nameless.numbered (nameless : w.Nameless t u) (n : Nat) : w.Legible (numbered n t) (numbered n u) :=
  nameless.imp id fun both => ⟨both.1.numbered n, both.2.numbered n⟩

theorem alike_readLimitSection (woven : Woven w {} t u) (nameless : w.Nameless t u) :
    Noting.Alike n Eq (readLimitSection t) (readLimitSection u) := by
  refine alike_clause woven (by decide) (by decide) rfl fun body body' found found' related => .nameParams related ?_
  have inside := nameless.within (infix_section found (by decide) (by decide)) (infix_section found' (by decide) (by decide))
  rw [(related.numbered n).limit?_eq (inside.numbered n)]
  cases limit? (numbered n body') with
  | some bounds => exact .pure rfl
  | none => exact .bind (.note rfl) fun _ _ _ _ => .pure rfl

theorem alike_readOffsetSection (woven : Woven w {} t u) (nameless : w.Nameless t u) (offset : Option Bound) :
    Noting.Alike n Eq (readOffsetSection offset t) (readOffsetSection offset u) := by
  refine alike_clause woven (by decide) (by decide) rfl fun body body' found found' related => .nameParams related ?_
  have inside := nameless.within (infix_section found (by decide) (by decide)) (infix_section found' (by decide) (by decide))
  rw [(related.numbered n).bound?_eq (inside.numbered n)]
  cases bound? (numbered n body') with
  | some bound => exact .pure rfl
  | none => exact .bind (.note rfl) fun _ _ _ _ => .pure rfl

theorem alike_readLimitAndOffset (woven : Woven w {} t u) (nameless : w.Nameless t u) :
    Noting.Alike n Eq (readLimitAndOffset t) (readLimitAndOffset u) := by
  refine .bind (alike_readLimitSection woven nameless) fun bounds _ m same => ?_
  subst same
  refine .bind (alike_readOffsetSection woven nameless bounds.2) fun offset _ m same => ?_
  subst same
  exact .pure rfl

theorem alike_readRowCount (woven : Woven w {} t u) (nameless : w.Nameless t u) :
    Noting.Alike n Eq (readRowCount t) (readRowCount u) := by
  refine .bind (alike_readLimitSection woven nameless) fun bounds _ m same => ?_
  subst same
  dsimp only
  split
  · exact .bind (.note rfl) fun _ _ _ _ => .pure rfl
  · exact .pure rfl

end Clauses
section Assignments

variable {w : Weave} {t u : Text} {n : Nat} {target target' : TableRef}

theorem forall₂_legible {ts us : List Text} (related : List.Forall₂ (Woven w {}) ts us) (legible : w.Legible t u)
    (inside : ∀ a ∈ ts, a <:+: t) (inside' : ∀ b ∈ us, b <:+: u) :
    List.Forall₂ (fun a b => Woven w {} a b ∧ w.Legible a b) ts us := by
  induction related with
  | nil => exact .nil
  | cons first _ ih =>
    exact .cons ⟨first, legible.within (inside _ (by simp)) (inside' _ (by simp))⟩
      (ih (fun a member => inside a (by simp [member])) fun b member => inside' b (by simp [member]))

theorem suffix_of_cutTop? {d : Char} {before after : Text} (cut : cutTop? d t = some (before, after)) : after <:+ t := by
  rw [cutTop?] at cut
  have whole := List.dropWhile_suffix (l := scan t) (!·.isTopOf d)
  generalize (scan t).dropWhile (!·.isTopOf d) = ms at cut whole
  cases ms with
  | nil => cases cut
  | cons m ms =>
    cases cut
    have behind := ((List.suffix_cons m ms).trans whole).map Mark.char
    rwa [← markText, ← markText, markText_scan] at behind

theorem agree_assignment? (woven : Woven w {} t u) (legible : w.Legible t u) (table : w.Table target target')
    (column : Option.Rel w.Bare ((cutTop? '=' t).map Prod.fst) ((cutTop? '=' u).map Prod.fst)) :
    Agree w.Assignment (assignment? target t) (assignment? target' u) := by
  have parts := rel_cutTop? (x := '=') (by decide) woven
  rw [assignment?, assignment?]
  generalize left : cutTop? '=' t = o at parts column
  generalize right : cutTop? '=' u = o' at parts column
  cases parts with
  | none => exact .error rfl
  | @some r r' related =>
    obtain ⟨name, value⟩ := r
    obtain ⟨name', value'⟩ := r'
    cases column with
    | some bare =>
    have value_ : w.Value (trim value) (trim value') := by
      refine ⟨related.2.trim rfl, (related.2.trim rfl).param?_eq (legible.within ?_ ?_)⟩
      · exact (infix_trim _).trans (suffix_of_cutTop? left).isInfix
      · exact (infix_trim _).trans (suffix_of_cutTop? right).isInfix
    have columns : w.Bare (columnName name) (columnName name') := bare.columnName
    have noColumn : columnName name = [] ↔ columnName name' = [] := by
      rw [← List.length_eq_zero_iff, columns.length_eq, List.length_eq_zero_iff]
    have foreign : Option.Rel w.Bare ((qualifier? name).filter (!target.isReferredBy ·))
        ((qualifier? name').filter (!target'.isReferredBy ·)) := by
      have qualified := bare.qualifier?
      generalize qualifier? name = q at qualified
      generalize qualifier? name' = q' at qualified
      cases qualified with
      | none => exact .none
      | some same =>
        rw [Option.filter_some, Option.filter_some, table.isReferredBy_eq same]
        split
        · exact .some same
        · exact .none
    dsimp only
    generalize (qualifier? name).filter (!target.isReferredBy ·) = q at foreign
    generalize (qualifier? name').filter (!target'.isReferredBy ·) = q' at foreign
    cases foreign with
    | some _ => exact .error rfl
    | none =>
      dsimp only
      simp only [noColumn, value_.woven.nil_iff]
      split
      · exact .error rfl
      · refine .ok ⟨?_, ?_⟩
        · dsimp only
          exact columns
        · dsimp only
          exact value_

theorem alike_readPairs {pairs pairs' : List Text} (table : w.Table target target')
    (related : List.Forall₂ (fun a b => Woven w {} a b ∧ w.Legible a b) pairs pairs')
    (columns : List.Forall₂ w.Bare (pairs.filterMap fun pair => (cutTop? '=' pair).map Prod.fst)
      (pairs'.filterMap fun pair => (cutTop? '=' pair).map Prod.fst)) :
    Noting.Alike n (List.Forall₂ w.Assignment) (readPairs target pairs) (readPairs target' pairs') := by
  induction related generalizing n with
  | nil => exact .pure .nil
  | @cons pair pair' pairs pairs' first rest ih =>
    have both : Option.Rel w.Bare ((cutTop? '=' pair).map Prod.fst) ((cutTop? '=' pair').map Prod.fst) ∧
        List.Forall₂ w.Bare (pairs.filterMap fun pair => (cutTop? '=' pair).map Prod.fst)
          (pairs'.filterMap fun pair => (cutTop? '=' pair).map Prod.fst) := by
      have cut := rel_cutTop? (x := '=') (by decide) first.1
      rw [List.filterMap_cons, List.filterMap_cons] at columns
      generalize cutTop? '=' pair = o at cut columns ⊢
      generalize cutTop? '=' pair' = o' at cut columns ⊢
      cases cut with
      | none => exact ⟨.none, columns⟩
      | some _ =>
        obtain ⟨here, later⟩ := List.forall₂_cons.mp columns
        exact ⟨.some here, later⟩
    have step := agree_assignment? first.1 first.2 table both.1
    rw [readPairs, readPairs]
    generalize assignment? target pair = x at step
    generalize assignment? target' pair' = y at step
    cases step with
    | ok same => exact .bind (ih both.2) fun _ _ _ more => .pure (.cons same more)
    | error same => exact .bind (.note same) fun _ _ _ _ => ih both.2

theorem alike_readAssignments (woven : Woven w {} t u) (nameless : w.Nameless t u) (table : w.Table target target')
    (columns : List.Forall₂ w.Bare (columnTexts (numbered n t)) (columnTexts (numbered n u))) :
    Noting.Alike n (List.Forall₂ w.Assignment) (readAssignments target t) (readAssignments target' u) := by
  have pieces := (woven.numbered n).splitTop (x := ',') (by decide)
  exact .nameParams woven (alike_readPairs table (forall₂_legible pieces (nameless.numbered n)
    (fun _ => infix_of_mem_splitTop) fun _ => infix_of_mem_splitTop) columns)

end Assignments
section Tables

variable {w : Weave} {t u clause : Text} {n : Nat} {reserved : ReservedWords}

theorem alike_readTable (woven : Woven w {} t u) (names : List.Forall₂ w.Bare (nameTokens t) (nameTokens u)) :
    Reading.Alike n w.Table (readTable reserved clause t) (readTable reserved clause u) := by
  have group : (t.head? == some '(') = true ↔ (u.head? == some '(') = true := by
    rw [beq_iff_eq, beq_iff_eq]
    exact woven.head_iff (by decide)
  dsimp only [readTable]
  refine .guard group rfl fun _ => .bind (.require (rel_ofText? reserved woven names) rfl)
    fun f f' _ _ _ _ ⟨_, _, related⟩ => ?_
  have checked := related.checkTrailing clause
  generalize f.checkTrailing clause = x at checked
  generalize f'.checkTrailing clause = y at checked
  cases checked with
  | error same => exact .refused same
  | ok issues => exact .bind (.lift (.noteAll (forall₂_toList issues))) fun _ _ _ _ _ _ _ => .pure related.table

theorem forall₂_split {α β : Type} {R : α → β → Prop} {l l₁ : List α} {m m₁ : List β} (length : l.length = m.length)
    (related : List.Forall₂ R (l ++ l₁) (m ++ m₁)) : List.Forall₂ R l m ∧ List.Forall₂ R l₁ m₁ := by
  induction l generalizing m with
  | nil =>
    obtain rfl := List.length_eq_zero_iff.mp length.symm
    exact ⟨.nil, related⟩
  | cons a l ih =>
    cases m with
    | nil => cases length
    | cons b m =>
      obtain ⟨first, rest⟩ := List.forall₂_cons.mp related
      obtain ⟨more, behind⟩ := ih (Nat.succ.inj length) rest
      exact ⟨.cons first more, behind⟩

theorem forall₂_flatMap_split {α β γ δ : Type} {R : α → β → Prop} {S : γ → δ → Prop} {f : α → List γ} {g : β → List δ}
    {l : List α} {m : List β} (related : List.Forall₂ R l m) (lengths : ∀ a b, R a b → (f a).length = (g b).length)
    (flat : List.Forall₂ S (l.flatMap f) (m.flatMap g)) :
    List.Forall₂ (fun a b => R a b ∧ List.Forall₂ S (f a) (g b)) l m := by
  induction related with
  | nil => exact .nil
  | cons first _ ih =>
    rw [List.flatMap_cons, List.flatMap_cons] at flat
    obtain ⟨here, later⟩ := forall₂_split (lengths _ _ first) flat
    exact .cons ⟨first, here⟩ (ih later)

theorem alike_readTables {ts us : List Text}
    (related : List.Forall₂ (fun a b => Woven w {} a b ∧ List.Forall₂ w.Bare (nameTokens a) (nameTokens b)) ts us) :
    Reading.Alike n (List.Forall₂ w.Table) (readTables reserved clause ts) (readTables reserved clause us) := by
  induction related generalizing n with
  | nil => exact .pure .nil
  | cons first _ ih =>
    rw [readTables, readTables]
    exact .bind (alike_readTable first.1 first.2) fun _ _ _ _ _ _ table => .bind ih fun _ _ _ _ _ _ more =>
      .pure (.cons table more)

def placeNames (named : Text) : List Text := (tablePlaces named).flatMap nameTokens

theorem Woven.nameTokens (woven : Woven w {} t u) : List.Forall₂ (Woven w {}) (nameTokens t) (nameTokens u) := by
  have words := woven.tokens
  rw [QueryChain.nameTokens, QueryChain.nameTokens]
  generalize QueryChain.tokens t = ts at words
  generalize QueryChain.tokens u = us at words
  cases words with
  | nil => exact .nil
  | cons name rest =>
    exact .cons name (forall₂_toList (rel_map (rel_aliasCandidate? rest) fun _ _ same => same.1))

theorem Woven.tablePlaces (woven : Woven w {} t u) : List.Forall₂ (Woven w {}) (tablePlaces t) (tablePlaces u) :=
  List.rel_append (woven.mainTables.splitTop (by decide)) (forall₂_map woven.joinSegments fun _ _ same => same.table)

structure Weave.Sources (w : Weave) (s s' : Sources) : Prop where
  table : w.Table s.table s'.table
  extraTables : List.Forall₂ w.Table s.extraTables s'.extraTables
  joins : List.Forall₂ w.Join s.joins s'.joins

theorem alike_readSources (many : Bool) (woven : Woven w {} t u)
    (names : List.Forall₂ w.Bare (placeNames (numbered n t)) (placeNames (numbered n u))) :
    Reading.Alike n w.Sources (readSources reserved clause many t) (readSources reserved clause many u) := by
  have named := woven.numbered n
  have fragments := named.mainTables.splitTop (x := ',') (by decide)
  have places := forall₂_flatMap_split named.tablePlaces (fun _ _ same => same.nameTokens.length_eq) names
  rw [tablePlaces, tablePlaces] at places
  obtain ⟨tables, joined⟩ := forall₂_split fragments.length_eq places
  have joined := agree_resolveJoins reserved named (List.forall₂_map_left_iff.mp
    (List.forall₂_map_right_iff.mp joined) |>.imp
    fun _ _ both => both.2)
  dsimp only [readSources]
  refine .nameParams woven ?_
  generalize numbered n t = x at *
  generalize numbered n u = y at *
  rw [fragments.length_eq]
  refine .guard Iff.rfl rfl fun _ => .bind (alike_readTables tables) fun main main' _ _ _ _ tables => ?_
  cases tables with
  | nil => exact .refuse rfl
  | cons first more =>
    dsimp only
    generalize resolveJoins reserved x = r at joined
    generalize resolveJoins reserved y = r' at joined
    cases joined with
    | error same => exact .refuse same
    | @ok a b related =>
      obtain ⟨joins, issues⟩ := a
      obtain ⟨joins', issues'⟩ := b
      have none : joins.isEmpty = joins'.isEmpty := by
        rw [Bool.eq_iff_iff, List.isEmpty_iff_length_eq_zero, List.isEmpty_iff_length_eq_zero, related.1.length_eq]
      dsimp only
      rw [none]
      exact .guard Iff.rfl rfl fun _ => .bind (.lift (.noteAll related.2)) fun _ _ _ _ _ _ _ =>
        .pure ⟨first, more, related.1⟩

end Tables
end QueryChain
