import QueryChain.Proofs.Condition.Precedence

namespace QueryChain

mutual

/-- What stands between two operators. Operands with one index always have the same value. -/
inductive Factor where
  | operand (i : Nat) (a : Text)
  | negation (f : Factor)
  | group (e : Formula)

/-- A condition made of operands, `NOT`, groups and the operators between them. -/
inductive Formula where
  | last (f : Factor)
  | join (f : Factor) (o : Operator) (e : Formula)

end

mutual

def Factor.text : Factor → Text
  | .operand _ a => a
  | .negation f => "NOT".toList ++ ' ' :: f.text
  | .group e => '(' :: e.text ++ [')']

def Formula.text : Formula → Text
  | .last f => f.text
  | .join f o e => f.text ++ ' ' :: (o.text ++ ' ' :: e.text)

end

mutual

def Factor.operands : Factor → List (Nat × Text)
  | .operand i a => [(i, a)]
  | .negation f => f.operands
  | .group e => e.operands

def Formula.operands : Formula → List (Nat × Text)
  | .last f => f.operands
  | .join f _ e => f.operands ++ e.operands

end

mutual

def Factor.named (issued : Nat) : Factor → Factor
  | .operand i a => .operand i (numbered issued a)
  | .negation f => .negation (f.named issued)
  | .group e => .group (e.named issued)

def Formula.named (issued : Nat) : Formula → Formula
  | .last f => .last (f.named issued)
  | .join f o e => .join (f.named issued) o (e.named (issued + placeholders f.text))

end

mutual

def Factor.value (v : Nat → Truth) : Factor → Truth
  | .operand i _ => v i
  | .negation f => (f.value v).not
  | .group e => (e.values v).value id

def Formula.values (v : Nat → Truth) : Formula → Series Truth
  | .last f => ⟨f.value v, []⟩
  | .join f o e => ⟨f.value v, (o, (e.values v).first) :: (e.values v).rest⟩

end

def Formula.series : Formula → Series Factor
  | .last f => ⟨f, []⟩
  | .join f o e => ⟨f, (o, e.series.first) :: e.series.rest⟩

def Formula.value (v : Nat → Truth) (e : Formula) : Truth := e.series.value (Factor.value v)

theorem Truth.ofOperators_map {α : Type} {val : α → Truth} {d x c : Truth} (xs : List (Operator × α)) :
    ofOperators id d x c (xs.map fun p => (p.1, val p.2)) = ofOperators val d x c xs := by
  induction xs generalizing d x c with
  | nil => rfl
  | cons p xs ih =>
    obtain ⟨o, a⟩ := p
    cases o <;> exact ih

theorem Formula.values_eq (v : Nat → Truth) (e : Formula) : e.values v = e.series.map (Factor.value v) := by
  match e with
  | .last f => rfl
  | .join f o e =>
    rw [Formula.values, Formula.values_eq v e]
    rfl

theorem Factor.value_group (v : Nat → Truth) (e : Formula) : (Factor.group e).value v = e.value v := by
  rw [Factor.value, e.values_eq]
  exact Truth.ofOperators_map _

section Free

mutual

theorem Factor.value_congr {v v' : Nat → Truth} (f : Factor)
    (same : ∀ p ∈ f.operands, v p.1 = v' p.1) : f.value v = f.value v' := by
  match f with
  | .operand i a => exact same (i, a) (by simp [Factor.operands])
  | .negation f => exact congrArg Truth.not (Factor.value_congr f same)
  | .group e => exact congrArg (Series.value id) (Formula.values_congr e same)

theorem Formula.values_congr {v v' : Nat → Truth} (e : Formula)
    (same : ∀ p ∈ e.operands, v p.1 = v' p.1) : e.values v = e.values v' := by
  match e with
  | .last f =>
    have first := Factor.value_congr f same
    rw [Formula.values, Formula.values, first]
  | .join f o e =>
    have first := Factor.value_congr f fun p member => same p (List.mem_append_left _ member)
    have rest := Formula.values_congr e fun p member => same p (List.mem_append_right _ member)
    rw [Formula.values, Formula.values, first, rest]

end

def Series.operands {α : Type} (s : Series α) : List α := s.first :: s.rest.map Prod.snd

theorem Series.exists_holds {α : Type} (s : Series α) :
    ∃ targets : List (α × Bool), targets.map Prod.fst = s.operands ∧
      ∀ val : α → Truth, (∀ t ∈ targets, val t.1 = Truth.ofBool t.2) → s.value val = .holds := by
  obtain ⟨first, rest⟩ := s
  cases found : rest.reverse.find? (!·.1.isTight) with
  | none =>
    have tight : ∀ p ∈ rest, p.1.isTight := by simpa using List.find?_eq_none.mp found
    refine ⟨(first, true) :: allTo true rest, by simp [fst_allTo, operands], ?_⟩
    intro val given
    have start : val first = .holds := given (first, true) (by simp)
    have all := of_allTo (b := true) fun t member => given t (List.mem_cons_of_mem _ member)
    rw [Series.value, start, Truth.ofOperators_tight tight, Truth.conjunction_holds all]
    rfl
  | some p =>
    obtain ⟨loose, l2, l1, reversed, tight⟩ := List.find?_eq_some_iff_append.mp found
    obtain ⟨o, w⟩ := p
    obtain rfl : rest = l1.reverse ++ (o, w) :: l2.reverse := by
      rw [← List.reverse_reverse rest, reversed]
      simp
    refine ⟨(first, false) :: allTo false l1.reverse ++ allTo true ((o, w) :: l2.reverse),
      by simp [fst_allTo, operands], ?_⟩
    intro val given
    have start : val first = .fails := given (first, false) (by simp)
    have front : ∀ p ∈ l1.reverse, val p.2 = .fails :=
      of_allTo (b := false) fun t member => given t (by simp [member])
    have back : ∀ p ∈ (o, w) :: l2.reverse, val p.2 = .holds :=
      of_allTo (b := true) fun t member => given t (List.mem_append_right _ member)
    rw [Series.value, start]
    exact Truth.ofOperators_holds_right (by simpa using tight) (by simpa using loose) front
      (back (o, w) (by simp)) fun p member => back p (by simp [member])

theorem Series.exists_fails {α : Type} (s : Series α) :
    ∃ targets : List (α × Bool), targets.map Prod.fst = s.operands ∧
      ∀ val : α → Truth, (∀ t ∈ targets, val t.1 = Truth.ofBool t.2) → s.value val = .fails := by
  refine ⟨(s.first, false) :: allTo false s.rest, by simp [fst_allTo, operands], ?_⟩
  intro val given
  have start : val s.first = .fails := given (s.first, false) (by simp)
  rw [Series.value, start]
  exact Truth.ofOperators_fails (of_allTo (b := false) fun t member => given t (List.mem_cons_of_mem _ member))

theorem Formula.mem_operands (e : Formula) : ∀ f ∈ e.series.operands, ∀ p ∈ f.operands, p ∈ e.operands := by
  match e with
  | .last g =>
    intro f member
    obtain rfl : f = g := by simpa [Formula.series, Series.operands] using member
    exact fun p inside => inside
  | .join g o e =>
    intro f member p inside
    rcases List.mem_cons.mp member with rfl | later
    · exact List.mem_append_left _ inside
    · exact List.mem_append_right _ (Formula.mem_operands e f later p inside)

mutual

theorem Factor.exists_value (f : Factor) (distinct : (f.operands.map Prod.fst).Nodup) (b : Bool) :
    ∃ v : Nat → Truth, f.value v = Truth.ofBool b := by
  match f with
  | .operand i a => exact ⟨fun _ => Truth.ofBool b, rfl⟩
  | .negation f =>
    obtain ⟨v, value⟩ := Factor.exists_value f distinct !b
    refine ⟨v, ?_⟩
    rw [Factor.value, value]
    cases b <;> rfl
  | .group e =>
    have some_ : ∃ targets : List (Factor × Bool), targets.map Prod.fst = e.series.operands ∧
        ∀ val : Factor → Truth, (∀ t ∈ targets, val t.1 = Truth.ofBool t.2) →
          e.series.value val = Truth.ofBool b := by
      cases b with
      | true => exact e.series.exists_holds
      | false => exact e.series.exists_fails
    obtain ⟨targets, factors, value⟩ := some_
    obtain ⟨v, given⟩ := Formula.exists_values e distinct targets factors
    exact ⟨v, by rw [Factor.value_group]; exact value _ given⟩

theorem Formula.exists_values (e : Formula) (distinct : (e.operands.map Prod.fst).Nodup)
    (targets : List (Factor × Bool)) (factors : targets.map Prod.fst = e.series.operands) :
    ∃ v : Nat → Truth, ∀ t ∈ targets, t.1.value v = Truth.ofBool t.2 := by
  match e with
  | .last f =>
    obtain ⟨⟨g, b⟩, rest, rfl⟩ := List.exists_cons_of_ne_nil (l := targets) (by rintro rfl; cases factors)
    obtain ⟨rfl, none⟩ := List.cons.inj factors
    obtain rfl : rest = [] := by simpa [Formula.series] using none
    obtain ⟨v, value⟩ := Factor.exists_value g distinct b
    exact ⟨v, by simpa using value⟩
  | .join f o e =>
    obtain ⟨⟨g, b⟩, rest, rfl⟩ := List.exists_cons_of_ne_nil (l := targets) (by rintro rfl; cases factors)
    obtain ⟨rfl, later⟩ := List.cons.inj factors
    rw [Formula.operands, List.map_append, List.nodup_append] at distinct
    obtain ⟨first, second, apart⟩ := distinct
    obtain ⟨v₁, value⟩ := Factor.exists_value g first b
    obtain ⟨v₂, values⟩ := Formula.exists_values e second rest later
    refine ⟨fun i => if i ∈ g.operands.map Prod.fst then v₁ i else v₂ i, ?_⟩
    intro t member
    rcases List.mem_cons.mp member with rfl | inRest
    · rw [← value]
      apply Factor.value_congr
      exact fun p inside => if_pos (List.mem_map_of_mem inside)
    · rw [← values t inRest]
      apply Factor.value_congr
      intro p inside
      have factor : t.1 ∈ e.series.operands := by
        have member := List.mem_map_of_mem (f := Prod.fst) inRest
        rwa [later] at member
      have operand := List.mem_map_of_mem (f := Prod.fst) (e.mem_operands t.1 factor p inside)
      exact if_neg fun also => apart _ also _ operand rfl

end

end Free
section Written

variable {t u : Text}

theorem standsFor_append {κ : Type} (f : Text → Option κ) (xs ys : List (Char × Text)) :
    standsFor f (xs ++ ys) = standsFor f xs ++ standsFor f ys := List.filterMap_append

theorem Solid.logicWords_glue (solid : Solid t) (u : Text) :
    logicWords (t ++ ' ' :: u) = logicWords t ++ logicWords u := by
  rw [logicWords, solid.topWords_glue, standsFor_append, standsFor, standsFor, List.filterMap_cons,
    readsWords_logic.nil]
  rfl

theorem Operand.group (solid : Solid t) : Operand ('(' :: t ++ [')']) where
  solid := solid.group.1
  trimmed := by
    apply trim_eq_self
    · rintro c ⟨⟩
      decide
    · intro c last
      rw [getLast?_append_of_ne_nil (by simp)] at last
      obtain rfl : ')' = c := by simpa using last
      decide
  passes := by
    rw [logicWords, solid.words_group readsWords_logic]
    rfl

theorem Operand.glue (first : Operand t) (full : t ≠ []) (second : Operand u) (full' : u ≠ []) :
    Operand (t ++ ' ' :: u) where
  solid := first.solid.glue second.solid
  trimmed := trim_glue full full' first.trimmed second.trimmed
  passes := by
    rw [first.solid.logicWords_glue, List.foldlM_append, first.passes]
    exact second.passes

theorem operand_of_plain {w : Text} (plain : ∀ c ∈ w, isPlain c) (trimmed : trim w = w)
    (none : logicWords w = []) : Operand w where
  solid := Solid.plain plain
  trimmed := trimmed
  passes := by
    rw [none]
    rfl

theorem operand_not : Operand "NOT" := operand_of_plain (by decide) (by decide) (by decide)

theorem operand_soft {o : Operator} (noAnd : o ≠ .and) (noOr : o ≠ .or) : Operand o.text := by
  apply operand_of_plain
  · cases o <;> decide
  · cases o <;> decide
  · cases o with
    | and => exact absurd rfl noAnd
    | or => exact absurd rfl noOr
    | ampersands | xor | pipes => decide

theorem Operator.text_ne_nil (o : Operator) : o.text ≠ [] := by cases o <;> decide

mutual

theorem Factor.operand_text (f : Factor) (operands : ∀ p ∈ f.operands, p.2 ≠ [] ∧ Operand p.2) :
    f.text ≠ [] ∧ Operand f.text := by
  match f with
  | .operand i a => exact operands (i, a) (by simp [Factor.operands])
  | .negation f =>
    obtain ⟨full, operand⟩ := Factor.operand_text f operands
    exact ⟨by simp [Factor.text], operand_not.glue (by decide) operand full⟩
  | .group e => exact ⟨by simp [Factor.text], Operand.group (Formula.solid_text e operands)⟩

theorem Formula.solid_text (e : Formula) (operands : ∀ p ∈ e.operands, p.2 ≠ [] ∧ Operand p.2) :
    Solid e.text := by
  match e with
  | .last f => exact (Factor.operand_text f operands).2.solid
  | .join f o e =>
    have plain : ∀ c ∈ o.text, isPlain c := by cases o <;> decide
    have first := Factor.operand_text f fun p member => operands p (List.mem_append_left _ member)
    have later := Formula.solid_text e fun p member => operands p (List.mem_append_right _ member)
    exact first.2.solid.glue ((Solid.plain plain).glue later)

end

mutual

theorem Factor.numbered_text (f : Factor) (operands : ∀ p ∈ f.operands, p.2 ≠ [] ∧ Operand p.2)
    (issued : Nat) : numbered issued f.text = (f.named issued).text := by
  match f with
  | .operand i a => rfl
  | .negation f =>
    have word : Solid "NOT" := operand_not.solid
    have free : '?' ∉ "NOT".toList := by decide
    rw [Factor.text, word.numbered_glue, numbered_of_free free, placeholders_of_free free, Nat.add_zero,
      Factor.numbered_text f operands]
    rfl
  | .group e =>
    rw [Factor.text, (Formula.solid_text e operands).numbered_group, Formula.numbered_text e operands]
    rfl

theorem Formula.numbered_text (e : Formula) (operands : ∀ p ∈ e.operands, p.2 ≠ [] ∧ Operand p.2)
    (issued : Nat) : numbered issued e.text = (e.named issued).text := by
  match e with
  | .last f => exact Factor.numbered_text f operands issued
  | .join f o e =>
    have plain : ∀ c ∈ o.text, isPlain c := by cases o <;> decide
    have free : '?' ∉ o.text := by cases o <;> decide
    have left : ∀ p ∈ f.operands, p.2 ≠ [] ∧ Operand p.2 := fun p member =>
      operands p (List.mem_append_left _ member)
    have right : ∀ p ∈ e.operands, p.2 ≠ [] ∧ Operand p.2 := fun p member =>
      operands p (List.mem_append_right _ member)
    rw [Formula.text, (Factor.operand_text f left).2.solid.numbered_glue, (Solid.plain plain).numbered_glue,
      numbered_of_free free, placeholders_of_free free, Nat.add_zero, Factor.numbered_text f left,
      Formula.numbered_text e right]
    rfl

end

mutual

theorem Factor.mem_named (f : Factor) (issued : Nat) :
    ∀ p ∈ (f.named issued).operands, ∃ a n, (p.1, a) ∈ f.operands ∧ p.2 = numbered n a := by
  match f with
  | .operand i a =>
    intro p member
    obtain rfl : p = (i, numbered issued a) := by simpa [Factor.named, Factor.operands] using member
    exact ⟨a, issued, by simp [Factor.operands], rfl⟩
  | .negation f => exact Factor.mem_named f issued
  | .group e => exact Formula.mem_named e issued

theorem Formula.mem_named (e : Formula) (issued : Nat) :
    ∀ p ∈ (e.named issued).operands, ∃ a n, (p.1, a) ∈ e.operands ∧ p.2 = numbered n a := by
  match e with
  | .last f => exact Factor.mem_named f issued
  | .join f o e =>
    intro p member
    rcases List.mem_append.mp member with first | later
    · obtain ⟨a, n, inside, eq⟩ := Factor.mem_named f issued p first
      exact ⟨a, n, List.mem_append_left _ inside, eq⟩
    · obtain ⟨a, n, inside, eq⟩ := Formula.mem_named e _ p later
      exact ⟨a, n, List.mem_append_right _ inside, eq⟩

end

mutual

theorem Factor.value_named (f : Factor) (issued : Nat) :
    (f.named issued).operands.map Prod.fst = f.operands.map Prod.fst ∧
      ∀ v, (f.named issued).value v = f.value v := by
  match f with
  | .operand i a => exact ⟨rfl, fun v => rfl⟩
  | .negation f =>
    obtain ⟨indices, value⟩ := Factor.value_named f issued
    exact ⟨indices, fun v => congrArg Truth.not (value v)⟩
  | .group e =>
    obtain ⟨indices, values⟩ := Formula.values_named e issued
    exact ⟨indices, fun v => congrArg (Series.value id) (values v)⟩

theorem Formula.values_named (e : Formula) (issued : Nat) :
    (e.named issued).operands.map Prod.fst = e.operands.map Prod.fst ∧
      ∀ v, (e.named issued).values v = e.values v := by
  match e with
  | .last f =>
    obtain ⟨indices, value⟩ := Factor.value_named f issued
    refine ⟨indices, fun v => ?_⟩
    rw [Formula.named, Formula.values, Formula.values, value]
  | .join f o e =>
    obtain ⟨first, value⟩ := Factor.value_named f issued
    obtain ⟨rest, values⟩ := Formula.values_named e (issued + placeholders f.text)
    refine ⟨?_, fun v => ?_⟩
    · rw [Formula.named, Formula.operands, Formula.operands, List.map_append, List.map_append, first, rest]
    · rw [Formula.named, Formula.values, Formula.values, value, values]

end

theorem Formula.value_eq (v : Nat → Truth) (e : Formula) : e.value v = (e.values v).value id := by
  rw [e.values_eq]
  exact (Truth.ofOperators_map _).symm

end Written
section Split

def restText : List (Operator × Factor) → Text
  | [] => []
  | (o, f) :: rest => ' ' :: (o.text ++ ' ' :: (f.text ++ restText rest))

def Series.text (s : Series Factor) : Text := s.first.text ++ restText s.rest

theorem Formula.text_series (e : Formula) : e.text = e.series.text := by
  match e with
  | .last f => simp [Formula.text, Formula.series, Series.text, restText]
  | .join f o e =>
    rw [Formula.text, Formula.text_series e]
    rfl

theorem restText_append (xs ys : List (Operator × Factor)) :
    restText (xs ++ ys) = restText xs ++ restText ys := by
  induction xs with
  | nil => rfl
  | cons p xs ih =>
    obtain ⟨o, f⟩ := p
    simp [restText, ih]

theorem Series.text_snoc (s : Series Factor) (o : Operator) (f : Factor) :
    (s.snoc o f).text = s.text ++ ' ' :: (o.text ++ ' ' :: f.text) := by
  simp [snoc, text, restText_append, restText]

def runsFrom (run : Series Factor) : List (Operator × Factor) → Chain (Series Factor)
  | [] => ⟨run, []⟩
  | (.and, f) :: rest => ⟨run, (.and, (runsFrom ⟨f, []⟩ rest).first) :: (runsFrom ⟨f, []⟩ rest).rest⟩
  | (.or, f) :: rest => ⟨run, (.or, (runsFrom ⟨f, []⟩ rest).first) :: (runsFrom ⟨f, []⟩ rest).rest⟩
  | (o, f) :: rest => runsFrom (run.snoc o f) rest

def Chain.texts (c : Chain (Series Factor)) : Chain Text :=
  ⟨c.first.text, c.rest.map fun p => (p.1, p.2.text)⟩

variable {run : Series Factor} {rest : List (Operator × Factor)}

theorem text_runsFrom : (runsFrom run rest).texts.text = run.text ++ restText rest := by
  induction rest generalizing run with
  | nil => rfl
  | cons p rest ih =>
    obtain ⟨o, f⟩ := p
    have longer (o : Operator) :
        (runsFrom (run.snoc o f) rest).texts.text = run.text ++ restText ((o, f) :: rest) := by
      rw [ih, Series.text_snoc]
      simp [restText]
    have cut (k : Connective) (o : Operator) (same : k.word = o.text) :
        Chain.text (Chain.texts ⟨run, (k, (runsFrom ⟨f, []⟩ rest).first) :: (runsFrom ⟨f, []⟩ rest).rest⟩) =
          run.text ++ restText ((o, f) :: rest) := by
      have later := @ih ⟨f, []⟩
      rw [Chain.text, Chain.texts] at later
      rw [Chain.text, Chain.texts, List.map_cons, Chain.restText_cons, later, same]
      simp [restText, Series.text]
    cases o with
    | and => exact cut .and .and rfl
    | or => exact cut .or .or rfl
    | ampersands => exact longer .ampersands
    | xor => exact longer .xor
    | pipes => exact longer .pipes

theorem operand_runsFrom (start : run.text ≠ [] ∧ Operand run.text)
    (operands : ∀ p ∈ rest, p.2.text ≠ [] ∧ Operand p.2.text) :
    ∀ a ∈ (runsFrom run rest).texts.operands, a ≠ [] ∧ Operand a := by
  induction rest generalizing run with
  | nil =>
    intro a member
    obtain rfl : a = run.text := by simpa [runsFrom, Chain.texts, Chain.operands] using member
    exact start
  | cons p rest ih =>
    obtain ⟨o, f⟩ := p
    have here := operands (o, f) (by simp)
    have later : ∀ p ∈ rest, p.2.text ≠ [] ∧ Operand p.2.text := fun p member => operands p (by simp [member])
    have longer (o : Operator) (noAnd : o ≠ .and) (noOr : o ≠ .or) :
        ∀ a ∈ (runsFrom (run.snoc o f) rest).texts.operands, a ≠ [] ∧ Operand a := by
      apply ih _ later
      rw [Series.text_snoc]
      refine ⟨by simp, start.2.glue start.1 ?_ (by simp)⟩
      exact (operand_soft noAnd noOr).glue o.text_ne_nil here.2 here.1
    have cut : ∀ a ∈ run.text :: (runsFrom ⟨f, []⟩ rest).texts.operands, a ≠ [] ∧ Operand a := by
      intro a member
      rcases List.mem_cons.mp member with rfl | inRest
      · exact start
      · exact @ih ⟨f, []⟩ (by simpa [Series.text, restText] using here) later a inRest
    cases o with
    | and => exact cut
    | or => exact cut
    | ampersands => exact longer .ampersands (by decide) (by decide)
    | xor => exact longer .xor (by decide) (by decide)
    | pipes => exact longer .pipes (by decide) (by decide)

def Part.condition (p : Part Factor) : Condition := ⟨p.body.text, p.connective⟩

/-- Folding the runs makes the parts; `front` is what was joined to the last run before. -/
theorem foldAnds_runs (afterOr : Bool) (front : Text) (last : Part Factor)
    (written : last.body.text = front ++ run.text) :
    foldAnds afterOr ⟨front ++ (runsFrom run rest).texts.first, last.connective⟩
      ((runsFrom run rest).texts.rest.map fun p => ⟨p.2, some p.1⟩) =
      (splitParts afterOr last rest).map Part.condition := by
  induction rest generalizing afterOr front last run with
  | nil => simp [runsFrom, Chain.texts, foldAnds, splitParts, Part.condition, written]
  | cons p rest ih =>
    obtain ⟨o, f⟩ := p
    have longer (o : Operator) :
        foldAnds afterOr ⟨front ++ (runsFrom (run.snoc o f) rest).texts.first, last.connective⟩
          ((runsFrom (run.snoc o f) rest).texts.rest.map fun p => ⟨p.2, some p.1⟩) =
          (splitParts afterOr { last with body := last.body.snoc o f } rest).map Part.condition := by
      apply ih afterOr front { last with body := last.body.snoc o f }
      rw [Series.text_snoc, Series.text_snoc, written, List.append_assoc]
    have fresh (k : Connective) (afterOr : Bool) := @ih ⟨f, []⟩ afterOr [] ⟨some k, f, []⟩ rfl
    have here : Part.condition last = ⟨front ++ run.text, last.connective⟩ := by rw [Part.condition, written]
    cases o with
    | ampersands => exact longer .ampersands
    | xor => exact longer .xor
    | pipes => exact longer .pipes
    | or =>
      have next := fresh .or true
      rw [splitParts, List.map_cons, ← next, here]
      simp only [runsFrom, Chain.texts, List.map_cons, foldAnds]
      simp
    | and =>
      simp only [runsFrom, Chain.texts, List.map_cons, foldAnds, splitParts]
      cases afterOr with
      | true =>
        have joined : Series.text (last.body.snoc .and f) = front ++ run.text ++ " AND " ++ Series.text ⟨f, []⟩ := by
          rw [Series.text_snoc, written]
          simp [Series.text, restText, Operator.text]
        simpa [Chain.texts] using ih true (front ++ run.text ++ " AND ") { last with body := last.body.snoc .and f } joined
      | false =>
        have next := fresh .and false
        simp only [Bool.false_eq_true, false_and, if_false, Bool.false_or, List.map_cons, here]
        rw [← next]
        simp [Chain.texts, show (Connective.and == Connective.or) = false from rfl]

theorem splitConditions_series (s : Series Factor)
    (operands : ∀ f ∈ s.operands, f.text ≠ [] ∧ Operand f.text) :
    splitConditions s.text = s.parts.map Part.condition := by
  have start : Series.text ⟨s.first, []⟩ ≠ [] ∧ Operand (Series.text ⟨s.first, []⟩) := by
    simpa [Series.text, restText] using operands s.first (by simp [Series.operands])
  have rest : ∀ p ∈ s.rest, p.2.text ≠ [] ∧ Operand p.2.text := fun p member =>
    operands p.2 (List.mem_cons_of_mem _ (List.mem_map_of_mem member))
  have runs := operand_runsFrom start rest
  have text : (runsFrom ⟨s.first, []⟩ s.rest).texts.text = s.text := by
    rw [text_runsFrom]
    simp [Series.text, restText]
  rw [← text, splitConditions_chain (fun a member => (runs a member).2) fun a member => (runs a member).1,
    Chain.conditions, foldPrecedence]
  exact foldAnds_runs false [] ⟨none, s.first, []⟩ rfl

end Split
section Meaning

/-- What the operands of a formula have to be: complete texts in normal form that no connective cuts. -/
structure IsOperand (a : Text) : Prop where
  full : a ≠ []
  normal : normalize a = a
  balanced : Balanced a
  untouched : Untouched a
  whole : Whole (logicWords a)

theorem IsOperand.operand {a : Text} (isOperand : IsOperand a) : Operand a where
  solid := isOperand.balanced.solid (isNormal_of_normalize isOperand.normal).commentFree
  trimmed := (isNormal_of_normalize isOperand.normal).trim
  passes := isOperand.whole.pass

def Formula.parts (issued : Nat) (e : Formula) : List (Part Factor) := (e.named issued).series.parts

/-- The value of what the calls build from the conditions, each condition evaluated on its own. -/
def Formula.builtValue (issued : Nat) (v : Nat → Truth) (e : Formula) : Truth :=
  Truth.ofCalls (((conditionCalls (conditionsOf issued e.text)).map Call.method).zip
    ((e.parts issued).map fun p => p.body.value (Factor.value v)))

/-- A condition made of operands, `NOT`, groups and all logical operators is split into parts that end at
    every `OR` and, up to the first `OR`, at every `AND`. What the calls build from them has the value of the
    whole if no part that `AND` joins to another one holds an operator at its top level that binds looser
    than `AND`. In every other case it fails for some values of the operands for which the whole holds, if no
    operand is written twice. -/
theorem splitting_sound_iff (e : Formula) (issued : Nat) (normal : normalize e.text = e.text)
    (operands : ∀ p ∈ e.operands, IsOperand p.2) :
    conditionsOf issued e.text = (e.parts issued).map Part.condition ∧
      (AndSound (e.parts issued) → ∀ v : Nat → Truth, e.builtValue issued v = e.value v) ∧
      ((e.operands.map Prod.fst).Nodup → ¬AndSound (e.parts issued) →
        ∃ v : Nat → Truth, e.builtValue issued v = .fails ∧ e.value v = .holds) := by
  set g := e.named issued with g_def
  have texts : ∀ p ∈ g.operands, p.2 ≠ [] ∧ Operand p.2 := by
    intro p member
    obtain ⟨a, n, inside, eq⟩ := e.mem_named issued p member
    have isOperand := operands _ inside
    rw [eq]
    exact ⟨fun empty => isOperand.full ((numbered_eq_nil_iff _ _).mp empty),
      isOperand.operand.named (.inl isOperand.untouched) n⟩
  have factors : ∀ f ∈ g.series.operands, f.text ≠ [] ∧ Operand f.text := fun f member =>
    f.operand_text fun p inside => texts p (g.mem_operands f member p inside)
  have conditions : conditionsOf issued e.text = (e.parts issued).map Part.condition := by
    rw [conditionsOf, normal, e.numbered_text fun p member => ⟨(operands p member).full,
      (operands p member).operand⟩, Formula.text_series]
    exact splitConditions_series _ factors
  have built (v : Nat → Truth) :
      e.builtValue issued v = (e.parts issued).foldl (Part.apply (Factor.value v)) .holds := by
    obtain ⟨p, ps, parts, connective⟩ := head_splitParts false ⟨none, g.series.first, []⟩ g.series.rest
    have notOr : p.connective ≠ some .or := by
      rw [connective]
      simp
    have cut : e.parts issued = p :: ps := parts
    rw [Formula.builtValue, conditions, cut]
    exact ofCalls_conditions Part.condition notOr
  have value (v : Nat → Truth) : g.series.value (Factor.value v) = e.value v := by
    rw [← Formula.value, Formula.value_eq, Formula.value_eq, (e.values_named issued).2]
  refine ⟨conditions, fun sound v => ?_, fun distinct broken => ?_⟩
  · rw [built, Formula.parts, Series.fold_of_sound sound]
    exact value v
  · obtain ⟨targets, same, differ⟩ := Series.exists_of_broken broken
    have distinct' : (g.operands.map Prod.fst).Nodup := by rwa [(e.values_named issued).1]
    obtain ⟨v, given⟩ := g.exists_values distinct' targets same
    obtain ⟨fold, whole⟩ := differ (Factor.value v) given
    exact ⟨v, by rw [built]; exact fold, by rw [← value]; exact whole⟩

def pipedCondition : Formula :=
  .join (.operand 0 "a = ?") .pipes (.join (.operand 1 "b = 'x AND y'") .and
    (.last (.negation (.group (.join (.operand 2 "c") .or (.last (.operand 3 "d")))))))

theorem splitting_sound_iff_piped :
    conditionsOf 0 pipedCondition.text = (pipedCondition.parts 0).map Part.condition ∧
      (AndSound (pipedCondition.parts 0) →
        ∀ v : Nat → Truth, pipedCondition.builtValue 0 v = pipedCondition.value v) ∧
      ((pipedCondition.operands.map Prod.fst).Nodup → ¬AndSound (pipedCondition.parts 0) →
        ∃ v : Nat → Truth, pipedCondition.builtValue 0 v = .fails ∧ pipedCondition.value v = .holds) := by
  have fixed {t : Text} (clean : cleanUp t = t) : normalize t = t := by rw [normalize, if_pos clean]
  apply splitting_sound_iff pipedCondition 0
  · exact fixed (by decide +kernel)
  · intro p member
    have facts : ∀ a ∈ pipedCondition.operands.map Prod.snd,
        a ≠ [] ∧ cleanUp a = a ∧ Balanced a ∧ Untouched a ∧ logicWords a = [] := by decide +kernel
    obtain ⟨full, clean, balanced, untouched, none⟩ := facts p.2 (List.mem_map_of_mem member)
    exact ⟨full, fixed clean, balanced, untouched, by rw [none]; exact .nil⟩

end Meaning
end QueryChain
