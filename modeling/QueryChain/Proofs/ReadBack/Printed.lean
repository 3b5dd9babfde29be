import QueryChain.Conversion
import QueryChain.Proofs.Condition.ChainText
import QueryChain.Proofs.ReadBack.SourceReading

namespace QueryChain

structure Atom (ks : List Keyword) (t : Text) : Prop where
  full : t ≠ []
  normal : normalize t = t
  balanced : Balanced t
  whole : hasTop ',' t = false
  lacks : Lacks ks t

structure WhereAtom (ks : List Keyword) (t : Text) : Prop extends Atom ks t where
  other : upper t ≠ "NULL".toList
  passes : logicWords t = [] ∨ Untouched t ∧ (logicWords t).foldlM pass (0, false) = some (0, false)

structure OnAtom (ks : List Keyword) (t : Text) : Prop extends Atom ks t where
  noJoin : Lacks [["JOIN"], ["STRAIGHT_JOIN"], ["USING"]] t
  ends : lastQualifier? t = none

structure JoinClause.Written (reserved : ReservedWords) (ks : List Keyword) (j : JoinClause) : Prop where
  table : j.table.Named reserved
  condition : ∀ c ∈ j.condition, OnAtom ks c

structure SourcesText.Written (reserved : ReservedWords) (ks : List Keyword) (s : SourcesText) : Prop where
  named : ∀ t ∈ s.main :: s.more, t.Named reserved
  joins : ∀ j ∈ s.joins, j.Written reserved ks
  single : s.more = [] ∨ s.joins = []

structure Body (ks : List Keyword) (t : Text) : Prop where
  neat : Neat t
  lacks : Lacks ks t

section Pieces

variable {ks : List Keyword} {t : Text}

namespace Atom

theorem neat (atom : Atom ks t) : Neat t := .of_normal atom.normal atom.balanced atom.full

theorem item (atom : Atom ks t) : Item t := atom.neat.item atom.whole

theorem body (atom : Atom ks t) : Body ks t := ⟨atom.neat, atom.lacks⟩

end Atom
namespace WhereAtom

theorem link (atom : WhereAtom ks t) (sub : conditionEnds ⊆ ks) : Link t :=
  ⟨atom.neat, atom.other, atom.lacks.mono sub⟩

theorem joinable (atom : WhereAtom ks t) : Joinable t := by
  refine ⟨atom.full, ⟨atom.neat.solid, atom.neat.trim, ?_⟩, ?_⟩
  · rcases atom.passes with none | ⟨-, passes⟩
    · rw [none]
      rfl
    · exact passes
  · rcases atom.passes with none | ⟨untouched, -⟩
    · exact .inr none
    · exact .inl untouched

end WhereAtom

theorem OnAtom.condition (atom : OnAtom ks t) : JoinCondition t :=
  ⟨atom.item, atom.noJoin, atom.ends⟩

theorem SourcesText.Written.fits {reserved : ReservedWords} {s : SourcesText} (written : s.Written reserved ks) :
    s.Fits reserved ks where
  named := written.named
  joins := fun j member =>
    have here := written.joins j member
    { table := here.table
      condition := fun c clause => (here.condition c clause).condition
      neat := fun c clause => (here.condition c clause).neat
      lacks := fun c clause => (here.condition c clause).lacks }
  single := written.single

end Pieces
section Decide

variable {ks : List Keyword} {reserved : ReservedWords}

theorem normalize_eq_iff {t : Text} : normalize t = t ↔ cleanUp t = t := by
  constructor
  · intro normal
    rw [← normal]
    exact cleanUp_normalize t
  · intro clean
    rw [normalize, if_pos clean]

instance (t : Text) : Decidable (Atom ks t) :=
  decidable_of_iff (t ≠ [] ∧ cleanUp t = t ∧ Balanced t ∧ hasTop ',' t = false ∧ Lacks ks t)
    ⟨fun ⟨full, clean, balanced, whole, lacks⟩ => ⟨full, normalize_eq_iff.mpr clean, balanced, whole, lacks⟩,
      fun atom => ⟨atom.full, normalize_eq_iff.mp atom.normal, atom.balanced, atom.whole, atom.lacks⟩⟩

instance (t : Text) : Decidable (WhereAtom ks t) :=
  decidable_of_iff (Atom ks t ∧ upper t ≠ "NULL".toList ∧
      (logicWords t = [] ∨ Untouched t ∧ (logicWords t).foldlM pass (0, false) = some (0, false)))
    ⟨fun ⟨atom, other, passes⟩ => ⟨atom, other, passes⟩,
      fun atom => ⟨atom.toAtom, atom.other, atom.passes⟩⟩

instance (t : Text) : Decidable (OnAtom ks t) :=
  decidable_of_iff (Atom ks t ∧ Lacks [["JOIN"], ["STRAIGHT_JOIN"], ["USING"]] t ∧ lastQualifier? t = none)
    ⟨fun ⟨atom, noJoin, ends⟩ => ⟨atom, noJoin, ends⟩,
      fun atom => ⟨atom.toAtom, atom.noJoin, atom.ends⟩⟩

instance (t : Text) : Decidable (Identifier reserved t) :=
  decidable_of_iff (t ≠ [] ∧ (∀ c ∈ t, isIdentifierChar c) ∧ upper t ∉ ReservedWords.standard ∧
      reserved.contains t = false)
    ⟨fun ⟨full, chars, notStandard, notReserved⟩ => ⟨full, chars, notStandard, notReserved⟩,
      fun name => ⟨name.full, name.chars, name.notStandard, name.notReserved⟩⟩

instance (t : TableText) : Decidable (t.Named reserved) :=
  decidable_of_iff (Identifier reserved t.name ∧ ∀ a ∈ t.aliasName, Identifier reserved a.2)
    ⟨fun ⟨name, aliasName⟩ => ⟨name, aliasName⟩, fun named => ⟨named.name, named.aliasName⟩⟩

instance (j : JoinClause) : Decidable (j.Written reserved ks) :=
  decidable_of_iff (j.table.Named reserved ∧ ∀ c ∈ j.condition, OnAtom ks c)
    ⟨fun ⟨table, condition⟩ => ⟨table, condition⟩, fun written => ⟨written.table, written.condition⟩⟩

instance (s : SourcesText) : Decidable (s.Written reserved ks) :=
  decidable_of_iff ((∀ t ∈ s.main :: s.more, t.Named reserved) ∧ (∀ j ∈ s.joins, j.Written reserved ks) ∧
      (s.more = [] ∨ s.joins = []))
    ⟨fun ⟨named, joins, single⟩ => ⟨named, joins, single⟩,
      fun written => ⟨written.named, written.joins, written.single⟩⟩

end Decide
section Bodies

variable {ks : List Keyword} {reserved : ReservedWords}

/-- Two bodies of which the second begins with a word that ends no keyword. -/
theorem Body.glue {s u : Text} (front : Body ks s) (behind : Body ks u) (areKeywords : ∀ k ∈ ks, IsKeyword k)
    (first : ∀ k ∈ ks ++ seamKeywords, firstWord u ∉ k.tail) : Body ks (s ++ ' ' :: u) where
  neat := front.neat.glue behind.neat fun k member => .inr (first k (List.mem_append_right _ member))
  lacks := front.lacks.glue behind.lacks areKeywords front.neat behind.neat fun k member =>
    .inr (first k (List.mem_append_left _ member))

/-- A body with a word in front that begins no keyword. -/
theorem Body.behind {w t : Text} (body : Body ks t) (word : Neat w) (areKeywords : ∀ k ∈ ks, IsKeyword k)
    (lacks : Lacks ks w) (last : ∀ k ∈ ks ++ seamKeywords, lastWord w ∉ k.dropLast) : Body ks (w ++ ' ' :: t) where
  neat := word.glue body.neat fun k member => .inl (last k (List.mem_append_right _ member))
  lacks := lacks.glue body.lacks areKeywords word body.neat fun k member =>
    .inl (last k (List.mem_append_left _ member))

theorem Body.mono {ks' : List Keyword} {t : Text} (body : Body ks t) (sub : ks' ⊆ ks) : Body ks' t :=
  ⟨body.neat, body.lacks.mono sub⟩

theorem body_list {ts : List Text} (areKeywords : ∀ k ∈ ks, IsKeyword k) (bodies : ∀ t ∈ ts, Body ks t) :
    ∀ t ∈ listText? ts, Body ks t := by
  intro t member
  by_cases empty : ts = []
  · simp [listText?, empty] at member
  · rw [listText?, if_neg empty] at member
    cases member
    exact ⟨neat_list (fun u inList => (bodies u inList).neat) empty,
      lacks_list areKeywords (fun u inList => (bodies u inList).neat) (fun u inList => (bodies u inList).lacks) empty⟩

theorem body_chain {c : Option (Chain Text)} (avoids : Avoids connectiveWords ks) (sub : conditionEnds ⊆ ks)
    (atoms : ∀ d ∈ c, ∀ a ∈ d.operands, WhereAtom ks a) : ∀ t ∈ c.map Chain.text, Body ks t := by
  intro t member
  obtain ⟨d, written, rfl⟩ := Option.map_eq_some_iff.mp member
  have links : ∀ a ∈ d.operands, Link a := fun a inChain => (atoms d written a inChain).link sub
  exact ⟨(Link.chain links).neat, lacks_chain links avoids fun a inChain => (atoms d written a inChain).lacks⟩

def directionWords : List Text := [Direction.ascending.word, Direction.descending.word]

theorem body_order {e : Text × Direction} (avoids : Avoids directionWords ks) (atom : Atom ks e.1) :
    Body ks (orderText e) := by
  have seams : Avoids directionWords seamKeywords := ⟨by decide, by decide⟩
  have word : Neat e.2.word := by apply Neat.of_plain <;> cases e.2 <;> decide
  have first : firstWord e.2.word ∈ directionWords := by cases e.2 <;> decide
  have lacks : Lacks ks e.2.word := avoids.lacks (by cases e.2 <;> decide)
  exact ⟨atom.neat.glue word (seams.uncrossed_first _ first),
    atom.lacks.glue lacks avoids.keywords atom.neat word (avoids.uncrossed_first _ first)⟩

theorem body_orders {es : List (Text × Direction)} (avoids : Avoids directionWords ks) (atoms : ∀ e ∈ es, Atom ks e.1) :
    ∀ t ∈ listText? (es.map orderText), Body ks t := by
  apply body_list avoids.keywords
  intro t member
  obtain ⟨e, inList, rfl⟩ := List.mem_map.mp member
  exact body_order avoids (atoms e inList)

theorem body_bound (areKeywords : ∀ k ∈ ks, IsKeyword k) (b : Option BoundText) :
    ∀ t ∈ b.map BoundText.text, Body ks t := by
  intro t member
  obtain ⟨c, -, rfl⟩ := Option.map_eq_some_iff.mp member
  exact ⟨c.neat, c.lacks areKeywords⟩

theorem body_sources {s : Option SourcesText} (unjoined : Unjoined ks) (written : ∀ u ∈ s, u.Written reserved ks) :
    ∀ t ∈ s.map SourcesText.text, Body ks t := by
  intro t member
  obtain ⟨u, present, rfl⟩ := Option.map_eq_some_iff.mp member
  have fits := (written u present).fits
  exact ⟨SourcesText.neat fits, SourcesText.lacks fits unjoined⟩

end Bodies
section Present

variable {order ks : List Keyword} {sections : List (Keyword × Option Text)}

theorem legible_present (inOrder : sections.map Prod.fst ⊆ order) (bodies : ∀ p ∈ sections, ∀ t ∈ p.2, Body ks t) :
    Legible order ks (present sections) := by
  intro p member
  obtain ⟨⟨k, body⟩, inList, written⟩ := List.mem_filterMap.mp member
  obtain ⟨t, some_, rfl⟩ := Option.map_eq_some_iff.mp written
  have body := bodies _ inList t some_
  exact ⟨inOrder (List.mem_map.mpr ⟨_, inList, rfl⟩), body.neat, body.lacks⟩

theorem sum_present (sections : List (Keyword × Option Text)) :
    ((present sections).map fun p => placeholders p.2).sum = (sections.map fun p => placeholders? p.2).sum := by
  induction sections with
  | nil => rfl
  | cons p sections ih =>
    obtain ⟨k, body⟩ := p
    cases body with
    | none =>
      rw [List.map_cons, List.sum_cons, ← ih]
      exact (Nat.zero_add _).symm
    | some t =>
      rw [List.map_cons, List.sum_cons, ← ih]
      rfl

def countTo (issued : Nat) (sections : List (Keyword × Option Text)) (n : Nat) : Nat :=
  issued + ((sections.take n).map fun p => placeholders? p.2).sum

theorem countTo_next {issued n : Nat} {p : Keyword × Option Text} (here : sections[n]? = some p) :
    countTo issued sections n + placeholders? p.2 = countTo issued sections (n + 1) := by
  rw [countTo, countTo, List.take_add_one, here, List.map_append, List.sum_append, Nat.add_assoc]
  rfl

/-- Every section is found with just its own body. -/
theorem section?_present {k : Keyword} {ends : List Keyword} {front : Text} (watched : Watched order ks)
    (legible : Legible order ks (present sections)) (keys : sections.map Prod.fst = order) (nodup : order.Nodup)
    (before : Body ks front) (member : k ∈ ks) (sub : ends ⊆ ks)
    (follow : order.Pairwise fun k₁ k₂ => k₁ = k → k₂ ∈ ends) : section? k ends
      (front ++ sectionsText (present sections)) = (sections.lookup k).join := by
  subst keys
  rw [section?_sections watched legible member sub (keys_present sections) nodup follow before.neat
    (before.lacks.single member), lookup_present nodup]

theorem lacks_present {ks' : List Keyword} {front : Text} (watched : Watched order ks)
    (legible : Legible order ks (present sections)) (before : Body ks front) (sub : ks' ⊆ ks)
    (other : ∀ k ∈ order, k ∉ ks') : Lacks ks' (front ++ sectionsText (present sections)) :=
  lacks_sections watched legible sub (fun p member => other p.1 (legible p member).1) before.neat
    (before.lacks.mono sub)

theorem placeholders_present {front : Text} (watched : Watched order ks)
    (legible : Legible order ks (present sections)) (neat : Neat front) :
    placeholders (front ++ sectionsText (present sections)) =
      placeholders front + (sections.map fun p => placeholders? p.2).sum := by
  rw [placeholders_sections watched legible neat.solid, sum_present]

end Present
section Statement

variable {kind : StatementKind} {reserved : ReservedWords} {sql u : Text} {clauses : Clauses}

theorem verb_cases (kind : StatementKind) : Neat kind.verb ∧ kind.verb ≠ "WITH".toList ∧
    StatementKind.ofVerb? kind.verb = some kind ∧ (∀ c ∈ kind.verb, isBlank c = false) ∧
    upper (kind.verb.takeWhile fun c => c.isAlpha || c == '_') = kind.verb := by
  refine ⟨?_, ?_⟩
  · apply Neat.of_plain <;> cases kind <;> decide
  · cases kind <;> decide

/-- A statement is known by the verb in front. -/
theorem classify_verb (kind : StatementKind) (none : Lacks [["UNION"]] (kind.verb ++ ' ' :: u)) :
    classify (kind.verb ++ ' ' :: u) = .ok kind := by
  obtain ⟨neat, other, found, bare, same⟩ := verb_cases kind
  have leading : leadingWord (kind.verb ++ ' ' :: u) = kind.verb := by
    rw [leadingWord, tokens_glue neat.solid, tokens_bare bare neat.ne_nil]
    exact same
  rw [classify, leading, if_neg other, found]
  dsimp only
  rw [none _ (by simp), if_neg (by decide)]

/-- A statement that is read without an issue is converted to what was read. -/
theorem convert_of_yields (neat : Neat sql) (kinds : classify sql = .ok kind)
    (read : Yields (readStatement reserved kind sql) 0 clauses (placeholders sql)) :
    convert reserved sql = .ok ⟨kind, clauses, clauses.calls, placeholders sql, .success⟩ := by
  have balanced : fault? sql = none := neat.solid.balanced
  obtain ⟨named, ran⟩ := read []
  have result : (readStatement reserved kind sql).run {} = (.ok clauses, ⟨placeholders sql, [], named⟩) := ran
  rw [convert, balanced, neat.normal, kinds]
  simp only [bind, Except.bind, result, ne_eq, not_true_eq_false, if_false]
  rfl

end Statement
end QueryChain
