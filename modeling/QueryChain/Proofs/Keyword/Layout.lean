import QueryChain.Proofs.Keyword.Order
import QueryChain.Proofs.NormalForm.Region

namespace QueryChain

namespace SectionAt

variable {sql : Text} {k : Keyword} {ends : List Keyword} {p b e : Nat}

/-- The trimmed body of a section starts outside quotes and tears no word. -/
theorem region (sec : SectionAt sql k ends p b e) (isKeyword : IsKeyword k) :
    ∃ b' e', b ≤ b' ∧ e' ≤ e ∧ Region sql b' e' ∧ trim (slice b e sql) = slice b' e' sql := by
  obtain ⟨b', e', first, order, last, trimmed, front, back⟩ := trim_slice sec.le sec.bound
  have bound := sec.bound
  have start : stateAt sql b' = {} :=
    stateAt_plain first (fun c member => isPlain_of_isBlank c (front c member))
      (sec.opens.state_eq_end isKeyword)
  refine ⟨b', e', first, last, ⟨order, by omega, start, ?_, ?_, ?_⟩, trimmed⟩
  · rw [← trimmed]
    apply any_eq_false
    intro c head
    have kept := List.head?_dropWhile_not isBlank (trimEnd (slice b e sql))
    rw [trim, trimStart] at head
    rw [Option.mem_def.mp head] at kept
    simpa using kept
  · by_cases moved : b = b'
    · right
      rw [← moved]
      exact sec.opens.after
    · left
      have some_ : slice b b' sql ≠ [] := by
        rw [← List.length_pos_iff, length_slice (by omega)]
        omega
      rw [← take_append_slice first, getLast?_append_of_ne_nil some_]
      apply any_eq_false
      intro c last
      exact isWordChar_of_isBlank c (front c (List.mem_of_getLast? last))
  · by_cases moved : e' = e
    · subst moved
      rcases sec.stop with atEnd | ⟨k', member, q, stands⟩
      · right
        rw [atEnd, List.drop_length]
        rfl
      · left
        rw [← before_eq_getLast? bound]
        exact stands.before
    · right
      have some_ : slice e' e sql ≠ [] := by
        rw [← List.length_pos_iff, length_slice bound]
        omega
      obtain ⟨c, more, here⟩ := List.exists_cons_of_ne_nil some_
      rw [← slice_append_drop last bound, here]
      exact isWordChar_of_isBlank c (back c (by simp [here]))

end SectionAt
/-- The text was taken out of the body of a section. -/
def TakenFrom (sql : Text) (k : Keyword) (ends : List Keyword) (t : Text) : Prop :=
  ∃ p b e b' e', SectionAt sql k ends p b e ∧ b ≤ b' ∧ b' ≤ e' ∧ e' ≤ e ∧ stateAt sql b' = {} ∧
    t = slice b' e' sql

theorem takenFrom_section {sql body : Text} {k : Keyword} {ends : List Keyword}
    (isKeyword : IsKeyword k) (areKeywords : ∀ k ∈ ends, IsKeyword k)
    (found : section? k ends sql = some body) : TakenFrom sql k ends body := by
  obtain ⟨p, b, e, sec, rfl⟩ := section?_eq_some isKeyword areKeywords found
  obtain ⟨b', e', first, last, region, trimmed⟩ := sec.region isKeyword
  exact ⟨p, b, e, b', e', sec, first, region.le, last, region.start, trimmed⟩

theorem takenFrom_normalize {sql body : Text} {k : Keyword} {ends : List Keyword}
    (normal : IsNormal sql) (isKeyword : IsKeyword k) (areKeywords : ∀ k ∈ ends, IsKeyword k)
    (found : section? k ends sql = some body) : TakenFrom sql k ends (normalize body) := by
  obtain ⟨p, b, e, sec, rfl⟩ := section?_eq_some isKeyword areKeywords found
  obtain ⟨b', e', first, last, region, trimmed⟩ := sec.region isKeyword
  obtain ⟨e₂, shorter, region₂, normalized⟩ := region.normalize_eq normal
  exact ⟨p, b, e, b', e₂, sec, first, region₂.le, by omega, region.start, by rw [trimmed, normalized]⟩

structure Precedes (ks : List Keyword) (s s' : Keyword × List Keyword) : Prop where
  ends : s'.1 ∈ s.2
  apart : ApartFrom s.1 s'.1
  ne : s.1 ≠ s'.1
  later : ¬[s'.1, s.1].Sublist ks

instance (ks : List Keyword) (s s' : Keyword × List Keyword) : Decidable (Precedes ks s s') :=
  decidable_of_iff (s'.1 ∈ s.2 ∧ ApartFrom s.1 s'.1 ∧ s.1 ≠ s'.1 ∧ ¬[s'.1, s.1].Sublist ks)
    ⟨fun ⟨a, b, c, d⟩ => ⟨a, b, c, d⟩, fun ⟨a, b, c, d⟩ => ⟨a, b, c, d⟩⟩

section Layout

variable {sql : Text} {ks : List Keyword}

/-- Where keywords keep their order, a section ends before the next one starts. -/
theorem SectionAt.end_le {s s' : Keyword × List Keyword} {p b e p' q' : Nat}
    (order : InOrder ks sql) (distinct : Distinct ks) (precedes : Precedes ks s s')
    (member : s.1 ∈ ks) (member' : s'.1 ∈ ks) (sec : SectionAt sql s.1 s.2 p b e)
    (stands : Stands sql s'.1 p' q') : e ≤ p' := by
  have less := order.lt distinct precedes.later precedes.ne member member' sec.opens stands
  have behind := sec.opens.not_inside stands (distinct.areKeywords _ member)
    (distinct.areKeywords _ member') precedes.apart less
  by_contra inside
  exact sec.inside p' behind (by omega) ⟨s'.1, precedes.ends, q', stands⟩

/-- Texts taken out of sections in order are parts of the statement one behind the other. -/
theorem parts_of_sections (order : InOrder ks sql) (distinct : Distinct ks)
    (layout : List (Keyword × List Keyword)) (texts : List (Option Text))
    (taken : List.Forall₂ (fun s t => ∀ x ∈ t, TakenFrom sql s.1 s.2 x) layout texts)
    (pairwise : layout.Pairwise (Precedes ks)) (members : ∀ s ∈ layout, s.1 ∈ ks) (n : Nat)
    (behind : ∀ s ∈ layout, ∀ p q, Stands sql s.1 p q → n ≤ q) :
    ∃ parts, Parts sql n parts ∧ texts.flatMap Option.toList = parts.map fun s => slice s.1 s.2 sql := by
  induction taken generalizing n with
  | nil => exact ⟨[], .nil n, rfl⟩
  | @cons s t layout texts here rest ih =>
    obtain ⟨precedes, pairwiseRest⟩ := List.pairwise_cons.mp pairwise
    have membersRest : ∀ s ∈ layout, s.1 ∈ ks := fun s' h => members s' (by simp [h])
    cases t with
    | none =>
      obtain ⟨parts, rising, eq⟩ := ih pairwiseRest membersRest n fun s' h => behind s' (by simp [h])
      exact ⟨parts, rising, eq⟩
    | some x =>
      obtain ⟨p, b, e, b', e', sec, first, le, last, start, rfl⟩ := here x rfl
      have from_ := behind s (by simp) p b sec.opens
      have bound := sec.bound
      obtain ⟨parts, rising, eq⟩ := ih pairwiseRest membersRest e' fun s' h p' q' stands => by
        have before := sec.end_le order distinct (precedes s' h) (members s (by simp))
          (membersRest s' h) stands
        have le := stands.le
        omega
      refine ⟨(b', e') :: parts, .cons (by omega) le (by omega) start rising, ?_⟩
      rw [List.flatMap_cons, eq]
      rfl

end Layout
end QueryChain
