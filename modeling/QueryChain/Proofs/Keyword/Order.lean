import Mathlib.Data.List.Nodup
import QueryChain.Proofs.Keyword.Section

namespace QueryChain

def topKeywords (ks : List Keyword) (sql : Text) : List Keyword :=
  (List.range sql.length).filterMap fun n =>
    ks.find? fun k => ((cursorAt sql n).topKeyword? [k]).isSome

/-- Of the keywords, each stands at the top level at most once, and they keep their order. -/
def InOrder (ks : List Keyword) (sql : Text) : Prop := (topKeywords ks sql).Sublist ks

instance (ks : List Keyword) (sql : Text) : Decidable (InOrder ks sql) := by
  unfold InOrder
  infer_instance

structure Distinct (ks : List Keyword) : Prop where
  areKeywords : ∀ k ∈ ks, IsKeyword k
  firstWords : (ks.map fun k => upper (k.headD [])).Nodup

instance (ks : List Keyword) : Decidable (Distinct ks) :=
  decidable_of_iff ((∀ k ∈ ks, IsKeyword k) ∧ (ks.map fun k => upper (k.headD [])).Nodup)
    ⟨fun ⟨a, b⟩ => ⟨a, b⟩, fun ⟨a, b⟩ => ⟨a, b⟩⟩

namespace Stands

variable {sql : Text} {k k' : Keyword} {p q p' q' : Nat}

theorem inText (stands : Stands sql k p q) (isKeyword : IsKeyword k) : p < sql.length :=
  Nat.lt_of_lt_of_le (stands.lt isKeyword) stands.bound

theorem standsOne_iff {ks : List Keyword} (areKeywords : ∀ k ∈ ks, IsKeyword k) (inText : p ≤ sql.length) :
    ((cursorAt sql p).topKeyword? ks).isSome ↔ StandsOne sql ks p := by
  rw [← not_iff_not, ← topKeyword?_eq_none_iff areKeywords inText, Bool.not_eq_true,
    Option.isSome_eq_false_iff, Option.isNone_iff_eq_none]

theorem same_word (stands : Stands sql k p q) (other : Stands sql k' p q') (isKeyword : IsKeyword k)
    (isKeyword' : IsKeyword k') : upper (k.headD []) = upper (k'.headD []) := by
  have inText := (stands.inText isKeyword).le
  obtain ⟨-, here⟩ := (keyword?_cursorAt isKeyword inText).mpr ⟨q, stands, rfl⟩
  obtain ⟨-, here'⟩ := (keyword?_cursorAt isKeyword' inText).mpr ⟨q', other, rfl⟩
  rw [← Cursor.first_word isKeyword here, ← Cursor.first_word isKeyword' here']

theorem pair_sublist {ks : List Keyword} (stands : Stands sql k p q) (other : Stands sql k' p' q')
    (distinct : Distinct ks) (member : k ∈ ks) (member' : k' ∈ ks) (less : p < p') :
    [k, k'].Sublist (topKeywords ks sql) := by
  have answer {k : Keyword} {p q : Nat} (stands : Stands sql k p q) (member : k ∈ ks) :
      (ks.find? fun k => ((cursorAt sql p).topKeyword? [k]).isSome) = some k := by
    have isKeyword := distinct.areKeywords k member
    have inText := (stands.inText isKeyword).le
    have here : ((cursorAt sql p).topKeyword? [k]).isSome :=
      (standsOne_iff (by simpa using isKeyword) inText).mpr ⟨k, by simp, q, stands⟩
    have found : (ks.find? fun k => ((cursorAt sql p).topKeyword? [k]).isSome).isSome :=
      List.find?_isSome.mpr ⟨k, member, here⟩
    obtain ⟨k₁, first⟩ := Option.isSome_iff_exists.mp found
    have member₁ := List.mem_of_find?_eq_some first
    have isKeyword₁ := distinct.areKeywords k₁ member₁
    have also := List.find?_some first
    obtain ⟨k₂, single, q₂, stands₂⟩ := (standsOne_iff (by simpa using isKeyword₁) inText).mp also
    obtain rfl := List.mem_singleton.mp single
    have same := stands₂.same_word stands isKeyword₁ isKeyword
    rw [first, List.inj_on_of_nodup_map distinct.firstWords member₁ member same]
  have pair : [p, p'].Sublist (List.range sql.length) := by
    have inText := other.inText (distinct.areKeywords k' member')
    have upTo : [p, p'].Sublist (List.range (p' + 1)) := by
      rw [List.range_succ]
      exact (List.singleton_sublist.mpr (List.mem_range.mpr less)).append_right [p']
    exact upTo.trans (List.range_sublist.mpr inText)
  have mapped := pair.filterMap fun n =>
    ks.find? fun k => ((cursorAt sql n).topKeyword? [k]).isSome
  simp only [List.filterMap_cons, answer stands member, answer other member', List.filterMap_nil] at mapped
  exact mapped

end Stands

section Order

variable {sql : Text} {ks : List Keyword} {k k' : Keyword} {p q p' q' : Nat}

/-- The later of two keywords stands behind the earlier one. -/
theorem InOrder.lt (order : InOrder ks sql) (distinct : Distinct ks)
    (later : ¬[k', k].Sublist ks) (ne : k ≠ k') (member : k ∈ ks) (member' : k' ∈ ks)
    (stands : Stands sql k p q) (stands' : Stands sql k' p' q') : p < p' := by
  rcases Nat.lt_trichotomy p p' with less | same | greater
  · exact less
  · subst same
    have words := stands.same_word stands' (distinct.areKeywords k member)
      (distinct.areKeywords k' member')
    exact absurd (List.inj_on_of_nodup_map distinct.firstWords member member' words) ne
  · exact absurd ((stands'.pair_sublist stands distinct member' member greater).trans order) later

theorem Distinct.nodup (distinct : Distinct ks) : ks.Nodup := List.Nodup.of_map _ distinct.firstWords

theorem not_pair_of_nodup {α : Type} {l : List α} (nodup : l.Nodup) (a : α) : ¬[a, a].Sublist l :=
  fun pair => by simpa using nodup.sublist pair

theorem InOrder.unique (order : InOrder ks sql) (distinct : Distinct ks) (member : k ∈ ks)
    (stands : Stands sql k p q) (stands' : Stands sql k p' q') : p = p' := by
  have once := not_pair_of_nodup distinct.nodup k
  by_contra ne
  rcases Nat.lt_or_gt_of_ne ne with less | greater
  · exact once ((stands.pair_sublist stands' distinct member member less).trans order)
  · exact once ((stands'.pair_sublist stands distinct member member greater).trans order)

end Order
end QueryChain
