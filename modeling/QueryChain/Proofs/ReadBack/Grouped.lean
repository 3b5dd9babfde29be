import QueryChain.Proofs.ReadBack.Listing

namespace QueryChain

section Group

variable {d : Char} {t u : Text}

def grouped (t : Text) : Text := '(' :: t ++ [')']

theorem solid_grouped (solid : Solid t) : Solid (grouped t) := solid.group.1

theorem scan_grouped (solid : Solid t) :
    scan (grouped t) = ⟨'(', 0, .code⟩ :: (scan t).map Mark.inner ++ [⟨')', 0, .code⟩] := solid.group.2

theorem isTop_inner (m : Mark) : m.inner.isTop = false := by simp [Mark.isTop, Mark.inner]

theorem trim_grouped (t : Text) : trim (grouped t) = grouped t := by
  apply trim_eq_self
  · rintro c ⟨⟩
    decide
  · intro c last
    rw [grouped, getLast?_append_of_ne_nil (by simp)] at last
    obtain rfl : ')' = c := by simpa using last
    decide

theorem hasTop_grouped (solid : Solid t) (opening : d ≠ '(') (closing : d ≠ ')') : hasTop d (grouped t) = false := by
  rw [hasTop_eq_false_iff, scan_grouped solid]
  intro m member
  simp only [List.cons_append, List.mem_cons, List.mem_append, List.mem_map, List.not_mem_nil, or_false] at member
  rcases member with rfl | ⟨n, -, rfl⟩ | rfl
  · simp [Mark.isTopOf, Ne.symm opening]
  · simp [Mark.isTopOf, isTop_inner]
  · simp [Mark.isTopOf, Ne.symm closing]

theorem item_grouped (solid : Solid t) : Item (grouped t) :=
  ⟨solid_grouped solid, trim_grouped t, by simp [grouped], hasTop_grouped solid (by decide) (by decide)⟩

theorem splitTop_grouped (solid : Solid t) : splitTop ',' (grouped t) = [grouped t] := by
  have items : ∀ u ∈ [grouped t], Item u := by simpa using item_grouped solid
  have alone := splitTop_list items
  rwa [joinWith_one] at alone

theorem isGroup_grouped (solid : Solid t) : isGroup (grouped t) := by
  have inside : (scan (grouped t)).dropLast.any (·.isTopOf ')') = false := by
    rw [scan_grouped solid, List.dropLast_concat, List.any_eq_false]
    intro m member
    rcases List.mem_cons.mp member with rfl | inner
    · decide
    · obtain ⟨n, -, rfl⟩ := List.mem_map.mp inner
      simp [Mark.isTopOf, isTop_inner]
  have balanced : fault? (grouped t) = none := (solid_grouped solid).balanced
  have last : (grouped t).getLast? = some ')' := getLast?_append_of_ne_nil (by simp)
  rw [isGroup, trim_grouped, inside, balanced, last]
  rfl

theorem groupBody_grouped (solid : Solid t) (trimmed : trim t = t) : groupBody (grouped t) = t := by
  have inner : (grouped t).tail.dropLast = t := by simp [grouped]
  rw [groupBody, trim_grouped, if_pos (isGroup_grouped solid), inner, trimmed]

theorem leadingGroup?_grouped (solid : Solid t) (loose : Loose u) :
    leadingGroup? (grouped t ++ u) = some (grouped t, u) := by
  have kept : ∀ m ∈ (scan t).map Mark.inner, (!m.isTopOf ')') = true := by
    intro m member
    obtain ⟨n, -, rfl⟩ := List.mem_map.mp member
    simp [Mark.isTopOf, isTop_inner]
  have closing : (⟨')', 0, .code⟩ : Mark).isTopOf ')' := by decide
  have marks : scan (grouped t ++ u) =
      ⟨'(', 0, .code⟩ :: ((scan t).map Mark.inner ++ ⟨')', 0, .code⟩ :: scan u) := by
    rw [(solid_grouped solid).scan_append loose, scan_grouped solid]
    simp
  have text : markText ((scan t).map Mark.inner) = t := by
    rw [markText, List.map_map]
    exact markText_scan t
  rw [leadingGroup?, marks]
  dsimp only
  rw [List.dropWhile_append_of_pos kept, List.takeWhile_append_of_pos kept,
    List.dropWhile_cons_of_neg (by simp [closing]), List.takeWhile_cons_of_neg (by simp [closing])]
  simp [text, markText_scan, grouped]

end Group
end QueryChain
