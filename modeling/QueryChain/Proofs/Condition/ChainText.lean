import QueryChain.Proofs.Keyword.Lacks

namespace QueryChain

structure Link (a : Text) : Prop where
  neat : Neat a
  other : upper a ≠ "NULL".toList
  lacks : Lacks conditionEnds a

def connectiveWords : List Text := [Connective.and.word, Connective.or.word]

theorem avoids_conditionEnds : Avoids connectiveWords conditionEnds := ⟨by decide, by decide⟩

section Connective

variable {ks : List Keyword}

theorem neat_connective (k : Connective) : Neat k.word := by
  apply Neat.of_plain <;> cases k <;> decide

theorem firstWord_connective (k : Connective) (u : Text) : firstWord (k.word ++ ' ' :: u) ∈ connectiveWords := by
  rw [firstWord_glue]
  cases k <;> decide

theorem lastWord_connective (k : Connective) : lastWord k.word ∈ connectiveWords := by cases k <;> decide

theorem lacks_connective (avoids : Avoids connectiveWords ks) (k : Connective) : Lacks ks k.word :=
  avoids.lacks (by cases k <;> decide)

theorem uncrossed_connective (s : Text) (k : Connective) (u : Text) :
    Uncrossed seamKeywords s (k.word ++ ' ' :: u) := by
  have last : ∀ k' ∈ seamKeywords, firstWord k.word ∉ k'.tail := by cases k <;> decide
  intro k' member
  rw [firstWord_glue]
  exact .inr (last k' member)

end Connective
section Chain

variable {ks : List Keyword} {a : Text} {rest : List (Connective × Text)}

theorem Link.neat_behind (link : Link a) (k : Connective) : Neat (k.word ++ ' ' :: a) := by
  cases k with
  | and => exact link.neat.and_operand link.other link.lacks
  | or =>
    have apart : ∀ k ∈ seamKeywords, lastWord Connective.or.word ∉ k.dropLast := by decide
    exact (neat_connective .or).glue link.neat fun k member => .inl (apart k member)

theorem Link.lacks_behind (link : Link a) (avoids : Avoids connectiveWords ks) (lacks : Lacks ks a) (k : Connective) :
    Lacks ks (k.word ++ ' ' :: a) :=
  (lacks_connective avoids k).glue lacks avoids.keywords (neat_connective k) link.neat
    (avoids.uncrossed_last (lastWord_connective k) a)

/-- Links put together are one: what holds of them all holds of the whole chain. -/
theorem Link.chain (links : ∀ b ∈ a :: rest.map Prod.snd, Link b) : Link (a ++ Chain.restText rest) := by
  induction rest generalizing a with
  | nil =>
    rw [Chain.restText, List.append_nil]
    exact links a (by simp)
  | cons p rest ih =>
    obtain ⟨k, b⟩ := p
    have here := links a (by simp)
    have tail := ih (a := b) fun c member => links c (List.mem_cons_of_mem _ member)
    have chunk := tail.neat_behind k
    rw [Chain.restText_cons]
    refine ⟨here.neat.glue chunk (uncrossed_connective a k _), ?_, ?_⟩
    · intro bare
      have space : ' ' ∈ upper (a ++ ' ' :: (k.word ++ ' ' :: (b ++ Chain.restText rest))) :=
        List.mem_map.mpr ⟨' ', by simp, by decide⟩
      rw [bare] at space
      exact absurd space (by decide)
    · exact here.lacks.glue (tail.lacks_behind avoids_conditionEnds tail.lacks k) avoids_conditionEnds.keywords
        here.neat chunk (avoids_conditionEnds.uncrossed_first a (firstWord_connective k _))

theorem lacks_chain (links : ∀ b ∈ a :: rest.map Prod.snd, Link b) (avoids : Avoids connectiveWords ks)
    (lacks : ∀ b ∈ a :: rest.map Prod.snd, Lacks ks b) : Lacks ks (a ++ Chain.restText rest) := by
  induction rest generalizing a with
  | nil =>
    rw [Chain.restText, List.append_nil]
    exact lacks a (by simp)
  | cons p rest ih =>
    obtain ⟨k, b⟩ := p
    have later : ∀ c ∈ b :: rest.map Prod.snd, Link c := fun c member => links c (List.mem_cons_of_mem _ member)
    have tail := Link.chain later
    have rest := ih later fun c member => lacks c (List.mem_cons_of_mem _ member)
    rw [Chain.restText_cons]
    exact (lacks a (by simp)).glue (tail.lacks_behind avoids rest k) avoids.keywords (links a (by simp)).neat
      (tail.neat_behind k) (avoids.uncrossed_first a (firstWord_connective k _))

end Chain
end QueryChain
