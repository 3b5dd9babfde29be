import QueryChain.Proofs.Keyword.Lacks

namespace QueryChain

def sectionsText : List (Keyword × Text) → Text
  | [] => []
  | (k, body) :: rest => ' ' :: (k.text ++ ' ' :: (body ++ sectionsText rest))

def present (sections : List (Keyword × Option Text)) : List (Keyword × Text) :=
  sections.filterMap fun (k, body) => body.map (k, ·)

structure Watched (order ks : List Keyword) : Prop where
  keywords : ∀ k ∈ ks, IsKeyword k
  sub : order ⊆ ks
  starts : ∀ k ∈ ks ++ seamKeywords, ∀ k' ∈ order, k'.headD [] ∉ k.tail
  ends : ∀ k ∈ ks ++ seamKeywords, ∀ k' ∈ order, k'.getLastD [] ∉ k.dropLast
  apart : ∀ k ∈ ks, ∀ k' ∈ order, k' ≠ k → hasKeyword k k'.text = false
  clean : ∀ k' ∈ order, cleanUp k'.text = k'.text ∧ Balanced k'.text

def Legible (order ks : List Keyword) (sections : List (Keyword × Text)) : Prop :=
  ∀ p ∈ sections, p.1 ∈ order ∧ Neat p.2 ∧ Lacks ks p.2

section Present

variable {k : Keyword} {sections : List (Keyword × Option Text)}

theorem keys_present (sections : List (Keyword × Option Text)) :
    ((present sections).map Prod.fst).Sublist (sections.map Prod.fst) := by
  induction sections with
  | nil => exact .slnil
  | cons p sections ih =>
    obtain ⟨k, body⟩ := p
    cases body with
    | none => exact ih.cons _
    | some b => exact ih.cons_cons _

theorem lookup_present (nodup : (sections.map Prod.fst).Nodup) :
    (present sections).lookup k = (sections.lookup k).join := by
  induction sections with
  | nil => rfl
  | cons p sections ih =>
    obtain ⟨k', body⟩ := p
    rw [List.map_cons, List.nodup_cons] at nodup
    cases body with
    | none =>
      have skipped : present ((k', none) :: sections) = present sections := rfl
      rw [skipped, ih nodup.2, List.lookup_cons]
      by_cases same : k == k'
      · rw [same]
        obtain rfl := beq_iff_eq.mp same
        have absent : sections.lookup k = none := by
          rw [List.lookup_eq_none_iff]
          intro p member
          rw [bne_iff_ne]
          rintro rfl
          exact nodup.1 (List.mem_map.mpr ⟨p, member, rfl⟩)
        rw [absent]
        rfl
      · rw [Bool.not_eq_true] at same
        rw [same]
    | some b =>
      have kept : present ((k', some b) :: sections) = (k', b) :: present sections := rfl
      rw [kept, List.lookup_cons, List.lookup_cons, ih nodup.2]
      cases k == k' <;> rfl

end Present
section Printed

variable {ks ends order : List Keyword} {k : Keyword} {front body : Text} {sections : List (Keyword × Text)}

theorem firstWord_text (isKeyword : IsKeyword k) (u : Text) : firstWord (k.text ++ ' ' :: u) = k.headD [] :=
  (spells_text isKeyword).firstWord_eq isKeyword (by simp; decide)

theorem lastWord_text (isKeyword : IsKeyword k) : lastWord k.text = k.getLastD [] :=
  (spells_text isKeyword).lastWord_eq isKeyword

namespace Watched

theorem isKeyword (watched : Watched order ks) (member : k ∈ order) : IsKeyword k :=
  watched.keywords k (watched.sub member)

theorem neat (watched : Watched order ks) (member : k ∈ order) : Neat k.text := by
  obtain ⟨clean, balanced⟩ := watched.clean k member
  refine .of_normal ?_ balanced ((spells_text (watched.isKeyword member)).ne_nil (watched.isKeyword member))
  rw [normalize, if_pos clean]

theorem uncrossed_key (watched : Watched order ks) (member : k ∈ order) {ks' : List Keyword}
    (sub : ks' ⊆ ks ++ seamKeywords) (u : Text) : Uncrossed ks' k.text u := by
  intro k' member'
  rw [lastWord_text (watched.isKeyword member)]
  exact .inl (watched.ends k' (sub member') k member)

theorem uncrossed_body (watched : Watched order ks) (member : k ∈ order) {ks' : List Keyword}
    (sub : ks' ⊆ ks ++ seamKeywords) (s u : Text) : Uncrossed ks' s (k.text ++ ' ' :: u) := by
  intro k' member'
  rw [firstWord_text (watched.isKeyword member)]
  exact .inr (watched.starts k' (sub member') k member)

end Watched

theorem Legible.rest {p : Keyword × Text} (legible : Legible order ks (p :: sections)) : Legible order ks sections :=
  fun q member => legible q (List.mem_cons_of_mem _ member)

theorem neat_sections (watched : Watched order ks) (legible : Legible order ks sections) (neat : Neat front) :
    Neat (front ++ sectionsText sections) := by
  induction sections generalizing front with
  | nil => rwa [sectionsText, List.append_nil]
  | cons p sections ih =>
    obtain ⟨k, body⟩ := p
    obtain ⟨member, neatBody, -⟩ := legible (k, body) (by simp)
    have rest := ih legible.rest neatBody
    have chunk := (watched.neat member).glue rest
      (watched.uncrossed_key member (List.subset_append_right _ _) _)
    exact neat.glue chunk (watched.uncrossed_body member (List.subset_append_right _ _) _ _)

theorem lacks_sections (watched : Watched order ks) (legible : Legible order ks sections) {ks' : List Keyword}
    (sub : ks' ⊆ ks) (other : ∀ p ∈ sections, p.1 ∉ ks') (neat : Neat front) (lacks : Lacks ks' front) :
    Lacks ks' (front ++ sectionsText sections) := by
  have areKeywords : ∀ k ∈ ks', IsKeyword k := fun k member => watched.keywords k (sub member)
  have inBoth : ks' ⊆ ks ++ seamKeywords := fun k member => List.mem_append_left _ (sub member)
  induction sections generalizing front with
  | nil => rwa [sectionsText, List.append_nil]
  | cons p sections ih =>
    obtain ⟨k, body⟩ := p
    obtain ⟨member, neatBody, lacksBody⟩ := legible (k, body) (by simp)
    have neatRest := neat_sections watched legible.rest neatBody
    have rest := ih legible.rest (fun p inRest => other p (List.mem_cons_of_mem _ inRest)) neatBody
      (lacksBody.mono sub)
    have key : Lacks ks' k.text := by
      intro k' member'
      apply watched.apart k' (sub member') k member
      rintro rfl
      exact other (k, body) (by simp) member'
    have chunk := key.glue rest areKeywords (watched.neat member) neatRest
      (watched.uncrossed_key member inBoth _)
    have neatChunk := (watched.neat member).glue neatRest
      (watched.uncrossed_key member (List.subset_append_right _ _) _)
    exact lacks.glue chunk areKeywords neat neatChunk (watched.uncrossed_body member inBoth _ _)

theorem upTo_sections (watched : Watched order ks) (legible : Legible order ks sections) (sub : ends ⊆ ks)
    (neat : Neat body) (lacks : Lacks ends body) (next : ∀ p ∈ sections.head?, p.1 ∈ ends) :
    ∃ blanks : Text, (∀ c ∈ blanks, isBlank c) ∧
      (Cursor.start (body ++ sectionsText sections)).upTo ends = body ++ blanks := by
  have areKeywords : ∀ k ∈ ends, IsKeyword k := fun k member => watched.keywords k (sub member)
  have inBoth : ends ⊆ ks ++ seamKeywords := fun k member => List.mem_append_left _ (sub member)
  cases sections with
  | nil =>
    rw [sectionsText, List.append_nil, upTo_lacks lacks]
    exact ⟨[], by simp, by simp⟩
  | cons p sections =>
    obtain ⟨k, later⟩ := p
    obtain ⟨member, neatLater, -⟩ := legible (k, later) (by simp)
    have neatRest := neat_sections watched legible.rest neatLater
    have neatChunk := (watched.neat member).glue neatRest
      (watched.uncrossed_key member (List.subset_append_right _ _) _)
    rw [sectionsText, upTo_glue areKeywords neat neatChunk lacks (watched.uncrossed_body member inBoth _ _),
      Cursor.upTo_text (watched.isKeyword member) (by simp; decide) (next _ rfl)]
    exact ⟨[' '], by decide, rfl⟩

theorem section?_body (watched : Watched order ks) (legible : Legible order ks sections) (sub : ends ⊆ ks)
    (isKeyword : IsKeyword k) (neat : Neat body) (lacks : Lacks ends body)
    (next : ∀ p ∈ sections.head?, p.1 ∈ ends) : section? k ends
      (k.text ++ ' ' :: (body ++ sectionsText sections)) = some body := by
  obtain ⟨blanks, blank, cut⟩ := upTo_sections watched legible sub neat lacks next
  rw [section?_text isKeyword fun k member => watched.keywords k (sub member), cut]
  exact congrArg some (trim_pad (f := [' ']) (by decide) blank neat.trim)

/-- Every section is found behind a text that has no keyword of its own. -/
theorem section?_sections (watched : Watched order ks) (legible : Legible order ks sections) (member : k ∈ ks)
    (sub : ends ⊆ ks) (keys : (sections.map Prod.fst).Sublist order) (nodup : order.Nodup)
    (follow : order.Pairwise fun k₁ k₂ => k₁ = k → k₂ ∈ ends) (neat : Neat front) (lacks : Lacks [k] front) : section? k ends
      (front ++ sectionsText sections) = sections.lookup k := by
  have once := keys.nodup nodup
  have next := follow.sublist keys
  clear keys nodup follow
  have inBoth : [k] ⊆ ks ++ seamKeywords := by
    simpa using .inl member
  induction sections generalizing front with
  | nil =>
    rw [sectionsText, List.append_nil, section?_lacks lacks]
    rfl
  | cons p sections ih =>
    obtain ⟨k', body⟩ := p
    obtain ⟨member', neatBody, lacksBody⟩ := legible (k', body) (by simp)
    have neatRest := neat_sections watched legible.rest neatBody
    have neatChunk := (watched.neat member').glue neatRest
      (watched.uncrossed_key member' (List.subset_append_right _ _) _)
    rw [List.map_cons, List.nodup_cons] at once
    rw [List.map_cons, List.pairwise_cons] at next
    rw [sectionsText, section?_glue (watched.keywords k member) neat neatChunk lacks
      (watched.uncrossed_body member' inBoth _ _), List.lookup_cons]
    by_cases same : k = k'
    · subst same
      rw [section?_body watched legible.rest sub (watched.keywords k member) neatBody (lacksBody.mono sub)]
      · simp
      · intro q first
        refine next.1 q.1 ?_ rfl
        exact List.mem_map_of_mem (List.mem_of_mem_head? first)
    · have other : (k == k') = false := by simpa using same
      have key : Lacks [k] k'.text := by
        intro k₁ member₁
        obtain rfl := List.mem_singleton.mp member₁
        exact watched.apart k₁ member k' member' (Ne.symm same)
      rw [other, section?_glue (watched.keywords k member) (watched.neat member') neatRest key
        (watched.uncrossed_key member' inBoth _),
        ih legible.rest neatBody (lacksBody.single member) once.2 next.2]

theorem placeholders_sections (watched : Watched order ks) (legible : Legible order ks sections) (solid : Solid front) :
    placeholders (front ++ sectionsText sections) =
      placeholders front + (sections.map fun p => placeholders p.2).sum := by
  induction sections generalizing front with
  | nil => simp [sectionsText]
  | cons p sections ih =>
    obtain ⟨k, body⟩ := p
    obtain ⟨member, neatBody, -⟩ := legible (k, body) (by simp)
    have noMark : '?' ∉ k.text := by
      intro inText
      rcases (spells_text (watched.isKeyword member)).chars (watched.isKeyword member) _ inText with blank | letter
      · exact absurd blank (by decide)
      · exact absurd letter (by decide)
    rw [sectionsText, solid.placeholders_glue, (watched.neat member).solid.placeholders_glue,
      placeholders_of_free noMark, ih legible.rest neatBody.solid, List.map_cons, List.sum_cons, Nat.zero_add]

end Printed
end QueryChain
