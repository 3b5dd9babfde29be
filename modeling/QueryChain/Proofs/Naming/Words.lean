import QueryChain.Proofs.Condition.Chain

namespace QueryChain

section Words

variable {κ : Type} {f : Text → Option κ} {issued : Nat} {b b' : Option Char} {ms : Marks}

def wordMarks (f : Text → Option κ) (before : Option Char) : Marks → List (Mark × Option κ)
  | [] => []
  | m :: ms => (m, f (Cursor.topWord ⟨before, m :: ms⟩)) :: wordMarks f (some m.char) ms

def Freed (p q : Mark × Option κ) : Prop := p.1.isPlaceholder → q.2 = none

instance [DecidableEq κ] (p q : Mark × Option κ) : Decidable (Freed p q) :=
  inferInstanceAs (Decidable (_ → _))

/-- No placeholder's name would run into a word. -/
def KeepsWords (f : Text → Option κ) (t : Text) : Prop := (wordMarks f none (scan t)).IsChain Freed

instance [DecidableEq κ] (t : Text) : Decidable (KeepsWords f t) := by unfold KeepsWords; infer_instance

theorem map_fst_wordMarks (f : Text → Option κ) (b : Option Char) (ms : Marks) :
    (wordMarks f b ms).map Prod.fst = ms := by
  induction ms generalizing b with
  | nil => rfl
  | cons m ms ih => rw [wordMarks, List.map_cons, ih]

def plainWords (l : List (Mark × Option κ)) : List (Char × Option κ) := l.map fun p => (p.1.char, p.2)

theorem readWords_wordsFrom (f : Text → Option κ) (b : Option Char) (ms : Marks) :
    readWords f (wordsFrom b ms) = plainWords (wordMarks f b ms) := by
  induction ms generalizing b with
  | nil => rfl
  | cons m ms ih =>
    rw [wordsFrom, wordMarks, readWords, List.map_cons, ← readWords, ih]
    rfl

def nameWords (issued : Nat) : List (Mark × Option κ) → List (Char × Option κ)
  | [] => []
  | p :: rest =>
    if p.1.isPlaceholder then (paramName (issued + 1)).map (·, none) ++ nameWords (issued + 1) rest
    else (p.1.char, p.2) :: nameWords issued rest

theorem readWords_cons (b : Option Char) (m : Mark) (ms : Marks) :
    readWords f (wordsFrom b (m :: ms)) =
      (m.char, f (Cursor.topWord ⟨b, m :: ms⟩)) :: readWords f (wordsFrom (some m.char) ms) := rfl

theorem topWord_of_placeholder {m : Mark} (placeholder : m.isPlaceholder) (b : Option Char) (ms : Marks) :
    Cursor.topWord ⟨b, m :: ms⟩ = [] := by
  apply topWord_of_stop
  rw [(char_of_placeholder placeholder).2]
  decide

/-- Where no name runs into a word, naming the placeholders changes nothing else. -/
theorem readWords_nameMarks (reads : ReadsWords f) (kept : (wordMarks f b ms).IsChain Freed)
    (same : b.any isWordChar = b'.any isWordChar ∨
      b'.any isWordChar ∧ ∀ p ∈ (wordMarks f b ms).head?, p.2 = none) :
    readWords f (wordsFrom b' (nameMarks issued ms)) = nameWords issued (wordMarks f b ms) := by
  induction ms generalizing b b' issued with
  | nil => rfl
  | cons m ms ih =>
    rw [wordMarks] at kept same
    rw [nameMarks, wordMarks, nameWords]
    by_cases placeholder : m.isPlaceholder
    · obtain ⟨b₁, inside, name⟩ := readWords_nameOf reads b' (issued + 1) m.depth
        (nameMarks (issued + 1) ms)
      have head : ∀ p ∈ (wordMarks f (some m.char) ms).head?, p.2 = none := by
        intro p first
        obtain ⟨rest, here⟩ := List.head?_eq_some_iff.mp first
        rw [here] at kept
        exact (List.isChain_cons_cons.mp kept).1 placeholder
      rw [if_pos placeholder, if_pos placeholder, name,
        ih kept.tail (.inr ⟨by simpa using inside, head⟩)]
    · rw [if_neg placeholder, if_neg placeholder, readWords_cons, topWord_nameMarks,
        ih kept.tail (.inl rfl)]
      rcases same with equal | ⟨inside, head⟩
      · rw [topWord_before equal]
      · have none := head _ rfl
        rw [topWord_inside inside, reads.nil, ← none]

theorem length_standsFor_le (reads : ReadsWords f) (inside : b.any isWordChar → b'.any isWordChar) :
    (standsFor f (wordsFrom b' (nameMarks issued ms))).length ≤ (standsFor f (wordsFrom b ms)).length :=
  (standsFor_sublist reads inside).length_le

theorem standsFor_nameMarks_iff (reads : ReadsWords f) (inside : b.any isWordChar → b'.any isWordChar) :
    standsFor f (wordsFrom b' (nameMarks issued ms)) = standsFor f (wordsFrom b ms) ↔
      (wordMarks f b ms).IsChain Freed ∧
        (b.any isWordChar = b'.any isWordChar ∨ ∀ p ∈ (wordMarks f b ms).head?, p.2 = none) := by
  induction ms generalizing b b' issued with
  | nil => simp [wordMarks, nameMarks, wordsFrom, standsFor]
  | cons m ms ih =>
    rw [nameMarks, standsFor_cons b, wordMarks, List.isChain_cons]
    by_cases placeholder : m.isPlaceholder
    · obtain ⟨b₁, inside₁, name⟩ := standsFor_nameOf reads b' (issued + 1) m.depth
        (nameMarks (issued + 1) ms)
      have question : (some m.char).any isWordChar = false := by
        rw [(char_of_placeholder placeholder).2]
        decide
      have other : ¬(some m.char).any isWordChar = (some b₁).any isWordChar := by
        rw [question, Option.any_some, inside₁]
        decide
      rw [if_pos placeholder, name, topWord_of_placeholder placeholder, reads.nil, Option.toList_none,
        List.nil_append, ih fun _ => by simpa using inside₁]
      simp only [other, false_or, List.head?_cons, Option.mem_some_iff, forall_eq', or_true, and_true]
      exact ⟨fun both => ⟨fun q first _ => both.2 q first, both.1⟩,
        fun both => ⟨both.2, fun q first => both.1 q first placeholder⟩⟩
    · have rest := @ih issued (some m.char) (some m.char) id
      simp only [true_or, and_true] at rest
      have freed : ∀ q ∈ (wordMarks f (some m.char) ms).head?,
          Freed (m, f (Cursor.topWord ⟨b, m :: ms⟩)) q := fun _ _ here => absurd here placeholder
      rw [if_neg placeholder, standsFor_cons, topWord_nameMarks]
      simp only [List.head?_cons, Option.mem_some_iff, forall_eq']
      by_cases equal : b.any isWordChar = b'.any isWordChar
      · rw [topWord_before equal.symm, List.append_cancel_left_eq, rest]
        exact ⟨fun chain => ⟨⟨freed, chain⟩, .inl equal⟩, fun both => both.1.2⟩
      · have stop : b'.any isWordChar := by
          cases start : b.any isWordChar with
          | true => exact inside start
          | false => cases later : b'.any isWordChar with
            | true => rfl
            | false => rw [start, later] at equal; exact absurd rfl equal
        rw [topWord_inside stop, reads.nil, Option.toList_none, List.nil_append]
        cases word : f (Cursor.topWord ⟨b, m :: ms⟩) with
        | none =>
          rw [word] at freed
          rw [Option.toList_none, List.nil_append, rest]
          exact ⟨fun chain => ⟨⟨freed, chain⟩, .inr rfl⟩, fun both => both.1.2⟩
        | some k =>
          -- the word is lost, and naming adds none to make up for it
          refine iff_of_false (fun same => ?_) fun both => ?_
          · have shorter : (standsFor f (wordsFrom (some m.char) (nameMarks issued ms))).length ≤
                (standsFor f (wordsFrom (some m.char) ms)).length := length_standsFor_le reads id
            have lengths := congrArg List.length same
            simp only [Option.toList_some, List.length_append, List.length_singleton] at lengths
            omega
          · rcases both.2 with same | none
            · exact equal same
            · cases none

/-- Naming the placeholders of a text keeps its words exactly where no name runs into one. -/
theorem keepsWords_iff (reads : ReadsWords f) (t : Text) (issued : Nat) :
    KeepsWords f t ↔ standsFor f (topWords (numbered issued t)) = standsFor f (topWords t) := by
  rw [topWords, topWords, scan_numbered, standsFor_nameMarks_iff reads id]
  simp [KeepsWords]

theorem KeepsWords.named {t : Text} (kept : KeepsWords f t) (reads : ReadsWords f) (issued : Nat) :
    readWords f (topWords (numbered issued t)) = nameWords issued (wordMarks f none (scan t)) := by
  rw [topWords, scan_numbered]
  exact readWords_nameMarks reads kept (.inl rfl)

end Words
end QueryChain
