import Mathlib.Data.List.Find
import QueryChain.Proofs.Naming.Marks
import QueryChain.Proofs.Keyword.Words

namespace QueryChain

def Cursor.topWord (c : Cursor) : Text :=
  if c.atTop && !c.before.any isWordChar then upper (c.text.takeWhile isWordChar) else []

theorem upper_of_isCapital {w : Text} (capital : ∀ c ∈ w, isCapital c) : upper w = w := by
  rw [upper]
  conv_rhs => rw [← List.map_id w]
  exact List.map_congr_left fun c member => toUpper_of_isCapital c (capital c member)

theorem takeWhile_of_stop {p : Char → Bool} {s u : Text} (all : ∀ c ∈ s, p c)
    (stop : u.head?.any p = false) : (s ++ u).takeWhile p = s := by
  rw [takeWhile_append_of_stop (.inl stop), List.takeWhile_eq_self_iff.mpr all]

/-- A single word is found where it is the whole word. -/
theorem Cursor.startsWith_word {c : Cursor} {w : Text} (isKeyword : IsKeyword [w]) :
    c.startsWith [w] ↔ c.before.any isWordChar = false ∧ upper (c.text.takeWhile isWordChar) = w := by
  have capital := (isKeyword.2 w (by simp)).2
  constructor
  · intro starts
    obtain ⟨after, found⟩ := Option.isSome_iff_exists.mp starts
    have before := ((keyword?_eq_some_iff isKeyword).mp found).1
    have word := first_word isKeyword found
    rw [List.headD_cons, upper_of_isCapital capital] at word
    exact ⟨before, word⟩
  · rintro ⟨before, word⟩
    apply Option.isSome_iff_exists.mpr
    refine ⟨_, (keyword?_eq_some_iff isKeyword).mpr ⟨before, c.text.takeWhile isWordChar,
      c.text.dropWhile isWordChar, List.takeWhile_append_dropWhile.symm, ?_, ?_, rfl⟩⟩
    · apply Spells.word
      rw [upper_of_isCapital capital, word]
    · have stop := List.head?_dropWhile_not isWordChar c.text
      cases first : (c.text.dropWhile isWordChar).head? with
      | none => rfl
      | some d =>
        rw [first] at stop
        simpa using stop

section Probe

variable {κ : Type} {all : List κ} {word : κ → Text}

def lookUp (all : List κ) (word : κ → Text) (w : Text) : Option κ := all.find? (word · == w)

def ReadsWords (f : Text → Option κ) : Prop := ∀ w k, f w = some k → w ≠ [] ∧ ∀ c ∈ w, isCapital c

theorem readsWords_lookUp (areKeywords : ∀ k ∈ all, IsKeyword [word k]) :
    ReadsWords (lookUp all word) := by
  intro w k found
  have same : word k = w := by simpa using List.find?_some found
  have isKeyword := areKeywords k (List.mem_of_find?_eq_some found)
  rw [same] at isKeyword
  exact isKeyword.2 w (by simp)

theorem ReadsWords.nil {f : Text → Option κ} (reads : ReadsWords f) : f [] = none := by
  cases found : f [] with
  | none => rfl
  | some k => exact absurd rfl (reads [] k found).1

theorem probe_eq (areKeywords : ∀ k ∈ all, IsKeyword [word k]) (c : Cursor) :
    (if c.atTop then all.find? fun k => c.startsWith [word k] else none) =
      lookUp all word c.topWord := by
  by_cases here : c.atTop && !c.before.any isWordChar
  · have top := here
    rw [Bool.and_eq_true, Bool.not_eq_true'] at top
    rw [if_pos top.1, Cursor.topWord, if_pos here, lookUp]
    apply List.find?_congr
    intro k member
    rw [Bool.eq_iff_iff, Cursor.startsWith_word (areKeywords k member), beq_iff_eq]
    exact ⟨fun found => found.2.symm, fun same => ⟨top.2, same.symm⟩⟩
  · rw [Cursor.topWord, if_neg here, (readsWords_lookUp areKeywords).nil]
    split
    · rename_i top
      rw [List.find?_eq_none]
      intro k member starts
      have before := ((Cursor.startsWith_word (areKeywords k member)).mp starts).1
      rw [top, before] at here
      exact here rfl
    · rfl

end Probe

def wordsFrom (before : Option Char) : Marks → List (Char × Text)
  | [] => []
  | m :: ms => (m.char, Cursor.topWord ⟨before, m :: ms⟩) :: wordsFrom (some m.char) ms

def topWords (t : Text) : List (Char × Text) := wordsFrom none (scan t)

theorem annotate_eq {κ : Type} {all : List κ} {word : κ → Text} {probe : Cursor → Option κ}
    (areKeywords : ∀ k ∈ all, IsKeyword [word k])
    (probes : ∀ c, probe c = if c.atTop then all.find? fun k => c.startsWith [word k] else none)
    (before : Option Char) (ms : Marks) :
    Cursor.annotate probe before ms =
      (wordsFrom before ms).map fun p => (p.1, lookUp all word p.2) := by
  induction ms generalizing before with
  | nil => rfl
  | cons m ms ih =>
    rw [Cursor.annotate, wordsFrom, ih, List.map_cons, probes, probe_eq areKeywords]

theorem map_fst_wordsFrom (before : Option Char) (ms : Marks) :
    (wordsFrom before ms).map Prod.fst = markText ms := by
  induction ms generalizing before with
  | nil => rfl
  | cons m ms ih => rw [wordsFrom, List.map_cons, ih]; rfl

theorem map_fst_topWords (t : Text) : (topWords t).map Prod.fst = t := by
  rw [topWords, map_fst_wordsFrom, markText_scan]

/-- No word goes on from the end of the first text into the second. -/
def Divided (s u : Text) : Prop := s.getLast?.any isWordChar = false ∨ u.head?.any isWordChar = false

theorem takeWhile_append {s u : Text} (divided : Divided s u) (full : s ≠ []) :
    (s ++ u).takeWhile isWordChar = s.takeWhile isWordChar :=
  takeWhile_append_of_stop (divided.symm.imp_right fun last => ⟨full, last⟩)

section Words

variable {s u t : Text} {ms ns : Marks}

theorem topWord_append {before : Option Char} {m : Mark}
    (divided : Divided (markText (m :: ms)) (markText ns)) :
    Cursor.topWord ⟨before, m :: (ms ++ ns)⟩ = Cursor.topWord ⟨before, m :: ms⟩ := by
  have word := takeWhile_append divided (List.cons_ne_nil _ _)
  rw [← markText_append] at word
  rw [Cursor.topWord, Cursor.topWord, Cursor.text_mk, Cursor.text_mk, ← List.cons_append, word]
  rfl

/-- In front of a word it makes a difference whether another one ends there, and nothing else does. -/
theorem topWord_before {b b' : Option Char} (same : b.any isWordChar = b'.any isWordChar) (ms : Marks) :
    Cursor.topWord ⟨b, ms⟩ = Cursor.topWord ⟨b', ms⟩ := by
  rw [Cursor.topWord, Cursor.topWord, same]
  rfl

theorem topWord_inside {b : Option Char} (inside : b.any isWordChar) (ms : Marks) :
    Cursor.topWord ⟨b, ms⟩ = [] := by
  rw [Cursor.topWord, if_neg (by simp [inside])]

theorem wordsFrom_before {b b' : Option Char} (same : b.any isWordChar = b'.any isWordChar) (ms : Marks) :
    wordsFrom b ms = wordsFrom b' ms := by
  cases ms with
  | nil => rfl
  | cons m ms => rw [wordsFrom, wordsFrom, topWord_before same]

theorem topWord_of_stop {b : Option Char} {m : Mark} (stop : isWordChar m.char = false) (ms : Marks) :
    Cursor.topWord ⟨b, m :: ms⟩ = [] := by
  rw [Cursor.topWord, Cursor.text_mk]
  have none : (markText (m :: ms)).takeWhile isWordChar = [] := by
    simp [markText, stop]
  rw [none]
  split <;> rfl

theorem wordsFrom_append (b : Option Char) (divided : Divided (markText ms) (markText ns)) :
    wordsFrom b (ms ++ ns) = wordsFrom b ms ++ wordsFrom ((markText ms).getLast?.or b) ns := by
  induction ms generalizing b with
  | nil => rfl
  | cons m ms ih =>
    rw [List.cons_append, wordsFrom, wordsFrom, topWord_append divided]
    cases ms with
    | nil => rfl
    | cons n ms =>
      have rest : Divided (markText (n :: ms)) (markText ns) := divided
      rw [ih (some m.char) rest]
      have last : ((markText (n :: ms)).getLast?.or (some m.char)) =
          (markText (m :: n :: ms)).getLast?.or b := by
        simp [markText, List.getLast?_cons]
      rw [last]
      rfl

/-- The words of two texts put together, where no word goes on from one into the other. -/
theorem Solid.topWords_append (solid : Solid s) (loose : Loose u) (divided : Divided s u) :
    topWords (s ++ u) = topWords s ++ topWords u := by
  have parts : Divided (markText (scan s)) (markText (scan u)) := by
    rwa [markText_scan, markText_scan]
  rw [topWords, solid.scan_append loose, wordsFrom_append none parts, markText_scan, Option.or_none,
    topWords, topWords]
  congr 1
  rcases divided with last | first
  · exact wordsFrom_before (by rw [last]; rfl) _
  · cases start : scan u with
    | nil => rfl
    | cons m ms =>
      have char : (markText (scan u)).head? = some m.char := by rw [start]; rfl
      rw [markText_scan] at char
      rw [char, Option.any_some] at first
      rw [wordsFrom, wordsFrom, topWord_of_stop first, topWord_of_stop first]

theorem wordsFrom_inside {b : Char} (inside : isWordChar b) (all : ∀ c ∈ markText ms, isWordChar c)
    (ns : Marks) :
    ∃ b', isWordChar b' ∧
      wordsFrom (some b) (ms ++ ns) = (markText ms).map (·, []) ++ wordsFrom (some b') ns := by
  induction ms generalizing b with
  | nil => exact ⟨b, inside, rfl⟩
  | cons m ms ih =>
    have here : isWordChar m.char := all m.char (by simp [markText])
    obtain ⟨b', inside', rest⟩ := ih here fun c member => all c (List.mem_cons_of_mem _ member)
    refine ⟨b', inside', ?_⟩
    rw [List.cons_append, wordsFrom, topWord_inside (by simpa using inside), rest]
    rfl

/-- A text that is one word. -/
theorem topWords_word {c : Char} {w : Text} (word : ∀ d ∈ c :: w, isWordChar d ∧ isPlain d) :
    topWords (c :: w) = (c, upper (c :: w)) :: w.map (·, []) := by
  have first := word c (by simp)
  have whole : (c :: w).takeWhile isWordChar = c :: w := by
    simpa using takeWhile_of_stop (u := []) (fun d member => (word d member).1) rfl
  have text : markText (⟨c, 0, .code⟩ :: scan w) = c :: w := by
    rw [markText, List.map_cons, ← markText, markText_scan]
  have later : ∀ d ∈ markText (scan w), isWordChar d := by
    rw [markText_scan]
    exact fun d member => (word d (by simp [member])).1
  obtain ⟨_, -, rest⟩ := wordsFrom_inside first.1 later []
  rw [List.append_nil, markText_scan, wordsFrom, List.append_nil] at rest
  rw [topWords, scan_plain first.2, wordsFrom, Cursor.topWord, Cursor.text_mk, text, whole, rest]
  rfl

end Words
section Named

variable {κ : Type} {f : Text → Option κ} {issued : Nat} {ms ns : Marks}

def standsFor (f : Text → Option κ) (words : List (Char × Text)) : List κ := words.filterMap (f ·.2)

theorem takeWhile_numberMarks (issued : Nat) (ms : Marks) :
    (numberMarks issued ms).takeWhile isWordChar = (markText ms).takeWhile isWordChar := by
  induction ms generalizing issued with
  | nil => rfl
  | cons m ms ih =>
    have cons : markText (m :: ms) = m.char :: markText ms := rfl
    rw [numberMarks, cons]
    by_cases placeholder : m.isPlaceholder
    · have char := (char_of_placeholder placeholder).2
      have colon : isWordChar ':' = false := by decide
      have question : isWordChar '?' = false := by decide
      rw [if_pos placeholder, char]
      simp [paramName_eq, colon, question]
    · rw [if_neg placeholder, List.takeWhile_cons, List.takeWhile_cons, ih]

theorem topWord_nameMarks {b : Option Char} {m : Mark} :
    Cursor.topWord ⟨b, m :: nameMarks issued ms⟩ = Cursor.topWord ⟨b, m :: ms⟩ := by
  have word := takeWhile_numberMarks issued ms
  have cons (ms : Marks) : markText (m :: ms) = m.char :: markText ms := rfl
  rw [Cursor.topWord, Cursor.topWord, Cursor.text_mk, Cursor.text_mk, cons, cons, markText_nameMarks,
    List.takeWhile_cons, List.takeWhile_cons, word]
  rfl

theorem isCapital_of_isDigit {c : Char} (digit : c.isDigit) : isCapital c.toUpper = false := by
  have code := (isDigit_iff c).mp digit
  rw [toUpper_eq_self c (by omega)]
  by_contra capital
  rw [Bool.not_eq_false, isCapital, Bool.or_eq_true, beq_iff_eq] at capital
  rcases capital with upper | rfl
  · have code' := (isUpper_iff c).mp upper
    omega
  · revert code
    decide

theorem isWordChar_of_isDigit {c : Char} (digit : c.isDigit) : isWordChar c := by
  have code := (isDigit_iff c).mp digit
  have ascii : c.toNat < 0x80 := by omega
  simp [isWordChar, isLetterOrNumber, ascii, Char.isAlphanum, digit]

theorem exists_decimal (n : Nat) : ∃ d ds, decimal n = d :: ds := by
  have full : decimal n ≠ [] := List.ne_nil_of_length_pos (Nat.length_toDigits_pos ..)
  exact List.exists_cons_of_ne_nil full

def readWords (f : Text → Option κ) (words : List (Char × Text)) : List (Char × Option κ) :=
  words.map fun p => (p.1, f p.2)

/-- A name is no word, and none starts directly behind it. -/
theorem readWords_nameOf (reads : ReadsWords f) (b : Option Char) (n depth : Nat) (ns : Marks) :
    ∃ b', isWordChar b' ∧ readWords f (wordsFrom b (nameOf n depth ++ ns)) =
      (paramName n).map (·, none) ++ readWords f (wordsFrom (some b') ns) := by
  obtain ⟨d, ds, digits⟩ := exists_decimal n
  have digit : ∀ c ∈ d :: ds, c.isDigit := fun c member => isDigit_of_mem_decimal (digits ▸ member)
  have word : ∀ c ∈ "aram".toList ++ d :: ds, isWordChar c := by
    intro c member
    rcases List.mem_append.mp member with letter | figure
    · have all : ∀ c ∈ "aram".toList, isWordChar c := by decide
      exact all c letter
    · exact isWordChar_of_isDigit (digit c figure)
  set more : Marks := ("aram".toList ++ d :: ds).map (⟨·, depth, .code⟩) with eqMore
  have text : markText more = "aram".toList ++ d :: ds := by
    rw [eqMore, markText, List.map_map]
    exact List.map_id _
  have name : nameOf n depth = ⟨':', depth, .code⟩ :: ⟨'p', depth, .code⟩ :: more := by
    rw [nameOf, paramName, digits]
    rfl
  have colon : isWordChar ':' = false := by decide
  have all : ∀ c ∈ markText more, isWordChar c := by rwa [text]
  obtain ⟨b', inside, rest⟩ := wordsFrom_inside (b := 'p') (by decide) all ns
  refine ⟨b', inside, ?_⟩
  have letter : f (Cursor.topWord ⟨some ':', ⟨'p', depth, .code⟩ :: (more ++ ns)⟩) = none := by
    cases found : f (Cursor.topWord ⟨some ':', ⟨'p', depth, .code⟩ :: (more ++ ns)⟩) with
    | none => rfl
    | some k =>
      obtain ⟨full, capital⟩ := reads _ k found
      rw [Cursor.topWord] at full capital
      split at full
      · rename_i here
        rw [if_pos here] at capital
        have upTo : (Cursor.text ⟨some ':', ⟨'p', depth, .code⟩ :: (more ++ ns)⟩).takeWhile isWordChar =
            'p' :: ("aram".toList ++ d :: ds) ++ (markText ns).takeWhile isWordChar := by
          rw [Cursor.text_mk, ← List.cons_append, markText_append,
            show markText (⟨'p', depth, .code⟩ :: more) = 'p' :: markText more from rfl, text,
            List.takeWhile_append_of_pos]
          intro c member
          rcases List.mem_cons.mp member with rfl | later
          · decide
          · exact word c later
        rw [upTo] at capital
        have bad := capital d.toUpper (List.mem_map_of_mem (by simp))
        rw [isCapital_of_isDigit (digit d (by simp))] at bad
        cases bad
      · exact absurd rfl full
  have inName : readWords f ((markText more).map (·, [])) = (markText more).map (·, none) := by
    rw [readWords, List.map_map]
    exact List.map_congr_left fun c _ => by simp [reads.nil]
  have whole : paramName n = ':' :: 'p' :: markText more := by
    rw [text, paramName, digits]
    rfl
  rw [name, List.cons_append, List.cons_append, wordsFrom, wordsFrom, topWord_of_stop colon, rest, whole]
  simp only [readWords, List.map_cons, List.map_append, letter, reads.nil, List.cons_append] at inName ⊢
  rw [inName]

theorem standsFor_nameOf (reads : ReadsWords f) (b : Option Char) (n depth : Nat) (ns : Marks) :
    ∃ b', isWordChar b' ∧
      standsFor f (wordsFrom b (nameOf n depth ++ ns)) = standsFor f (wordsFrom (some b') ns) := by
  obtain ⟨b', inside, rest⟩ := readWords_nameOf reads b n depth ns
  have found (words : List (Char × Text)) : standsFor f words = (readWords f words).filterMap Prod.snd := by
    simp [standsFor, readWords, List.filterMap_map]
  refine ⟨b', inside, ?_⟩
  rw [found, found, rest, List.filterMap_append]
  simp [List.filterMap_map]

theorem standsFor_cons (b : Option Char) (m : Mark) (ms : Marks) :
    standsFor f (wordsFrom b (m :: ms)) =
      (f (Cursor.topWord ⟨b, m :: ms⟩)).toList ++ standsFor f (wordsFrom (some m.char) ms) := by
  rw [wordsFrom, standsFor, List.filterMap_cons]
  cases f (Cursor.topWord ⟨b, m :: ms⟩) <;> rfl

/-- Naming the placeholders adds no word. -/
theorem standsFor_sublist (reads : ReadsWords f) {b b' : Option Char}
    (inside : b.any isWordChar → b'.any isWordChar) :
    (standsFor f (wordsFrom b' (nameMarks issued ms))).Sublist (standsFor f (wordsFrom b ms)) := by
  induction ms generalizing b b' issued with
  | nil => exact .slnil
  | cons m ms ih =>
    rw [nameMarks, standsFor_cons b]
    by_cases placeholder : m.isPlaceholder
    · obtain ⟨b₁, inside₁, name⟩ := standsFor_nameOf reads b' (issued + 1) m.depth
        (nameMarks (issued + 1) ms)
      rw [if_pos placeholder, name]
      have stays : (some m.char).any isWordChar → (some b₁).any isWordChar := fun _ => inside₁
      exact (ih stays).trans (List.sublist_append_right _ _)
    · rw [if_neg placeholder, standsFor_cons, topWord_nameMarks]
      refine List.Sublist.append ?_ (ih id)
      by_cases stop : b'.any isWordChar
      · rw [topWord_inside stop, reads.nil]
        exact List.nil_sublist _
      · have same : b'.any isWordChar = b.any isWordChar := by
          rw [Bool.not_eq_true] at stop
          cases start : b.any isWordChar with
          | false => exact stop
          | true => rw [inside start] at stop; cases stop
        rw [topWord_before same]

/-- No word character stands directly behind a placeholder. -/
def Untouched (t : Text) : Prop :=
  (scan t).IsChain fun m n => m.isPlaceholder → isWordChar n.char = false

instance (t : Text) : Decidable (Untouched t) := by unfold Untouched; infer_instance

/-- Where no word stands directly behind a placeholder, the words stay what they are. -/
theorem standsFor_nameMarks (reads : ReadsWords f) {b b' : Option Char}
    (untouched : ms.IsChain fun m n => m.isPlaceholder → isWordChar n.char = false)
    (same : b.any isWordChar = b'.any isWordChar ∨ (markText ms).head?.any isWordChar = false) :
    standsFor f (wordsFrom b' (nameMarks issued ms)) = standsFor f (wordsFrom b ms) := by
  induction ms generalizing b b' issued with
  | nil => rfl
  | cons m ms ih =>
    have later := untouched.tail
    rw [nameMarks, standsFor_cons b]
    by_cases placeholder : m.isPlaceholder
    · obtain ⟨b₁, inside, name⟩ := standsFor_nameOf reads b' (issued + 1) m.depth
        (nameMarks (issued + 1) ms)
      have question : isWordChar m.char = false := by
        rw [(char_of_placeholder placeholder).2]
        decide
      have stop : (markText ms).head?.any isWordChar = false := by
        cases ms with
        | nil => rfl
        | cons n ms => exact (List.isChain_cons_cons.mp untouched).1 placeholder
      rw [if_pos placeholder, name, topWord_of_stop question, reads.nil]
      exact ih later (.inr stop)
    · rw [if_neg placeholder, standsFor_cons, topWord_nameMarks, ih later (.inl rfl)]
      rcases same with equal | stop
      · rw [topWord_before equal]
      · have none : isWordChar m.char = false := stop
        rw [topWord_of_stop none, topWord_of_stop none]

end Named
section Group

variable {t : Text}

theorem topWord_of_deep {b : Option Char} {m : Mark} (deep : ¬m.isTop) (ms : Marks) :
    Cursor.topWord ⟨b, m :: ms⟩ = [] := by
  rw [Cursor.topWord, if_neg]
  simp [Cursor.atTop, deep]

theorem standsFor_of_deep {κ : Type} {f : Text → Option κ} (reads : ReadsWords f) {ms : Marks}
    (deep : ∀ m ∈ ms, ¬m.isTop ∨ isWordChar m.char = false) (b : Option Char) :
    standsFor f (wordsFrom b ms) = [] := by
  induction ms generalizing b with
  | nil => rfl
  | cons m ms ih =>
    have none : Cursor.topWord ⟨b, m :: ms⟩ = [] := by
      rcases deep m (by simp) with inside | stop
      · exact topWord_of_deep inside ms
      · exact topWord_of_stop stop ms
    rw [standsFor_cons, none, reads.nil, ih fun n member => deep n (by simp [member])]
    rfl

/-- No word stands at the top level of a group. -/
theorem Solid.words_group {κ : Type} {f : Text → Option κ} (reads : ReadsWords f) (solid : Solid t) :
    standsFor f (topWords ('(' :: t ++ [')'])) = [] := by
  rw [topWords, solid.group.2]
  apply standsFor_of_deep reads
  intro m member
  simp only [List.cons_append, List.mem_cons, List.mem_append, List.mem_map, List.not_mem_nil,
    or_false] at member
  rcases member with rfl | ⟨n, -, rfl⟩ | rfl
  · right
    decide
  · left
    simp [Mark.isTop, Mark.inner]
  · right
    decide

end Group
end QueryChain
