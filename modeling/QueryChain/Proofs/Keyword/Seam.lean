import QueryChain.Proofs.Condition.Chain
import QueryChain.Proofs.Keyword.Section

namespace QueryChain

def Crosses (k : Keyword) (s v : Text) : Prop :=
  ∃ front back rest more, s = front ++ back ∧ v = rest ++ more ∧ back ≠ [] ∧ rest ≠ [] ∧
    Spells k (back ++ rest) ∧ front.getLast?.any isWordChar = false ∧ more.head?.any isWordChar = false

def firstWord (t : Text) : Text := upper (t.takeWhile isWordChar)

def lastWord (t : Text) : Text := upper (t.reverse.takeWhile isWordChar).reverse

section Ends

variable {s t v : Text} {k : Keyword}

theorem firstWord_append (stop : v.head?.any isWordChar = false) : firstWord (s ++ v) = firstWord s := by
  rw [firstWord, takeWhile_append_of_stop (.inl stop), firstWord]

theorem lastWord_append (stop : s.getLast?.any isWordChar = false) : lastWord (s ++ v) = lastWord v := by
  rw [lastWord, List.reverse_append, takeWhile_append_of_stop (.inl (by rwa [List.head?_reverse])), lastWord]

theorem firstWord_glue (s v : Text) : firstWord (s ++ ' ' :: v) = firstWord s := firstWord_append (by simp; decide)

namespace Spells

theorem firstWord_eq (spells : Spells k t) (isKeyword : IsKeyword k) (stop : v.head?.any isWordChar = false) :
    firstWord (t ++ v) = k.headD [] := by
  obtain ⟨first, later, rfl, letters, ending⟩ := spells.head
  obtain ⟨w, ws, rfl⟩ := List.exists_cons_of_ne_nil isKeyword.1
  have capital := (isKeyword.2 w (by simp)).2
  have word : ∀ c ∈ first, isWordChar c := fun c member =>
    isWordChar_of_isKeywordChar c (isKeywordChar_of_upper capital letters.symm c member)
  have halt : (later ++ v).head?.any isWordChar = false := by
    rcases ending with ⟨rfl, -⟩ | blank
    · exact stop
    · cases later with
      | nil => cases blank
      | cons c later => exact isWordChar_of_isBlank c blank
  rw [firstWord, List.append_assoc, takeWhile_of_stop word halt, letters]
  exact upper_of_isCapital capital

theorem lastWord_eq (spells : Spells k t) (isKeyword : IsKeyword k) : lastWord t = k.getLastD [] := by
  induction spells with
  | @word w t letters =>
    have capital := (isKeyword.2 w (by simp)).2
    have word : ∀ c ∈ t.reverse, isWordChar c := fun c member =>
      isWordChar_of_isKeywordChar c (isKeywordChar_of_upper capital letters c (List.mem_reverse.mp member))
    have whole := takeWhile_of_stop (u := []) word rfl
    rw [List.append_nil] at whole
    rw [lastWord, whole, List.reverse_reverse, ← letters]
    exact upper_of_isCapital capital
  | @words w v t blanks rest ws letters apart blank later ih =>
    have last : (t ++ blanks).getLast?.any isWordChar = false := by
      rw [getLast?_append_of_ne_nil apart, List.getLast?_eq_some_getLast apart]
      exact isWordChar_of_isBlank _ (blank _ (List.getLast_mem apart))
    rw [lastWord_append last, ih ⟨by simp, fun w member => isKeyword.2 w (by simp [member])⟩]
    rfl

/-- A written keyword that is cut in front of a blank falls apart into keywords. -/
theorem cut (spells : Spells k t) (isKeyword : IsKeyword k) {back rest : Text} (parts : t = back ++ rest)
    (full : back ≠ []) (ends : ∀ c ∈ back.getLast?, isBlank c = false) (starts : rest.head?.any isBlank) :
    ∃ k₁ k₂ blanks later, k = k₁ ++ k₂ ∧ k₁ ≠ [] ∧ k₂ ≠ [] ∧ Spells k₁ back ∧ rest = blanks ++ later ∧
      (∀ c ∈ blanks, isBlank c) ∧ Spells k₂ later := by
  induction spells generalizing back with
  | @word w t letters =>
    cases rest with
    | nil => cases starts
    | cons c rest =>
      have letter := isKeywordChar_of_upper (isKeyword.2 w (by simp)).2 letters c (by simp [parts])
      rw [List.head?_cons, Option.any_some, isBlank_of_isKeywordChar c letter] at starts
      cases starts
  | @words w v t blanks later ws letters apart blank spells ih =>
    have isLater : IsKeyword (v :: ws) := ⟨by simp, fun w member => isKeyword.2 w (by simp [member])⟩
    rw [List.append_assoc] at parts
    rcases List.append_eq_append_iff.mp parts with ⟨a, rfl, inRest⟩ | ⟨a, inWord, rfl⟩
    · by_cases empty : a = []
      · subst empty
        rw [List.append_nil]
        exact ⟨[w], v :: ws, blanks, later, rfl, by simp, by simp, .word letters, by simpa using inRest.symm,
          blank, spells⟩
      rw [getLast?_append_of_ne_nil empty] at ends
      rcases List.append_eq_append_iff.mp inRest with ⟨b, rfl, inLater⟩ | ⟨b, inBlanks, -⟩
      · by_cases bare : b = []
        · subst bare
          rw [List.append_nil] at empty ends
          have last := ends _ (List.getLast?_eq_some_getLast empty)
          rw [blank _ (List.getLast_mem empty)] at last
          cases last
        rw [getLast?_append_of_ne_nil bare] at ends
        obtain ⟨k₁, k₂, blanks', later', both, full₁, full₂, spells₁, rest, blank', spells₂⟩ :=
          ih isLater inLater bare ends
        obtain ⟨v', ws', rfl⟩ := List.exists_cons_of_ne_nil full₁
        refine ⟨w :: v' :: ws', k₂, blanks', later', by rw [both]; rfl, by simp, full₂, ?_, rest, blank', spells₂⟩
        rw [← List.append_assoc]
        exact .words letters apart blank spells₁
      · have last := ends _ (List.getLast?_eq_some_getLast empty)
        rw [blank _ (by rw [inBlanks]; exact List.mem_append_left _ (List.getLast_mem empty))] at last
        cases last
    · by_cases empty : a = []
      · subst empty
        rw [List.append_nil] at inWord
        subst inWord
        exact ⟨[w], v :: ws, blanks, later, rfl, by simp, by simp, .word letters, rfl, blank, spells⟩
      · obtain ⟨c, a, rfl⟩ := List.exists_cons_of_ne_nil empty
        have letter := isKeywordChar_of_upper (isKeyword.2 w (by simp)).2 letters c (by simp [inWord])
        have first : isBlank c := starts
        rw [isBlank_of_isKeywordChar c letter] at first
        cases first

end Spells

theorem Crosses.cut {u : Text} (crosses : Crosses k s (' ' :: u)) (isKeyword : IsKeyword k)
    (ends : ∀ c ∈ s.getLast?, isBlank c = false) : ∃ k₁ k₂, k = k₁ ++ k₂ ∧ k₁ ≠ [] ∧ k₂ ≠ [] ∧
      lastWord s = k₁.getLastD [] ∧ ((∀ c ∈ u.head?, isBlank c = false) → firstWord u = k₂.headD []) := by
  obtain ⟨front, back, rest, more, rfl, behind, full, full', spells, before, after⟩ := crosses
  have ends' : ∀ c ∈ back.getLast?, isBlank c = false := by
    rwa [getLast?_append_of_ne_nil full] at ends
  obtain ⟨c, rest, rfl⟩ := List.exists_cons_of_ne_nil full'
  obtain ⟨rfl, rfl⟩ := List.cons.inj behind
  obtain ⟨k₁, k₂, blanks, later, rfl, full₁, full₂, spells₁, parts, blank, spells₂⟩ :=
    spells.cut isKeyword rfl full ends' (by simp; decide)
  have isKeyword₁ : IsKeyword k₁ := ⟨full₁, fun w member => isKeyword.2 w (by simp [member])⟩
  have isKeyword₂ : IsKeyword k₂ := ⟨full₂, fun w member => isKeyword.2 w (by simp [member])⟩
  refine ⟨k₁, k₂, rfl, full₁, full₂, by rw [lastWord_append before, spells₁.lastWord_eq isKeyword₁], ?_⟩
  intro starts
  cases blanks with
  | nil =>
    obtain ⟨c, first, letter⟩ := spells₂.head? isKeyword₂
    rw [← List.nil_append later, ← parts] at first
    obtain rfl := Option.some.inj first
    exact absurd letter (by decide)
  | cons d blanks =>
    obtain ⟨rfl, rfl⟩ := List.cons.inj parts
    cases blanks with
    | nil => exact spells₂.firstWord_eq isKeyword₂ after
    | cons d blanks =>
      have first := starts d rfl
      rw [blank d (by simp)] at first
      cases first

variable {u : Text}

theorem not_crosses_of_last (isKeyword : IsKeyword k) (ends : ∀ c ∈ s.getLast?, isBlank c = false)
    (other : lastWord s ∉ k.dropLast) : ¬Crosses k s (' ' :: u) := by
  intro crosses
  obtain ⟨k₁, k₂, rfl, full₁, full₂, last, -⟩ := crosses.cut isKeyword ends
  apply other
  rw [last, List.dropLast_append_of_ne_nil full₂, List.getLastD_eq_getLast?, List.getLast?_eq_some_getLast full₁]
  exact List.mem_append_left _ (List.getLast_mem full₁)

theorem not_crosses_of_first (isKeyword : IsKeyword k) (ends : ∀ c ∈ s.getLast?, isBlank c = false)
    (starts : ∀ c ∈ u.head?, isBlank c = false) (other : firstWord u ∉ k.tail) : ¬Crosses k s (' ' :: u) := by
  intro crosses
  obtain ⟨k₁, k₂, rfl, full₁, full₂, -, first⟩ := crosses.cut isKeyword ends
  apply other
  rw [first starts]
  obtain ⟨w, ws, rfl⟩ := List.exists_cons_of_ne_nil full₁
  obtain ⟨w', ws', rfl⟩ := List.exists_cons_of_ne_nil full₂
  simp

/-- A single word is not written over a blank. -/
theorem not_crosses_word {w : Text} (isKeyword : IsKeyword [w]) : ¬Crosses [w] s (' ' :: u) := by
  rintro ⟨front, back, rest, more, -, behind, -, full, spells, -⟩
  obtain ⟨c, rest, rfl⟩ := List.exists_cons_of_ne_nil full
  obtain ⟨rfl, -⟩ := List.cons.inj behind
  cases spells with
  | word letters =>
    have letter := isKeywordChar_of_upper (isKeyword.2 w (by simp)).2 letters ' ' (by simp)
    exact absurd letter (by decide)

theorem not_crosses_stop {c : Char} (isKeyword : IsKeyword k) (full : isBlank c = false)
    (stop : isKeywordChar c = false) : ¬Crosses k s (c :: u) := by
  rintro ⟨front, back, rest, more, -, behind, -, some_, spells, -⟩
  obtain ⟨d, rest, rfl⟩ := List.exists_cons_of_ne_nil some_
  obtain ⟨rfl, -⟩ := List.cons.inj behind
  rcases spells.chars isKeyword c (by simp) with blank | letter
  · rw [full] at blank
    cases blank
  · rw [stop] at letter
    cases letter

end Ends
namespace Cursor

variable {k : Keyword} {ks : List Keyword} {b b' : Option Char} {m : Mark} {ms ns : Marks} {s u v : Text}

theorem skip_append (b : Option Char) (ms ns : Marks) :
    skip ms.length ⟨b, ms ++ ns⟩ = ⟨(markText ms).getLast?.or b, ns⟩ := by
  induction ms generalizing b with
  | nil => simp [markText]
  | cons m ms ih =>
    rw [List.cons_append, List.length_cons, skip_cons, ih]
    cases ms with
    | nil => rfl
    | cons n ms => simp [markText, List.getLast?_cons]

theorem keyword?_of_stop (isKeyword : IsKeyword k) (stop : isWordChar m.char = false) :
    keyword? ⟨b, m :: ms⟩ k = none := by
  rw [Option.eq_none_iff_forall_ne_some]
  intro after found
  obtain ⟨-, t, rest, text, spells, -⟩ := (keyword?_eq_some_iff isKeyword).mp found
  obtain ⟨c, first, letter⟩ := spells.head? isKeyword
  obtain ⟨t, rfl⟩ := List.head?_eq_some_iff.mp first
  have char : m.char = c := (List.cons.inj text).1
  rw [char, isWordChar_of_isKeywordChar c letter] at stop
  cases stop

theorem topKeyword?_of_stop (areKeywords : ∀ k ∈ ks, IsKeyword k) (stop : isWordChar m.char = false) :
    topKeyword? ⟨b, m :: ms⟩ ks = none := by
  rw [topKeyword?]
  split
  · rw [List.findSome?_eq_none_iff]
    exact fun k member => keyword?_of_stop (areKeywords k member) stop
  · rfl

/-- What stands in front of a keyword makes a difference only if it is part of a word. -/
theorem keyword?_before (isKeyword : IsKeyword k) (same : b.any isWordChar = b'.any isWordChar) (ms : Marks) :
    keyword? ⟨b, ms⟩ k = keyword? ⟨b', ms⟩ k := by
  have behind {t rest : Text} (text : markText ms = t ++ rest) (spells : Spells k t) :
      skip t.length ⟨b, ms⟩ = skip t.length ⟨b', ms⟩ := by
    have full := spells.ne_nil isKeyword
    obtain ⟨c, t, rfl⟩ := List.exists_cons_of_ne_nil full
    cases ms with
    | nil => simp [markText] at text
    | cons m ms => simp
  ext after
  rw [keyword?_eq_some_iff isKeyword, keyword?_eq_some_iff isKeyword, same]
  constructor
  · rintro ⟨start, t, rest, text, spells, stop, rfl⟩
    exact ⟨start, t, rest, text, spells, stop, behind text spells⟩
  · rintro ⟨start, t, rest, text, spells, stop, rfl⟩
    exact ⟨start, t, rest, text, spells, stop, (behind text spells).symm⟩

theorem topKeyword?_before (areKeywords : ∀ k ∈ ks, IsKeyword k) (same : b.any isWordChar = b'.any isWordChar)
    (ms : Marks) : topKeyword? ⟨b, ms⟩ ks = topKeyword? ⟨b', ms⟩ ks := by
  have found : ks.findSome? (keyword? ⟨b, ms⟩) = ks.findSome? (keyword? ⟨b', ms⟩) := by
    induction ks with
    | nil => rfl
    | cons k ks ih =>
      rw [List.findSome?_cons, List.findSome?_cons, keyword?_before (areKeywords k (by simp)) same ms,
        ih fun k member => areKeywords k (by simp [member])]
  rw [topKeyword?, topKeyword?, found]
  rfl

theorem seekFrom_append {α : Type} (probe : Cursor → Option α) (b : Option Char) (ms ns : Marks)
    (none : ∀ front m back, ms = front ++ m :: back →
      probe ⟨(markText front).getLast?.or b, m :: back ++ ns⟩ = none) :
    seekFrom probe b (ms ++ ns) = (seekFrom probe ((markText ms).getLast?.or b) ns).map
      fun (passed, a) => (markText ms ++ passed, a) := by
  induction ms generalizing b with
  | nil => simp [markText]
  | cons m ms ih =>
    have here := none [] m ms rfl
    have last (front : Marks) : (markText (m :: front)).getLast?.or b =
        (markText front).getLast?.or (some m.char) := by
      cases front with
      | nil => rfl
      | cons n front => simp [markText, List.getLast?_cons]
    have later := ih (some m.char) fun front n back parts => by
      rw [← last]
      exact none (m :: front) n back (by rw [parts]; rfl)
    have start : probe ⟨b, m :: (ms ++ ns)⟩ = Option.none := here
    rw [List.cons_append, seekFrom, start, later, last]
    dsimp only
    rw [Option.map_map]
    rfl

theorem seekFrom_places {α : Type} {probe : Cursor → Option α} (missed : seekFrom probe b ms = none)
    (front : Marks) (m : Mark) (back : Marks) (parts : ms = front ++ m :: back) :
    probe ⟨(markText front).getLast?.or b, m :: back⟩ = none := by
  have here := seekFrom_eq_none_iff.mp missed front.length (by rw [parts]; simp)
  rwa [parts, skip_append] at here

theorem seekFrom_of_stop {α : Type} {probe : Cursor → Option α}
    (first : ∀ b b' ms, b.any isWordChar = b'.any isWordChar ∨ (markText ms).head?.any isWordChar = false →
      probe ⟨b, ms⟩ = probe ⟨b', ms⟩)
    (same : b.any isWordChar = b'.any isWordChar ∨ (markText ms).head?.any isWordChar = false) :
    seekFrom probe b ms = seekFrom probe b' ms := by
  cases ms with
  | nil => rfl
  | cons m ms => rw [seekFrom, seekFrom, first b b' (m :: ms) same]

theorem find?_before (areKeywords : ∀ k ∈ ks, IsKeyword k)
    (same : b.any isWordChar = b'.any isWordChar ∨ (markText ms).head?.any isWordChar = false) :
    find? ⟨b, ms⟩ ks = find? ⟨b', ms⟩ ks := by
  change seekFrom (·.topKeyword? ks) b ms = seekFrom (·.topKeyword? ks) b' ms
  refine seekFrom_of_stop ?_ same
  rintro b b' ms (equal | stop)
  · exact topKeyword?_before areKeywords equal ms
  · cases ms with
    | nil => simp [topKeyword?, atTop]
    | cons m ms => rw [topKeyword?_of_stop areKeywords stop, topKeyword?_of_stop areKeywords stop]

theorem keyword?_append (isKeyword : IsKeyword k) {front : Text} (uncrossed : ¬Crosses k s (markText ns))
    (parts : s = front ++ markText (m :: ms)) (missed : keyword? ⟨front.getLast?, m :: ms⟩ k = none) :
    keyword? ⟨front.getLast?, m :: ms ++ ns⟩ k = none := by
  rw [Option.eq_none_iff_forall_ne_some] at missed ⊢
  intro after found
  obtain ⟨start, t, rest, text, spells, halt, -⟩ := (keyword?_eq_some_iff isKeyword).mp found
  have inside {a : Text} (text : markText (m :: ms) = t ++ a) (halt : a.head?.any isWordChar = false) : False :=
    missed _ ((keyword?_eq_some_iff isKeyword).mpr ⟨start, t, a, text, spells, halt, rfl⟩)
  rw [text_mk, markText_append] at text
  rcases List.append_eq_append_iff.mp text with ⟨a, rfl, behind⟩ | ⟨a, here, rfl⟩
  · by_cases empty : a = []
    · subst empty
      exact inside (a := []) (by simp) rfl
    · exact uncrossed ⟨front, markText (m :: ms), a, rest, parts, behind, by simp [markText], empty, spells,
        start, halt⟩
  · refine inside here ?_
    cases a with
    | nil => rfl
    | cons c a => exact halt

theorem topKeyword?_none_iff {c : Cursor} : c.topKeyword? ks = none ↔ (c.atTop → ∀ k ∈ ks, c.keyword? k = none) := by
  rw [topKeyword?]
  split
  · rename_i top
    rw [List.findSome?_eq_none_iff]
    exact ⟨fun all _ => all, fun all => all top⟩
  · rename_i deep
    exact ⟨fun _ top => absurd top deep, fun _ => rfl⟩

/-- A keyword that is not in the first text, nor over the seam, is looked for in the second. -/
theorem find?_append (areKeywords : ∀ k ∈ ks, IsKeyword k) (solid : Solid s) (loose : Loose v)
    (stop : v.head?.any isWordChar = false) (lacks : (start s).find? ks = none)
    (uncrossed : ∀ k ∈ ks, ¬Crosses k s v) :
    (start (s ++ v)).find? ks = ((start v).find? ks).map fun (passed, after) => (s ++ passed, after) := by
  have text : markText (scan v) = v := markText_scan v
  have first : (markText (scan v)).head?.any isWordChar = false := by rwa [text]
  have rest : seekFrom (·.topKeyword? ks) s.getLast? (scan v) = (start v).find? ks :=
    find?_before areKeywords (.inr first)
  have apart := seekFrom_append (·.topKeyword? ks) none (scan s) (scan v) (by
    intro front m back parts
    have missed := seekFrom_places lacks front m back parts
    rw [start, Option.or_none] at missed
    rw [Option.or_none]
    rw [topKeyword?_none_iff] at missed ⊢
    intro top k member
    refine keyword?_append (areKeywords k member) (s := s) ?_ ?_ (missed top k member)
    · rw [text]
      exact uncrossed k member
    · rw [← markText_append, ← parts, markText_scan])
  rw [markText_scan, Option.or_none, rest] at apart
  rw [start, find?, seek, solid.scan_append loose]
  exact apart

theorem find?_space (areKeywords : ∀ k ∈ ks, IsKeyword k) (b : Option Char) (u : Text) :
    find? ⟨b, scan (' ' :: u)⟩ ks = ((start u).find? ks).map fun (passed, after) => (' ' :: passed, after) := by
  have space : isWordChar ' ' = false := by decide
  have here : topKeyword? ⟨b, ⟨' ', 0, .code⟩ :: scan u⟩ ks = none := topKeyword?_of_stop areKeywords space
  have rest : seekFrom (·.topKeyword? ks) (some ' ') (scan u) = (start u).find? ks :=
    find?_before areKeywords (.inl space)
  rw [scan_space, find?, seek, seekFrom]
  dsimp only
  rw [here, rest]

theorem upTo_append (areKeywords : ∀ k ∈ ks, IsKeyword k) (solid : Solid s) (loose : Loose v)
    (stop : v.head?.any isWordChar = false) (lacks : (start s).find? ks = none)
    (uncrossed : ∀ k ∈ ks, ¬Crosses k s v) : (start (s ++ v)).upTo ks = s ++ (start v).upTo ks := by
  rw [upTo, upTo, find?_append areKeywords solid loose stop lacks uncrossed]
  cases (start v).find? ks with
  | none => simp [start, text_mk]
  | some found => rfl

theorem upTo_space (areKeywords : ∀ k ∈ ks, IsKeyword k) (b : Option Char) (u : Text) :
    upTo ⟨b, scan (' ' :: u)⟩ ks = ' ' :: (start u).upTo ks := by
  rw [upTo, upTo, find?_space areKeywords]
  cases (start u).find? ks with
  | none => simp [start, text_mk]
  | some found => rfl

end Cursor

def Keyword.text (k : Keyword) : Text := joinWith " " k

theorem Keyword.text_word (w : Text) : Keyword.text [w] = w := by simp [Keyword.text, joinWith]

section Printed

variable {k : Keyword} {ks : List Keyword} {s t u v : Text}

theorem spells_text (isKeyword : IsKeyword k) : Spells k k.text := by
  obtain ⟨full, words⟩ := isKeyword
  induction k with
  | nil => exact absurd rfl full
  | cons w ws ih =>
    cases ws with
    | nil => simpa [Keyword.text, joinWith] using Spells.word rfl
    | cons v ws =>
      have later := ih (by simp) fun w member => words w (by simp [member])
      have parts : Keyword.text (w :: v :: ws) = w ++ " ".toList ++ Keyword.text (v :: ws) := by
        simp [Keyword.text, joinWith, List.intercalate]
      rw [parts]
      exact .words rfl (by decide) (by decide) later

namespace Cursor

theorem keyword?_text (isKeyword : IsKeyword k) (stop : v.head?.any isWordChar = false) :
    (start (k.text ++ v)).keyword? k = some ⟨k.text.getLast?, scan v⟩ := by
  have spells := spells_text isKeyword
  have solid := Solid.plain (spells.isPlain isKeyword)
  have marks : scan (k.text ++ v) = k.text.map (⟨·, 0, .code⟩) ++ scan v :=
    marks_plain rfl (spells.isPlain isKeyword) v
  have text : markText (k.text.map (⟨·, 0, .code⟩)) = k.text := by
    rw [markText, List.map_map]
    exact List.map_id _
  have behind := skip_append none (k.text.map (⟨·, 0, .code⟩)) (scan v)
  rw [text, List.length_map, Option.or_none] at behind
  rw [keyword?_eq_some_iff isKeyword]
  refine ⟨rfl, k.text, v, by rw [start, text_mk, markText_scan], spells, stop, ?_⟩
  rw [start, marks, behind]

theorem topKeyword?_text (isKeyword : IsKeyword k) (stop : v.head?.any isWordChar = false) (member : k ∈ ks) :
    ((start (k.text ++ v)).topKeyword? ks).isSome := by
  have found := keyword?_text isKeyword stop
  obtain ⟨c, first, letter⟩ := (spells_text isKeyword).head? isKeyword
  obtain ⟨rest, text⟩ := List.head?_eq_some_iff.mp first
  have top : (start (k.text ++ v)).atTop := by
    rw [start, text, List.cons_append, scan_plain (isPlain_of_isKeywordChar c letter)]
    rfl
  rw [topKeyword?, if_pos top, List.findSome?_isSome_iff]
  exact ⟨k, member, by rw [found]; rfl⟩

theorem find?_text (isKeyword : IsKeyword k) (stop : v.head?.any isWordChar = false) :
    (start (k.text ++ v)).find? [k] = some ([], ⟨k.text.getLast?, scan v⟩) := by
  have found := keyword?_text isKeyword stop
  have member : k ∈ [k] := List.mem_singleton_self k
  have here := topKeyword?_text isKeyword stop member
  have same : (start (k.text ++ v)).topKeyword? [k] = some ⟨k.text.getLast?, scan v⟩ := by
    rw [topKeyword?] at here ⊢
    split at here
    · rw [if_pos (by assumption), List.findSome?_cons, found]
    · cases here
  rw [find?, seek, seekFrom_eq_some_iff]
  refine ⟨0, ?_, by rw [skip_zero]; exact same, by simp, by simp⟩
  have full := (spells_text isKeyword).ne_nil isKeyword
  rw [start, length_scan, List.length_append]
  exact Nat.add_pos_left (List.length_pos_iff.mpr full) _

theorem upTo_text (isKeyword : IsKeyword k) (stop : v.head?.any isWordChar = false) (member : k ∈ ks) :
    (start (k.text ++ v)).upTo ks = [] := by
  obtain ⟨after, found⟩ := Option.isSome_iff_exists.mp (topKeyword?_text isKeyword stop member)
  have here : (start (k.text ++ v)).find? ks = some ([], after) := by
    rw [find?, seek, seekFrom_eq_some_iff]
    refine ⟨0, ?_, by rw [skip_zero]; exact found, by simp, by simp⟩
    have full := (spells_text isKeyword).ne_nil isKeyword
    rw [start, length_scan, List.length_append]
    exact Nat.add_pos_left (List.length_pos_iff.mpr full) _
  rw [upTo, here]

theorem find?_word {w : Text} (isKeyword : IsKeyword [w]) (u : Text) :
    (start (w ++ ' ' :: u)).find? [[w]] = some ([], ⟨w.getLast?, scan (' ' :: u)⟩) := by
  have found := find?_text (v := ' ' :: u) isKeyword (by simp; decide)
  rwa [Keyword.text_word] at found

theorem upTo_word {w : Text} (isKeyword : IsKeyword [w]) (u : Text) : (start (w ++ ' ' :: u)).upTo [[w]] = [] := by
  have member : [w] ∈ [[w]] := List.mem_singleton_self [w]
  have found := upTo_text (v := ' ' :: u) isKeyword (by simp; decide) member
  rwa [Keyword.text_word] at found

end Cursor
end Printed
end QueryChain
