import QueryChain.Proofs.NormalForm.Neat

namespace QueryChain

/-- None of the keywords stands at the top level of the text. -/
def Lacks (ks : List Keyword) (t : Text) : Prop := ∀ k ∈ ks, hasKeyword k t = false

instance (ks : List Keyword) (t : Text) : Decidable (Lacks ks t) := by unfold Lacks; infer_instance

section Lacks

variable {k : Keyword} {ks : List Keyword} {s t u v : Text}

theorem find?_eq_none_iff : (Cursor.start t).find? ks = none ↔ Lacks ks t := by
  have places (ks : List Keyword) : (Cursor.start t).find? ks = none ↔
      ∀ i < (Cursor.start t).marks.length, ((Cursor.start t).skip i).atTop →
        ∀ k ∈ ks, ((Cursor.start t).skip i).keyword? k = none := by
    rw [Cursor.find?, Cursor.seek_eq_none_iff]
    exact forall₂_congr fun i _ => Cursor.topKeyword?_none_iff
  have single (k : Keyword) : hasKeyword k t = false ↔ (Cursor.start t).find? [k] = none := by
    rw [hasKeyword, Option.isSome_eq_false_iff, Option.isNone_iff_eq_none]
  rw [places]
  constructor
  · intro missed k member
    rw [single, places]
    intro i inText top k' same
    obtain rfl := List.mem_singleton.mp same
    exact missed i inText top k' member
  · intro lacks i inText top k member
    exact (places [k]).mp ((single k).mp (lacks k member)) i inText top k (by simp)

theorem Lacks.mono {ks' : List Keyword} (lacks : Lacks ks t) (sub : ks' ⊆ ks) : Lacks ks' t :=
  fun k member => lacks k (sub member)

theorem Lacks.single (lacks : Lacks ks t) (member : k ∈ ks) : Lacks [k] t := lacks.mono (by simpa using member)

theorem Lacks.append (first : Lacks ks s) (areKeywords : ∀ k ∈ ks, IsKeyword k) (solid : Solid s) (loose : Loose v)
    (stop : v.head?.any isWordChar = false) (uncrossed : ∀ k ∈ ks, ¬Crosses k s v) (second : Lacks ks v) :
    Lacks ks (s ++ v) := by
  rw [← find?_eq_none_iff, Cursor.find?_append areKeywords solid loose stop (find?_eq_none_iff.mpr first) uncrossed,
    find?_eq_none_iff.mpr second]
  rfl

theorem Lacks.space (lacks : Lacks ks u) (areKeywords : ∀ k ∈ ks, IsKeyword k) : Lacks ks (' ' :: u) := by
  rw [← find?_eq_none_iff, Cursor.start, Cursor.find?_space areKeywords, find?_eq_none_iff.mpr lacks]
  rfl

theorem Lacks.glue (first : Lacks ks s) (second : Lacks ks u) (areKeywords : ∀ k ∈ ks, IsKeyword k)
    (neat : Neat s) (neat' : Neat u) (apart : Uncrossed ks s u) : Lacks ks (s ++ ' ' :: u) :=
  first.append areKeywords neat.solid (loose_space u) (by simp; decide) (neat.uncrossed neat' areKeywords apart)
    (second.space areKeywords)

theorem Lacks.comma (lacks : Lacks ks t) (areKeywords : ∀ k ∈ ks, IsKeyword k) (solid : Solid t) :
    Lacks ks (t ++ [',']) := by
  refine lacks.append areKeywords solid (loose_cons (by decide) (by decide) []) (by simp; decide) ?_ ?_
  · exact fun k member => not_crosses_stop (areKeywords k member) (by decide) (by decide)
  · rw [← find?_eq_none_iff, Cursor.find?, Cursor.seek_eq_none_iff]
    intro i inText
    obtain rfl : i = 0 := by
      rw [Cursor.start, length_scan] at inText
      simpa using inText
    exact Cursor.topKeyword?_of_stop areKeywords (by decide)

theorem topWord_mem_wordsFrom (b : Option Char) (ms : Marks) (i : Nat) (inText : i < ms.length) :
    (Cursor.skip i ⟨b, ms⟩).topWord ∈ (wordsFrom b ms).map Prod.snd := by
  induction ms generalizing b i with
  | nil => cases inText
  | cons m ms ih =>
    rw [wordsFrom, List.map_cons]
    cases i with
    | zero => simp
    | succ i =>
      rw [Cursor.skip_cons]
      exact List.mem_cons_of_mem _ (ih _ _ (by simpa using inText))

theorem mem_topWords_of_hasKeyword (isKeyword : IsKeyword k) (has : hasKeyword k t) :
    k.headD [] ∈ (topWords t).map Prod.snd := by
  obtain ⟨⟨passed, after⟩, found⟩ := Option.isSome_iff_exists.mp has
  obtain ⟨i, inText, here, -⟩ := Cursor.seek_eq_some_iff.mp found
  rw [Cursor.topKeyword?] at here
  split at here
  · rename_i top
    have found : ((Cursor.start t).skip i).keyword? k = some after := by simpa using here
    have word := Cursor.first_word isKeyword found
    have before := ((Cursor.keyword?_eq_some_iff isKeyword).mp found).1
    have member := topWord_mem_wordsFrom none (scan t) i inText
    have same : (Cursor.skip i ⟨none, scan t⟩).topWord = k.headD [] := by
      have capital : upper (k.headD []) = k.headD [] := by
        obtain ⟨w, ws, rfl⟩ := List.exists_cons_of_ne_nil isKeyword.1
        exact upper_of_isCapital (isKeyword.2 w (by simp)).2
      rw [Cursor.topWord, if_pos]
      · exact word.trans capital
      · rw [Bool.and_eq_true, Bool.not_eq_true']
        exact ⟨top, before⟩
    rwa [same] at member
  · cases here

/-- A text has a keyword of one word just if that word stands at its top level. -/
theorem lacks_of_words (areKeywords : ∀ k ∈ ks, IsKeyword k)
    (other : ∀ k ∈ ks, k.headD [] ∉ (topWords t).map Prod.snd) : Lacks ks t := by
  intro k member
  by_contra has
  exact other k member (mem_topWords_of_hasKeyword (areKeywords k member) (by simpa using has))

theorem hasKeyword_word {w : Text} (isKeyword : IsKeyword [w]) :
    hasKeyword [w] t ↔ w ∈ (topWords t).map Prod.snd := by
  constructor
  · exact mem_topWords_of_hasKeyword isKeyword
  · intro member
    by_contra missed
    have none : ∀ i < (Cursor.start t).marks.length, _ := Cursor.seek_eq_none_iff.mp
      (show (Cursor.start t).find? [[w]] = none by simpa [hasKeyword] using missed)
    have absent (b : Option Char) (ms : Marks)
        (none : ∀ i < ms.length, (Cursor.skip i ⟨b, ms⟩).topKeyword? [[w]] = .none) :
        w ∉ (wordsFrom b ms).map Prod.snd := by
      induction ms generalizing b with
      | nil => simp [wordsFrom]
      | cons m ms ih =>
        rw [wordsFrom, List.map_cons, List.mem_cons, not_or]
        refine ⟨?_, ih _ fun i inText => ?_⟩
        · intro same
          have here := none 0 (by simp)
          rw [Cursor.skip_zero, Cursor.topKeyword?_none_iff] at here
          simp only at same
          rw [Cursor.topWord] at same
          split at same
          · rename_i start
            rw [Bool.and_eq_true, Bool.not_eq_true'] at start
            have starts := (Cursor.startsWith_word isKeyword).mpr ⟨start.2, same.symm⟩
            rw [Cursor.startsWith, here start.1 [w] (by simp)] at starts
            cases starts
          · exact (isKeyword.2 w (by simp)).1 same
        · have here := none (i + 1) (by simpa using inText)
          rwa [Cursor.skip_cons] at here
    exact absent _ _ none member

theorem mem_standsFor_iff {w : Text} {ws : List (Char × Text)} :
    w ∈ standsFor (lookUp [w] id) ws ↔ w ∈ ws.map Prod.snd := by
  simp only [standsFor, List.mem_filterMap, List.mem_map]
  refine exists_congr fun p => and_congr_right fun _ => ?_
  by_cases same : p.2 = w
  · simp [lookUp, same]
  · have other : (w == p.2) = false := by simpa using Ne.symm same
    simp [lookUp, other, same]

theorem lacks_group (solid : Solid t) (areKeywords : ∀ k ∈ ks, IsKeyword k) : Lacks ks ('(' :: t ++ [')']) := by
  apply lacks_of_words areKeywords
  intro k member inside
  have isWord : IsKeyword [k.headD []] := by
    obtain ⟨full, words⟩ := areKeywords k member
    obtain ⟨w, ws, rfl⟩ := List.exists_cons_of_ne_nil full
    exact ⟨by simp, by simpa using words w (by simp)⟩
  have reads : ReadsWords (lookUp [k.headD []] id) := readsWords_lookUp (by simpa using isWord)
  have found := mem_standsFor_iff.mpr inside
  rw [solid.words_group reads] at found
  cases found

end Lacks
section Named

variable {t : Text} {issued : Nat}

theorem mem_topWords_numbered {w : Text} (isKeyword : IsKeyword [w])
    (member : w ∈ (topWords (numbered issued t)).map Prod.snd) : w ∈ (topWords t).map Prod.snd := by
  have reads : ReadsWords (lookUp [w] id) := readsWords_lookUp (by simpa using isKeyword)
  have fewer : (standsFor (lookUp [w] id) (wordsFrom none (nameMarks issued (scan t)))).Sublist
      (standsFor (lookUp [w] id) (wordsFrom none (scan t))) := standsFor_sublist reads id
  rw [← scan_numbered] at fewer
  exact mem_standsFor_iff.mp (fewer.subset (mem_standsFor_iff.mpr member))

theorem hasKeyword_numbered {w : Text} (isKeyword : IsKeyword [w]) (lacks : hasKeyword [w] t = false) :
    hasKeyword [w] (numbered issued t) = false := by
  by_contra has
  have member := mem_topWords_numbered isKeyword ((hasKeyword_word isKeyword).mp (by simpa using has))
  rw [(hasKeyword_word isKeyword).mpr member] at lacks
  cases lacks

end Named
section Glued

variable {k : Keyword} {ks ends : List Keyword} {s t u : Text}

theorem find?_glue (areKeywords : ∀ k ∈ ks, IsKeyword k) (neat : Neat s) (neat' : Neat u) (lacks : Lacks ks s)
    (apart : Uncrossed ks s u) : (Cursor.start (s ++ ' ' :: u)).find? ks =
      ((Cursor.start u).find? ks).map fun (passed, after) => (s ++ ' ' :: passed, after) := by
  rw [Cursor.find?_append areKeywords neat.solid (loose_space u) (by simp; decide) (find?_eq_none_iff.mpr lacks)
    (neat.uncrossed neat' areKeywords apart), Cursor.start, Cursor.find?_space areKeywords, Option.map_map]
  rfl

theorem upTo_glue (areKeywords : ∀ k ∈ ks, IsKeyword k) (neat : Neat s) (neat' : Neat u) (lacks : Lacks ks s)
    (apart : Uncrossed ks s u) : (Cursor.start (s ++ ' ' :: u)).upTo ks = s ++ ' ' :: (Cursor.start u).upTo ks := by
  rw [Cursor.upTo_append areKeywords neat.solid (loose_space u) (by simp; decide) (find?_eq_none_iff.mpr lacks)
    (neat.uncrossed neat' areKeywords apart), Cursor.start, Cursor.upTo_space areKeywords]

theorem upTo_lacks (lacks : Lacks ks t) : (Cursor.start t).upTo ks = t := by
  rw [Cursor.upTo, find?_eq_none_iff.mpr lacks]
  simp [Cursor.start, Cursor.text_mk]

theorem section?_lacks (lacks : Lacks [k] t) : section? k ends t = none := by
  rw [section?, find?_eq_none_iff.mpr lacks]
  rfl

theorem section?_glue (isKeyword : IsKeyword k) (neat : Neat s) (neat' : Neat u) (lacks : Lacks [k] s)
    (apart : Uncrossed [k] s u) : section? k ends (s ++ ' ' :: u) = section? k ends u := by
  rw [section?, section?, find?_glue (by simpa using isKeyword) neat neat' lacks apart, Option.map_map]
  rfl

theorem section?_text (isKeyword : IsKeyword k) (areKeywords : ∀ k ∈ ends, IsKeyword k) (u : Text) : section? k ends
      (k.text ++ ' ' :: u) = some (trim (' ' :: (Cursor.start u).upTo ends)) := by
  rw [section?, Cursor.find?_text isKeyword (by simp; decide), Option.map_some]
  dsimp only
  rw [Cursor.upTo_space areKeywords]

theorem afterKeyword?_text (isKeyword : IsKeyword k) : afterKeyword? k (k.text ++ ' ' :: u) = some (' ' :: u) := by
  rw [afterKeyword?, Cursor.keyword?_text isKeyword (by simp; decide), Option.map_some, Cursor.text_mk, markText_scan]

theorem afterKeyword?_eq_none (isKeyword : IsKeyword k) (other : firstWord t ≠ k.headD []) : afterKeyword? k t = none := by
  rw [afterKeyword?, Option.map_eq_none_iff]
  by_contra found
  obtain ⟨after, here⟩ := Option.ne_none_iff_exists'.mp found
  have word := Cursor.first_word isKeyword here
  obtain ⟨w, ws, rfl⟩ := List.exists_cons_of_ne_nil isKeyword.1
  rw [Cursor.start, Cursor.text_mk, markText_scan, List.headD_cons,
    upper_of_isCapital (isKeyword.2 w (by simp)).2] at word
  exact other word

theorem skipBlanks_space (b : Option Char) (starts : ∀ c ∈ u.head?, isBlank c = false) :
    Cursor.skipBlanks b (scan (' ' :: u)) = ⟨some ' ', scan u⟩ := by
  have space : isBlank ' ' = true := by decide
  rw [scan_space, Cursor.skipBlanks, if_pos space]
  cases u with
  | nil => rfl
  | cons c u =>
    obtain ⟨m, ms, marks⟩ : ∃ m ms, scan (c :: u) = m :: ms := ⟨_, _, rfl⟩
    have text := markText_scan (c :: u)
    rw [marks] at text
    have char : m.char = c := (List.cons.inj text).1
    rw [marks, Cursor.skipBlanks, if_neg (by simp [char, starts c rfl])]

theorem skipRun_eq (areKeywords : ∀ k ∈ ks, IsKeyword k) (starts : ∀ c ∈ u.head?, isBlank c = false)
    (other : ∀ k ∈ ks, firstWord u ≠ k.headD []) (b : Option Char) (n : Nat) :
    Cursor.skipRun ks n ⟨b, scan (' ' :: u)⟩ = ⟨b, scan (' ' :: u)⟩ := by
  cases n with
  | zero => rfl
  | succ n =>
    have none : ks.findSome? (Cursor.mk (some ' ') (scan u)).keyword? = .none := by
      rw [List.findSome?_eq_none_iff]
      intro k member
      by_contra found
      obtain ⟨after, here⟩ := Option.ne_none_iff_exists'.mp found
      have word := Cursor.first_word (areKeywords k member) here
      obtain ⟨w, ws, rfl⟩ := List.exists_cons_of_ne_nil (areKeywords k member).1
      rw [Cursor.text_mk, markText_scan, List.headD_cons,
        upper_of_isCapital ((areKeywords _ member).2 w (by simp)).2] at word
      exact other _ member word
    rw [Cursor.skipRun, skipBlanks_space b starts, none]

theorem skipAny_text (isKeyword : IsKeyword k) (starts : ∀ c ∈ u.head?, isBlank c = false)
    (other : firstWord u ≠ k.headD []) (b : Option Char) :
    Cursor.skipAny ⟨b, scan (' ' :: (k.text ++ ' ' :: u))⟩ [k] = ⟨k.text.getLast?, scan (' ' :: u)⟩ := by
  have spells := spells_text isKeyword
  have first : ∀ c ∈ (k.text ++ ' ' :: u).head?, isBlank c = false := by
    intro c head
    obtain ⟨d, start, letter⟩ := spells.head? isKeyword
    rw [List.head?_append_of_ne_nil _ (spells.ne_nil isKeyword), start] at head
    obtain rfl : d = c := by simpa using head
    exact isBlank_of_isKeywordChar d letter
  have here : (Cursor.mk (some ' ') (scan (k.text ++ ' ' :: u))).keyword? k =
      some ⟨k.text.getLast?, scan (' ' :: u)⟩ := by
    have same : (some ' ').any isWordChar = (none : Option Char).any isWordChar := by decide
    rw [Cursor.keyword?_before isKeyword same]
    exact Cursor.keyword?_text isKeyword (by simp; decide)
  obtain ⟨n, fuel⟩ : ∃ n, (scan (' ' :: (k.text ++ ' ' :: u))).length = n + 1 :=
    ⟨_, by rw [length_scan, List.length_cons]⟩
  rw [Cursor.skipAny, fuel, Cursor.skipRun, skipBlanks_space b first, List.findSome?_cons, here]
  exact skipRun_eq (by simpa using isKeyword) starts (by simpa using other) _ n

theorem trim_space (trimmed : trim t = t) : trim (' ' :: t) = t := by
  have padded := trim_pad (f := [' ']) (b := []) (by decide) (by simp) trimmed
  rwa [List.append_nil] at padded

theorem trimStart_of_head (starts : ∀ c ∈ u.head?, isBlank c = false) : trimStart u = u := by
  cases u with
  | nil => rfl
  | cons c u => rw [trimStart, List.dropWhile_cons_of_neg (by simp [starts c rfl])]

theorem trimStart_space (starts : ∀ c ∈ u.head?, isBlank c = false) : trimStart (' ' :: u) = u := by
  have space : isBlank ' ' = true := by decide
  rw [trimStart, List.dropWhile_cons_of_pos space]
  exact trimStart_of_head starts

/-- Nothing is skipped in front of another word. -/
theorem skipAny_eq (areKeywords : ∀ k ∈ ks, IsKeyword k) (starts : ∀ c ∈ u.head?, isBlank c = false)
    (other : ∀ k ∈ ks, firstWord u ≠ k.headD []) (b : Option Char) :
    Cursor.skipAny ⟨b, scan (' ' :: u)⟩ ks = ⟨b, scan (' ' :: u)⟩ := skipRun_eq areKeywords starts other b _

end Glued

structure Avoids (words : List Text) (ks : List Keyword) : Prop where
  keywords : ∀ k ∈ ks, IsKeyword k
  other : ∀ k ∈ ks, ∀ w ∈ words, w ∉ k

namespace Avoids

variable {words : List Text} {ks : List Keyword} {s t u : Text}

theorem uncrossed_last (avoids : Avoids words ks) (word : lastWord s ∈ words) (u : Text) : Uncrossed ks s u :=
  fun k member => .inl fun inside => avoids.other k member _ word ((List.dropLast_sublist k).subset inside)

theorem uncrossed_first (avoids : Avoids words ks) (s : Text) (word : firstWord u ∈ words) : Uncrossed ks s u :=
  fun k member => .inr fun inside => avoids.other k member _ word ((List.tail_sublist k).subset inside)

theorem lacks (avoids : Avoids words ks) (inWords : ∀ w ∈ (topWords t).map Prod.snd, w = [] ∨ w ∈ words) :
    Lacks ks t := by
  apply lacks_of_words avoids.keywords
  intro k member inside
  obtain ⟨full, isWord⟩ := avoids.keywords k member
  obtain ⟨w, ws, rfl⟩ := List.exists_cons_of_ne_nil full
  rcases inWords _ inside with empty | inVocabulary
  · exact (isWord w (by simp)).1 empty
  · exact avoids.other _ member _ inVocabulary (by simp)

end Avoids
end QueryChain
