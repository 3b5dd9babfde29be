import QueryChain.Proofs.Statement.Spelled
import QueryChain.Proofs.Keyword.TopWord

namespace QueryChain

def logicWords (t : Text) : List LogicWord := standsFor (lookUp LogicWord.all LogicWord.word) (topWords t)

inductive Nested : List LogicWord → Prop
  | nil : Nested []
  | word {w : LogicWord} {ws : List LogicWord} (noCase : w ≠ .caseWord) (noEnd : w ≠ .endWord)
      (later : Nested ws) : Nested (w :: ws)
  | group {inner ws : List LogicWord} (inside : Nested inner) (later : Nested ws) :
      Nested (.caseWord :: inner ++ .endWord :: ws)

inductive Groups : List LogicWord → Prop
  | nil : Groups []
  | group {inner ws : List LogicWord} (inside : Nested inner) (later : Groups ws) :
      Groups (.caseWord :: inner ++ .endWord :: ws)

/-- `CASE` groups and whole `BETWEEN`s, but no connective that joins conditions. -/
inductive Whole : List LogicWord → Prop
  | nil : Whole []
  | group {inner ws : List LogicWord} (inside : Nested inner) (later : Whole ws) :
      Whole (.caseWord :: inner ++ .endWord :: ws)
  | between {bound ws : List LogicWord} (inside : Groups bound) (later : Whole ws) :
      Whole (.between :: bound ++ .connective .and :: ws)

section Pass

abbrev SplitState := Nat × Bool

def pass : SplitState → LogicWord → Option SplitState
  | (n, between), .caseWord => some (n + 1, between)
  | (n, between), .endWord => some (n - 1, between)
  | (n, between), .between => some (n, between || n == 0)
  | (n, between), .connective k =>
    if n ≠ 0 then some (n, between)
    else if k = .and ∧ between then some (0, false)
    else none

theorem splitPoints_append {s e : SplitState} (anns rest : List (Char × Option LogicWord))
    (passes : (anns.filterMap Prod.snd).foldlM pass s = some e) :
    splitPoints s.1 s.2 (anns ++ rest) = anns.map (fun a => (a.1, none)) ++ splitPoints e.1 e.2 rest := by
  induction anns generalizing s with
  | nil =>
    obtain rfl : s = e := by simpa using passes
    rfl
  | cons a anns ih =>
    obtain ⟨n, between⟩ := s
    obtain ⟨c, w⟩ := a
    cases w with
    | none => simpa [splitPoints] using ih passes
    | some w =>
      simp only [List.filterMap_cons, List.foldlM_cons, Option.bind_eq_bind, Option.bind_eq_some_iff] at passes
      obtain ⟨next, here, later⟩ := passes
      have rest := ih later
      cases w with
      | caseWord =>
        obtain rfl := Option.some.inj here
        simpa [splitPoints] using rest
      | endWord =>
        obtain rfl := Option.some.inj here
        simpa [splitPoints] using rest
      | between =>
        obtain rfl := Option.some.inj here
        simpa [splitPoints] using rest
      | connective k =>
        rw [pass] at here
        rw [List.cons_append, splitPoints]
        split_ifs at here ⊢
        · obtain rfl := Option.some.inj here
          simpa using rest
        · obtain rfl := Option.some.inj here
          simpa using rest

theorem Nested.pass {ws : List LogicWord} (nested : Nested ws) (n : Nat) (between : Bool) :
    ws.foldlM pass (n + 1, between) = some (n + 1, between) := by
  induction nested generalizing n with
  | nil => rfl
  | @word w ws noCase noEnd later ih =>
    have here : QueryChain.pass (n + 1, between) w = some (n + 1, between) := by
      cases w with
      | caseWord => exact absurd rfl noCase
      | endWord => exact absurd rfl noEnd
      | between => simp [QueryChain.pass]
      | connective k => simp [QueryChain.pass]
    rw [List.foldlM_cons, here]
    exact ih n
  | group inside later ihInside ihLater =>
    rw [List.cons_append, List.foldlM_cons, QueryChain.pass, Option.bind_eq_bind, Option.bind_some,
      List.foldlM_append, ihInside]
    exact ihLater n

theorem Groups.pass {ws : List LogicWord} (groups : Groups ws) (between : Bool) :
    ws.foldlM pass (0, between) = some (0, between) := by
  induction groups with
  | nil => rfl
  | group inside later ih =>
    rw [List.cons_append, List.foldlM_cons, QueryChain.pass, Option.bind_eq_bind, Option.bind_some,
      List.foldlM_append, inside.pass]
    exact ih

theorem Whole.pass {ws : List LogicWord} (whole : Whole ws) :
    ws.foldlM pass (0, false) = some (0, false) := by
  induction whole with
  | nil => rfl
  | group inside later ih =>
    rw [List.cons_append, List.foldlM_cons, QueryChain.pass, Option.bind_eq_bind, Option.bind_some,
      List.foldlM_append, inside.pass]
    exact ih
  | between inside later ih =>
    rw [List.cons_append, List.foldlM_cons, QueryChain.pass, Option.bind_eq_bind, Option.bind_some,
      List.foldlM_append]
    have bound : _ = some (0, true) := inside.pass true
    simp only [Bool.false_or, beq_self_eq_true, bound, Option.bind_eq_bind, Option.bind_some]
    exact ih

end Pass

/-- Operands, each but the first with a connective in front of it. -/
structure Chain (α : Type) where
  first : α
  rest : List (Connective × α)

namespace Chain

variable {α β : Type}

def operands (c : Chain α) : List α := c.first :: c.rest.map Prod.snd

def restText : List (Connective × Text) → Text
  | [] => []
  | (k, a) :: rest => ' ' :: k.word ++ ' ' :: a ++ restText rest

def text (c : Chain Text) : Text := c.first ++ restText c.rest

def conditions (c : Chain Text) : List Condition := ⟨c.first, none⟩ :: c.rest.map fun (k, a) => ⟨a, some k⟩

theorem restText_cons (k : Connective) (a : Text) (rest : List (Connective × Text)) :
    restText ((k, a) :: rest) = ' ' :: (k.word ++ ' ' :: (a ++ restText rest)) := by
  simp [restText]

end Chain

section Blanks

variable {s t u : Text}

theorem trim_pad {f b : Text} (blankFront : ∀ c ∈ f, isBlank c) (blankBack : ∀ c ∈ b, isBlank c)
    (trimmed : trim t = t) : trim (f ++ t ++ b) = t := by
  have ends : trimEnd (f ++ t ++ b) = trimEnd (f ++ t) := by
    rw [trimEnd, dropEndWhile, List.reverse_append, List.dropWhile_append_of_pos]
    · rfl
    · exact fun c member => blankBack c (List.mem_reverse.mp member)
  rw [trim, ends]
  by_cases empty : t = []
  · have none : trimEnd (f ++ t) = [] := by
      rw [empty, List.append_nil, trimEnd, dropEndWhile, List.reverse_eq_nil_iff, List.dropWhile_eq_nil_iff]
      exact fun c member => blankFront c (List.mem_reverse.mp member)
    rw [none, empty]
    rfl
  · have last : trimEnd (f ++ t) = f ++ t := by
      have kept : isBlank (t.getLast empty) = false :=
        getLast?_trim (t := t) (by rw [trimmed, List.getLast?_eq_some_getLast empty])
      rw [trimEnd, dropEndWhile, List.reverse_append, ← List.dropLast_append_getLast empty,
        List.reverse_append, List.reverse_singleton, List.singleton_append, List.cons_append,
        List.dropWhile_cons_of_neg (by simp [kept])]
      simp
    have first : trimStart t = t := by
      obtain ⟨c, rest, rfl⟩ := List.exists_cons_of_ne_nil empty
      have kept : isBlank c = false := head?_trim (t := c :: rest) (by rw [trimmed]; rfl)
      rw [trimStart, List.dropWhile_cons_of_neg (by simp [kept])]
    rw [last, trimStart, List.dropWhile_append_of_pos blankFront]
    exact first

theorem loose_space (u : Text) : Loose (' ' :: u) := loose_cons (by decide) (by decide) u

theorem scan_space (u : Text) : scan (' ' :: u) = ⟨' ', 0, .code⟩ :: scan u := scan_plain (by decide) u

theorem Solid.scan_glue (solid : Solid s) (u : Text) :
    scan (s ++ ' ' :: u) = scan s ++ ⟨' ', 0, .code⟩ :: scan u := by
  rw [solid.scan_append (loose_space u), scan_space]

theorem Solid.glue (first : Solid s) (second : Solid u) : Solid (s ++ ' ' :: u) :=
  first.append (second.cons (by decide)) (loose_space u)

theorem Solid.numbered_glue (solid : Solid s) (u : Text) (issued : Nat) :
    numbered issued (s ++ ' ' :: u) = numbered issued s ++ ' ' :: numbered (issued + placeholders s) u := by
  rw [solid.numbered_append (loose_space u), numbered_cons (by decide) (by decide)]

theorem Solid.placeholders_glue (solid : Solid s) (u : Text) :
    placeholders (s ++ ' ' :: u) = placeholders s + placeholders u := by
  rw [solid.placeholders_append (loose_space u), placeholders_cons (by decide) (by decide)]

theorem topWords_space (u : Text) : topWords (' ' :: u) = (' ', []) :: topWords u := by
  have space : isWordChar ' ' = false := by decide
  rw [topWords, scan_space, wordsFrom, topWord_of_stop space, topWords]
  congr 1
  exact wordsFrom_before (by decide) _

theorem Solid.topWords_glue (solid : Solid s) (u : Text) :
    topWords (s ++ ' ' :: u) = topWords s ++ (' ', []) :: topWords u := by
  rw [solid.topWords_append (loose_space u) (.inr (by simp; decide)), topWords_space]

end Blanks
section Cut

def logicMarks (t : Text) : List (Char × Option LogicWord) := Cursor.annotate logicWordAt? none (scan t)

theorem isKeyword_logicWord (w : LogicWord) : IsKeyword [w.word] := by
  rcases w with _ | _ | _ | (_ | _) <;> decide

theorem logicMarks_eq (t : Text) : logicMarks t =
    (topWords t).map fun p => (p.1, lookUp LogicWord.all LogicWord.word p.2) :=
  annotate_eq (fun w _ => isKeyword_logicWord w) (fun _ => rfl) none (scan t)

theorem readsWords_logic : ReadsWords (lookUp LogicWord.all LogicWord.word) :=
  readsWords_lookUp fun w _ => isKeyword_logicWord w

theorem filterMap_logicMarks (t : Text) : (logicMarks t).filterMap Prod.snd = logicWords t := by
  rw [logicMarks_eq, List.filterMap_map]
  rfl

theorem map_fst_logicMarks (t : Text) : (logicMarks t).map Prod.fst = t := by
  rw [logicMarks, map_fst_annotate, markText_scan]

theorem Solid.logicMarks_glue {s : Text} (solid : Solid s) (u : Text) :
    logicMarks (s ++ ' ' :: u) = logicMarks s ++ (' ', none) :: logicMarks u := by
  rw [logicMarks_eq, logicMarks_eq, logicMarks_eq, solid.topWords_glue, List.map_append, List.map_cons,
    readsWords_logic.nil]

theorem logicMarks_connective (k : Connective) : ∃ c w, k.word = c :: w ∧
    logicMarks k.word = (c, some (.connective k)) :: w.map (·, none) := by
  cases k with
  | and => exact ⟨'A', "ND".toList, by decide, by decide⟩
  | or => exact ⟨'O', "R".toList, by decide, by decide⟩

theorem solid_connective (k : Connective) : Solid k.word := by
  apply Solid.plain
  cases k <;> decide

theorem cutWords_none {κ : Type} (size : κ → Nat) (s : Text) (rest : List (Char × Option κ)) :
    cutWords size 0 (s.map (·, none) ++ rest) =
      (s ++ (cutWords size 0 rest).1, (cutWords size 0 rest).2) := by
  induction s with
  | nil => rfl
  | cons c s ih => rw [List.map_cons, List.cons_append, cutWords, ih]; rfl

structure Operand (a : Text) : Prop where
  solid : Solid a
  trimmed : trim a = a
  passes : (logicWords a).foldlM pass (0, false) = some (0, false)

theorem Operand.splitPoints {a : Text} (operand : Operand a) (more : List (Char × Option LogicWord)) :
    splitPoints 0 false (logicMarks a ++ more) = a.map (·, none) ++ splitPoints 0 false more := by
  have passed := operand.passes
  rw [← filterMap_logicMarks] at passed
  rw [splitPoints_append (s := (0, false)) (e := (0, false)) _ _ passed]
  conv_rhs => rw [← map_fst_logicMarks a, List.map_map]
  rfl

theorem cut_chain (first : Text) (rest : List (Connective × Text))
    (operands : ∀ a ∈ first :: rest.map Prod.snd, Operand a) :
    ∃ blanks : Text, (∀ c ∈ blanks, isBlank c) ∧
      (cutWords (·.word.length) 0 (splitPoints 0 false (logicMarks (first ++ Chain.restText rest)))).1 =
        first ++ blanks ∧
      (cutWords (·.word.length) 0 (splitPoints 0 false (logicMarks (first ++ Chain.restText rest)))).2.map
        (fun p => (p.1, trim p.2)) = rest := by
  have here := operands first (by simp)
  induction rest generalizing first with
  | nil =>
    have whole := here.splitPoints []
    rw [List.append_nil, splitPoints] at whole
    rw [Chain.restText, List.append_nil, whole, cutWords_none]
    exact ⟨[], by simp, rfl, rfl⟩
  | cons p rest ih =>
    obtain ⟨k, a⟩ := p
    obtain ⟨c, w, word, marks⟩ := logicMarks_connective k
    have next := operands a (by simp)
    obtain ⟨blanks, blank, head, parts⟩ := ih a (fun b member => operands b (List.mem_cons_of_mem _ member)) next
    have tail : splitPoints 0 false (w.map (·, none) ++ (' ', none) :: logicMarks (a ++ Chain.restText rest)) =
        w.map (·, none) ++ (' ', none) :: splitPoints 0 false (logicMarks (a ++ Chain.restText rest)) := by
      rw [splitPoints_append (s := (0, false)) (e := (0, false)), List.map_map]
      · rfl
      · rw [List.filterMap_eq_nil_iff.mpr (by simp)]
        rfl
    have length : k.word.length - 1 = w.length := by rw [word]; rfl
    rw [Chain.restText_cons, here.solid.logicMarks_glue, (solid_connective k).logicMarks_glue, marks,
      here.splitPoints, List.cons_append, splitPoints, splitPoints, tail]
    simp only [ne_eq, not_true_eq_false, if_false, Bool.false_eq_true, and_false]
    rw [cutWords_none, cutWords, cutWords, cutWords_skip, length, List.drop_left' (by simp), cutWords]
    refine ⟨[' '], by decide, rfl, ?_⟩
    have piece : trim (' ' :: (a ++ blanks)) = a :=
      trim_pad (f := [' ']) (by decide) blank next.trimmed
    rw [List.map_cons, parts, head, piece]

end Cut
section Split

variable {c : Chain Text}

theorem conditionPieces_chain (operands : ∀ a ∈ c.operands, Operand a) (full : ∀ a ∈ c.operands, a ≠ []) :
    conditionPieces c.text = c.conditions := by
  obtain ⟨blanks, blank, head, parts⟩ := cut_chain c.first c.rest operands
  have first : trim (c.first ++ blanks) = c.first :=
    trim_pad (f := []) (by simp) blank (operands c.first (by simp [Chain.operands])).trimmed
  have pieces : writtenPieces c.text = c.conditions := by
    have written : writtenPieces c.text = (⟨trim (cutWords (·.word.length) 0
        (splitPoints 0 false (logicMarks (c.first ++ Chain.restText c.rest)))).1, none⟩ : Condition) ::
        (cutWords (·.word.length) 0
          (splitPoints 0 false (logicMarks (c.first ++ Chain.restText c.rest)))).2.map
          fun p => ⟨trim p.2, some p.1⟩ := rfl
    rw [written, Chain.conditions, head, first]
    conv_rhs => rw [← parts, List.map_map]
    rfl
  rw [conditionPieces_eq, pieces, List.filter_eq_self.mpr]
  · rfl
  · intro d member
    rw [Chain.conditions, List.mem_cons, List.mem_map] at member
    rcases member with rfl | ⟨p, inRest, rfl⟩
    · simpa using full c.first (by simp [Chain.operands])
    · simpa using full p.2 (List.mem_cons_of_mem _ (List.mem_map_of_mem inRest))

theorem ScanState.closes {s : ScanState} {c : Char} {rest : Text} (deep : s.depth ≠ 0)
    (shallow : (s.next c rest).depth = 0) : (s.mark c rest).isTopOf ')' := by
  obtain ⟨mode, depth⟩ := s
  simp only at deep
  cases mode with
  | code =>
    cases role : Role.of c rest with
    | closing =>
      obtain rfl := char_of_closing role
      simp only [next, role] at shallow
      simp [mark, role, Mark.isTopOf, Mark.isTop, Mark.isCode, shallow]
    | lineComment | blockComment | quote | plain =>
      simp only [next, role] at shallow
      exact absurd shallow deep
    | opening =>
      simp only [next, role] at shallow
      cases shallow
  | quote q escaped =>
    cases escaped with
    | true => exact absurd shallow deep
    | false =>
      simp only [next] at shallow
      split_ifs at shallow <;> exact absurd shallow deep
  | lineComment =>
    simp only [next] at shallow
    split_ifs at shallow <;> exact absurd shallow deep
  | opener => exact absurd shallow deep
  | blockComment star =>
    simp only [next] at shallow
    split_ifs at shallow <;> exact absurd shallow deep

/-- A group that is open is closed before the text ends. -/
theorem Leads.closes {s e : ScanState} {t : Text} (leads : Leads s t e) (deep : s.depth ≠ 0)
    (shallow : e.depth = 0) : ∃ m ∈ s.marks t, m.isTopOf ')' := by
  induction leads with
  | nil => exact absurd shallow deep
  | @cons s e c rest free opened later ih =>
    by_cases last : (s.next c rest).depth = 0
    · exact ⟨s.mark c rest, by simp [ScanState.marks], ScanState.closes deep last⟩
    · obtain ⟨m, member, close⟩ := ih last shallow
      exact ⟨m, List.mem_cons_of_mem _ member, close⟩

theorem Solid.closes {a : Text} (solid : Solid a) (opens : a.head? = some '(') :
    ∃ m ∈ scan a, m.isTopOf ')' := by
  obtain ⟨rest, rfl⟩ := List.head?_eq_some_iff.mp opens
  cases solid with
  | cons free opened later =>
    have next : ({} : ScanState).next '(' rest = ⟨.code, 1⟩ := by simp [ScanState.next, role_opening]
    rw [next] at later
    obtain ⟨m, member, close⟩ := later.closes (by decide) rfl
    refine ⟨m, ?_, close⟩
    rw [scan, ScanState.marks, next]
    exact List.mem_cons_of_mem _ member

theorem Solid.isGroup_glue {a u : Text} (solid : Solid a) (full : a ≠ []) (trimmed : trim (a ++ ' ' :: u) = a ++ ' ' :: u) :
    isGroup (a ++ ' ' :: u) = false := by
  rw [isGroup, trimmed, List.head?_append_of_ne_nil a full]
  by_cases opens : a.head? = some '('
  · obtain ⟨m, member, close⟩ := solid.closes opens
    have inside : (scan (a ++ ' ' :: u)).dropLast.any (·.isTopOf ')') := by
      rw [solid.scan_glue, List.dropLast_append_of_ne_nil (List.cons_ne_nil _ _), List.any_append,
        List.any_eq_true.mpr ⟨m, member, close⟩, Bool.true_or]
    rw [inside]
    simp
  · have other : (a.head? == some '(') = false := by simpa using opens
    rw [other]
    rfl

theorem trim_glue {s u : Text} (full : s ≠ []) (full' : u ≠ []) (first : trim s = s) (last : trim u = u) :
    trim (s ++ ' ' :: u) = s ++ ' ' :: u := by
  apply trim_eq_self
  · intro c start
    rw [List.head?_append_of_ne_nil s full, ← first] at start
    exact head?_trim start
  · intro c ending
    rw [getLast?_append_of_ne_nil (List.cons_ne_nil _ _), ← List.singleton_append,
      getLast?_append_of_ne_nil full', ← last] at ending
    exact getLast?_trim ending

theorem trim_chain (first : Text) (rest : List (Connective × Text))
    (trimmed : ∀ a ∈ first :: rest.map Prod.snd, trim a = a) (full : ∀ a ∈ first :: rest.map Prod.snd, a ≠ []) :
    trim (first ++ Chain.restText rest) = first ++ Chain.restText rest := by
  induction rest generalizing first with
  | nil =>
    rw [Chain.restText, List.append_nil]
    exact trimmed first (by simp)
  | cons p rest ih =>
    obtain ⟨k, a⟩ := p
    have later := ih a (fun b member => trimmed b (List.mem_cons_of_mem _ member))
      fun b member => full b (List.mem_cons_of_mem _ member)
    have fullWord : k.word ≠ [] := by cases k <;> decide
    have trimmedWord : trim k.word = k.word := by cases k <;> decide
    have fullLater : a ++ Chain.restText rest ≠ [] := by
      intro empty
      exact full a (by simp) (List.append_eq_nil_iff.mp empty).1
    rw [Chain.restText_cons]
    apply trim_glue (full first (by simp)) (by simp) (trimmed first (by simp))
    exact trim_glue fullWord fullLater trimmedWord later

theorem splitConditions_chain (operands : ∀ a ∈ c.operands, Operand a) (full : ∀ a ∈ c.operands, a ≠ []) :
    splitConditions c.text = foldPrecedence c.conditions := by
  have pieces := conditionPieces_chain operands full
  have trimmed := trim_chain c.first c.rest (fun a member => (operands a member).trimmed) full
  obtain ⟨first, rest⟩ := c
  have here : first ≠ [] := full first (by simp [Chain.operands])
  rw [splitConditions, pieces, if_neg (by simp [Chain.text, here])]
  cases rest with
  | nil => simp [Chain.conditions, Chain.text, Chain.restText, foldPrecedence, foldAnds]
  | cons p rest =>
    obtain ⟨k, a⟩ := p
    simp only [Chain.restText_cons] at trimmed
    have open_ := (operands first (by simp [Chain.operands])).solid.isGroup_glue here trimmed
    rw [Chain.text, Chain.restText_cons, open_]
    simp [Chain.conditions]

end Split
section Naming

variable {a : Text} {issued : Nat}

theorem logicWords_numbered (untouched : Untouched a) (issued : Nat) :
    logicWords (numbered issued a) = logicWords a := by
  rw [logicWords, topWords, scan_numbered]
  exact standsFor_nameMarks readsWords_logic untouched (.inl rfl)

/-- The operand stays whole when its placeholders are named. -/
theorem Operand.named (operand : Operand a) (kept : Untouched a ∨ logicWords a = []) (issued : Nat) :
    Operand (numbered issued a) where
  solid := operand.solid.named issued
  trimmed := trim_numbered operand.trimmed issued
  passes := by
    rcases kept with untouched | free
    · rw [logicWords_numbered untouched]
      exact operand.passes
    · have fewer : (standsFor (lookUp LogicWord.all LogicWord.word)
          (wordsFrom none (nameMarks issued (scan a)))).Sublist (logicWords a) :=
        standsFor_sublist readsWords_logic id
      rw [← scan_numbered] at fewer
      change (logicWords (numbered issued a)).Sublist (logicWords a) at fewer
      rw [free] at fewer
      rw [List.sublist_nil.mp fewer]
      rfl

def Chain.named (issued : Nat) (c : Chain Text) : Chain Text where
  first := numbered issued c.first
  rest := (c.rest.map Prod.fst).zip (numberedAll (issued + placeholders c.first) (c.rest.map Prod.snd))

theorem Chain.operands_named (issued : Nat) (c : Chain Text) :
    (c.named issued).operands = numberedAll issued c.operands := by
  rw [operands, operands, named, numberedAll, List.map_snd_zip]
  simp [length_numberedAll]

theorem loose_restText (rest : List (Connective × Text)) : Loose (Chain.restText rest) := by
  cases rest with
  | nil => exact loose_nil
  | cons p rest => exact loose_space _

theorem numbered_restText (issued : Nat) (rest : List (Connective × Text))
    (solid : ∀ a ∈ rest.map Prod.snd, Solid a) : numbered issued (Chain.restText rest) =
      Chain.restText ((rest.map Prod.fst).zip (numberedAll issued (rest.map Prod.snd))) := by
  induction rest generalizing issued with
  | nil => rfl
  | cons p rest ih =>
    obtain ⟨k, a⟩ := p
    have none : '?' ∉ k.word := by cases k <;> decide
    have later := ih (issued + placeholders a) fun b member => solid b (List.mem_cons_of_mem _ member)
    rw [Chain.restText_cons, numbered_cons (by decide) (by decide), (solid_connective k).numbered_glue,
      numbered_of_free none, placeholders_of_free none, Nat.add_zero,
      (solid a (by simp)).numbered_append (loose_restText rest), later]
    simp only [List.map_cons, numberedAll, List.zip_cons_cons, Chain.restText_cons]

theorem Chain.numbered_text (issued : Nat) (c : Chain Text) (solid : ∀ a ∈ c.operands, Solid a) :
    numbered issued c.text = (c.named issued).text := by
  rw [text, (solid c.first (by simp [operands])).numbered_append (loose_restText c.rest),
    numbered_restText]
  · rfl
  · exact fun a member => solid a (List.mem_cons_of_mem _ member)

theorem mem_numberedAll {b : Text} {ts : List Text} (member : b ∈ numberedAll issued ts) :
    ∃ t ∈ ts, ∃ n, b = numbered n t := by
  induction ts generalizing issued with
  | nil => cases member
  | cons t ts ih =>
    rcases List.mem_cons.mp member with rfl | later
    · exact ⟨t, by simp, issued, rfl⟩
    · obtain ⟨u, inRest, n, rfl⟩ := ih later
      exact ⟨u, List.mem_cons_of_mem _ inRest, n, rfl⟩

/-- The chain of conditions that a written chain stands for. -/
theorem conditionsOf_chain {c : Chain Text} (normal : normalize c.text = c.text)
    (operands : ∀ a ∈ c.operands, a ≠ [] ∧ Operand a ∧ (Untouched a ∨ logicWords a = [])) (issued : Nat) :
    conditionsOf issued c.text = foldPrecedence (c.named issued).conditions := by
  rw [conditionsOf, normal, c.numbered_text issued fun a member => (operands a member).2.1.solid]
  apply splitConditions_chain
  · intro b member
    rw [c.operands_named] at member
    obtain ⟨a, inChain, n, rfl⟩ := mem_numberedAll member
    exact (operands a inChain).2.1.named (operands a inChain).2.2 n
  · intro b member
    rw [c.operands_named] at member
    obtain ⟨a, inChain, n, rfl⟩ := mem_numberedAll member
    exact fun empty => (operands a inChain).1 ((numbered_eq_nil_iff _ _).mp empty)

end Naming
end QueryChain
