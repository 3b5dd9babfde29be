import QueryChain.Proofs.NormalForm.Collapse

namespace QueryChain

def rangeStops : List Keyword := [["AND"], ["OR"], ["BETWEEN"], ["CASE"]]

structure Term (x : Text) : Prop where
  full : ∃ c ∈ x, isBlank c = false
  code : ∀ m ∈ scan x, m.kind = .code
  flat : ∀ c ∈ x, c ≠ '(' ∧ c ≠ ')'
  lacks : Lacks rangeStops x

/-- What a range tests. It does not go on after a `NULL` as if a condition ended there. -/
structure Tested (x : Text) : Prop extends Term x where
  apart : wordAt (trimStart x) 0 = "NULL".toList → Lacks (conditionEnds.map fun k => [k.headD []]) x

/-- What a range starts from. It ends no `CASE`, nor does it end in a semicolon. -/
structure LowerBound (y : Text) : Prop extends Term y where
  noEnd : Lacks [["END"]] y
  last : (y.filter (!isBlank ·)).getLast? ≠ some ';'

def nullRange (x y : Text) : Text := x ++ (" BETWEEN ".toList ++ (y ++ " AND NULL".toList))

def openRange (x y : Text) : Text := x ++ (" BETWEEN ".toList ++ y)

section Flat

variable {s : ScanState} {x u m : Text} {c : Char}

def flatMarks (depth : Nat) (t : Text) : Marks := t.map (⟨·, depth, .code⟩)

@[simp] theorem flatMarks_append (depth : Nat) (t u : Text) :
    flatMarks depth (t ++ u) = flatMarks depth t ++ flatMarks depth u := List.map_append

@[simp] theorem markText_flatMarks (depth : Nat) (t : Text) : markText (flatMarks depth t) = t := by
  simp [flatMarks, markText, Function.comp_def]

@[simp] theorem length_flatMarks (depth : Nat) (t : Text) : (flatMarks depth t).length = t.length := List.length_map _

structure Inline (m u : Text) : Prop where
  marks : ∀ s : ScanState, s.mode = .code → s.marks (m ++ u) = flatMarks s.depth m ++ s.marks u
  behind : ∀ s : ScanState, s.mode = .code → s.behind m u = s

theorem Inline.plain (plain : ∀ c ∈ m, isPlain c) (u : Text) : Inline m u where
  marks _ code := marks_plain code plain u
  behind s code := s.behind_plain code m u plain

theorem Inline.append {n : Text} (first : Inline m (n ++ u)) (second : Inline n u) : Inline (m ++ n) u where
  marks s code := by rw [List.append_assoc, first.marks s code, second.marks s code, flatMarks_append, List.append_assoc]
  behind s code := by rw [ScanState.behind_append, first.behind s code, second.behind s code]

theorem next_of_code {rest : Text} (code : s.mode = .code) (kind : (s.mark c rest).kind = .code)
    (flat : c ≠ '(' ∧ c ≠ ')') : s.mark c rest = ⟨c, s.depth, .code⟩ ∧ s.next c rest = s := by
  rw [ScanState.mark, code] at kind ⊢
  rw [ScanState.next, code]
  cases role : Role.of c rest with
  | plain => exact ⟨rfl, rfl⟩
  | opening => exact absurd (char_of_opening role) flat.1
  | closing => exact absurd (char_of_closing role) flat.2
  | lineComment | blockComment | quote => simp [role] at kind

theorem leads_flat (code : s.mode = .code) (kinds : ∀ m ∈ s.marks x, m.kind = .code)
    (flat : ∀ c ∈ x, c ≠ '(' ∧ c ≠ ')') : Leads s x s := by
  induction x with
  | nil => exact .nil s
  | cons c x ih =>
    have here := kinds (s.mark c x) (by simp [ScanState.marks])
    obtain ⟨-, next⟩ := next_of_code code here (flat c (by simp))
    refine .cons (by simp [here]) (fun _ closing => absurd closing (flat c (by simp)).2) ?_
    rw [next]
    refine ih (fun m member => kinds m ?_) fun d member => flat d (by simp [member])
    rw [ScanState.marks, next]
    exact List.mem_cons_of_mem _ member

theorem Inline.of_code (x u : Text)
    (code : ∀ s : ScanState, s.mode = .code → ∀ m ∈ (s.marks (x ++ u)).take x.length, m.kind = .code)
    (flat : ∀ c ∈ x, c ≠ '(' ∧ c ≠ ')') : Inline x u := by
  have both (s : ScanState) (mode : s.mode = .code) :
      s.marks (x ++ u) = flatMarks s.depth x ++ s.marks u ∧ s.behind x u = s := by
    have kinds := code s mode
    clear code
    induction x with
    | nil => exact ⟨rfl, rfl⟩
    | cons c x ih =>
      have here := kinds (s.mark c (x ++ u)) (by simp [ScanState.marks])
      obtain ⟨mark, next⟩ := next_of_code mode here (flat c (by simp))
      have later := ih (fun d member => flat d (by simp [member])) fun m member => kinds m (by
        rw [List.cons_append, ScanState.marks, List.length_cons, List.take_succ_cons, next]
        exact List.mem_cons_of_mem _ member)
      rw [List.cons_append, ScanState.marks, ScanState.behind, mark, next, later.1]
      exact ⟨rfl, later.2⟩
  exact ⟨fun s mode => (both s mode).1, fun s mode => (both s mode).2⟩

namespace Term

theorem inline (term : Term x) (loose : Loose u) : Inline x u := by
  refine .of_code x u (fun s mode => ?_) term.flat
  have kinds : ∀ m ∈ s.marks x, m.kind = .code := by
    have same := congrArg (List.map Prod.snd) (kind_scan mode x)
    simp only [List.map_map, Function.comp_def] at same
    intro m member
    have listed : m.kind ∈ (s.marks x).map Mark.kind := List.mem_map_of_mem member
    rw [same, List.mem_map] at listed
    obtain ⟨n, inScan, kind⟩ := listed
    rw [← kind]
    exact term.code n inScan
  have leads := leads_flat mode kinds term.flat
  rw [leads.marks_append loose, List.take_left' (s.length_marks x)]
  exact kinds

theorem scan_eq (term : Term x) : scan x = flatMarks 0 x := by
  have marks := (term.inline loose_nil).marks {} rfl
  rw [List.append_nil] at marks
  exact marks.trans (List.append_nil _)

theorem collapse_eq (term : Term x) : collapse x = collapseMarks false false (flatMarks 0 x) := by
  rw [collapse, term.scan_eq]

theorem word (term : Term x) {ks : List Keyword} (lacks : Lacks ks x) {w : Text} (stop : [w] ∈ ks)
    (isKeyword : IsKeyword [w]) (i : Nat) : wordAt x i ≠ w := by
  rintro rfl
  by_cases inText : i < x.length
  · have member := topWord_mem_wordsFrom none (scan x) i (by rwa [length_scan])
    have place : Cursor.skip i ⟨none, scan x⟩ = cursorAt x i := rfl
    have top : (cursorAt x i).atTop := by
      rw [Cursor.atTop, marks_cursorAt, term.scan_eq, flatMarks, ← List.map_drop, List.drop_eq_getElem_cons inText]
      rfl
    rw [place, topWord_cursorAt (Nat.le_of_lt inText), if_pos top] at member
    have has := (hasKeyword_word isKeyword).mpr member
    rw [lacks _ stop] at has
    cases has
  · have nothing : wordAt x i = [] := by simp [wordAt, List.drop_eq_nil_of_le (Nat.le_of_not_lt inText), upper]
    exact (isKeyword.2 _ (by simp)).1 nothing

end Term
end Flat
section Squeezed

variable {x y t : Text} {depth : Nat}

theorem wordAt_end (t : Text) : wordAt t t.length = [] := by simp [wordAt, upper]

theorem ink_of_full (depth : Nat) (full : ∃ c ∈ x, isBlank c = false) : ∃ m ∈ flatMarks depth x, m.isGap = false := by
  obtain ⟨c, member, ink⟩ := full
  exact ⟨⟨c, depth, .code⟩, List.mem_map_of_mem member, by rw [isGap_flat, ink]⟩

theorem takeWhile_collapse (x : Text) :
    (collapseMarks false true (flatMarks depth x)).takeWhile isWordChar = x.takeWhile isWordChar := by
  induction x with
  | nil => rfl
  | cons c x ih =>
    rw [flatMarks, List.map_cons, collapseMarks, isGap_flat, ← flatMarks]
    by_cases blank : isBlank c
    · have stop := head?_collapseMarks_gap (flatMarks depth x)
      rw [if_pos blank, List.takeWhile_cons_of_neg (by simp [isWordChar_of_isBlank c blank])]
      cases squeezed : collapseMarks true true (flatMarks depth x) with
      | nil => rfl
      | cons d rest =>
        rw [squeezed] at stop
        rw [List.takeWhile_cons_of_neg (by simpa using stop)]
    · rw [if_neg blank, if_neg (by simp), List.takeWhile_cons, List.takeWhile_cons, ih]

theorem wordAt_here (p t : Text) : wordAt (p ++ t) p.length =
    if p.getLast?.any isWordChar then [] else upper (t.takeWhile isWordChar) := by
  rw [wordAt, List.take_left, List.drop_left]

theorem wordAt_collapseMarks (depth : Nat) (gap inner : Bool) (p p' x : Text)
    (passed : gap → p.getLast?.any isWordChar = false)
    (started : inner = false → p'.getLast?.any isWordChar = false)
    (same : gap = false → p'.getLast?.any isWordChar = p.getLast?.any isWordChar) (n : Nat) :
    ∃ j, wordAt (p' ++ collapseMarks gap inner (flatMarks depth x)) (p'.length + n) = wordAt (p ++ x) j := by
  induction x generalizing gap inner p p' n with
  | nil => exact ⟨p.length, by simp [flatMarks, collapseMarks, wordAt, upper]⟩
  | cons c x ih =>
    have shift : p ++ c :: x = p ++ [c] ++ x := by simp
    rw [flatMarks, List.map_cons, collapseMarks, isGap_flat, ← flatMarks]
    by_cases blank : isBlank c
    · have noWord : (p ++ [c]).getLast?.any isWordChar = false := by simp [isWordChar_of_isBlank c blank]
      rw [if_pos blank, shift]
      exact ih true inner (p ++ [c]) p' (fun _ => noWord) started (by simp) n
    · have here (b : Bool) (before : b = p.getLast?.any isWordChar) :
          (if b then [] else upper ((c :: collapseMarks false true (flatMarks depth x)).takeWhile isWordChar)) =
            wordAt (p ++ c :: x) p.length := by
        rw [wordAt_here, before, List.takeWhile_cons, List.takeWhile_cons, takeWhile_collapse]
      have later (q : Text) (n : Nat) : ∃ j, wordAt (q ++ c :: collapseMarks false true (flatMarks depth x))
          (q.length + (n + 1)) = wordAt (p ++ c :: x) j := by
        obtain ⟨j, word⟩ := ih false true (p ++ [c]) (q ++ [c]) (by simp) (by simp) (by simp) n
        refine ⟨j, ?_⟩
        rw [shift, ← word, List.append_assoc, List.singleton_append, List.length_append, List.length_singleton]
        congr 1
        omega
      rw [if_neg blank]
      by_cases parted : gap && inner
      · have space : p' ++ ' ' :: c :: collapseMarks false true (flatMarks depth x) =
            p' ++ [' '] ++ c :: collapseMarks false true (flatMarks depth x) := by simp
        rw [if_pos parted]
        rcases n with _ | _ | n
        · refine ⟨(p ++ c :: x).length, ?_⟩
          rw [Nat.add_zero, wordAt_here, wordAt_end, List.takeWhile_cons_of_neg (by decide)]
          exact ite_self _
        · refine ⟨p.length, ?_⟩
          have length : p'.length + (0 + 1) = (p' ++ [' ']).length := by simp
          rw [space, length, wordAt_here, here]
          rw [passed (Bool.and_eq_true _ _ ▸ parted).1]
          simp
          decide
        · have length : p'.length + (n + 1 + 1) = (p' ++ [' ']).length + (n + 1) := by simp; omega
          rw [space, length]
          exact later _ n
      · rw [if_neg parted]
        cases n with
        | zero =>
          refine ⟨p.length, ?_⟩
          rw [Nat.add_zero, wordAt_here, here]
          cases gap with
          | false => exact same rfl
          | true => rw [started (by simpa using parted), passed rfl]
        | succ n => exact later p' n

theorem wordAt_collapse (depth : Nat) (x : Text) (i : Nat) :
    ∃ j, wordAt (collapseMarks false false (flatMarks depth x)) i = wordAt x j := by
  have words := wordAt_collapseMarks depth false false [] [] x (by simp) (fun _ => rfl) (fun _ => rfl) i
  simpa using words

theorem wordAt_collapse_start (depth : Nat) (gap : Bool) (x : Text) :
    wordAt (collapseMarks gap false (flatMarks depth x)) 0 = wordAt (trimStart x) 0 := by
  induction x generalizing gap with
  | nil => rfl
  | cons c x ih =>
    rw [flatMarks, List.map_cons, collapseMarks, isGap_flat, ← flatMarks, trimStart, List.dropWhile_cons]
    by_cases blank : isBlank c
    · rw [if_pos blank, if_pos blank, ih true, trimStart]
    · rw [if_neg blank, if_neg blank, Bool.and_false, if_neg Bool.false_ne_true, wordAt, wordAt, List.drop_zero,
        List.drop_zero, List.takeWhile_cons, List.takeWhile_cons, takeWhile_collapse]
      rfl

theorem mem_collapseMarks {c : Char} {gap inner : Bool} (member : c ∈ collapseMarks gap inner (flatMarks depth x)) :
    c = ' ' ∨ c ∈ x := by
  induction x generalizing gap inner with
  | nil => cases member
  | cons d x ih =>
    rw [flatMarks, List.map_cons, collapseMarks, ← flatMarks] at member
    split at member
    · exact (ih member).imp_right (List.mem_cons_of_mem _)
    · have later (member : c ∈ d :: collapseMarks false true (flatMarks depth x)) : c = ' ' ∨ c ∈ d :: x := by
        rcases List.mem_cons.mp member with rfl | inRest
        · exact .inr (by simp)
        · exact (ih inRest).imp_right (List.mem_cons_of_mem _)
      split at member
      · rcases List.mem_cons.mp member with rfl | inRest
        · exact .inl rfl
        · exact later inRest
      · exact later member

theorem mem_collapseMarks_of_ink {c : Char} (gap inner : Bool) (member : c ∈ x) (ink : isBlank c = false) :
    c ∈ collapseMarks gap inner (flatMarks depth x) := by
  induction x generalizing gap inner with
  | nil => cases member
  | cons d x ih =>
    rw [flatMarks, List.map_cons, collapseMarks, isGap_flat, ← flatMarks]
    rcases List.mem_cons.mp member with rfl | inRest
    · rw [if_neg (by simp [ink])]
      split <;> simp
    · split
      · exact ih true inner inRest
      · split <;> simp [ih false true inRest]

theorem head?_collapseMarks (gap : Bool) (x : Text) :
    ∀ c ∈ (collapseMarks gap false (flatMarks depth x)).head?, isBlank c = false := by
  induction x generalizing gap with
  | nil => simp [flatMarks, collapseMarks]
  | cons d x ih =>
    rw [flatMarks, List.map_cons, collapseMarks, isGap_flat, ← flatMarks]
    split
    · exact ih true
    · rename_i ink
      simpa using ink

theorem getLast?_collapseMarks (gap inner : Bool) (x : Text) :
    ∀ c ∈ (collapseMarks gap inner (flatMarks depth x)).getLast?, isBlank c = false := by
  induction x generalizing gap inner with
  | nil => simp [flatMarks, collapseMarks]
  | cons d x ih =>
    rw [flatMarks, List.map_cons, collapseMarks, isGap_flat, ← flatMarks]
    split
    · exact ih true inner
    · rename_i ink
      have later : ∀ c ∈ (d :: collapseMarks false true (flatMarks depth x)).getLast?, isBlank c = false := by
        intro c last
        rw [List.getLast?_cons] at last
        cases rest : (collapseMarks false true (flatMarks depth x)).getLast? with
        | none =>
          rw [rest] at last
          obtain rfl : d = c := by simpa using last
          simpa using ink
        | some e =>
          rw [rest] at last
          obtain rfl : e = c := by simpa using last
          exact ih false true e rest
      split
      · rw [List.getLast?_cons_cons]
        exact later
      · exact later

theorem collapseMarks_collapsed (gap inner : Bool) (x : Text) :
    collapseMarks false inner (flatMarks depth (collapseMarks gap inner (flatMarks depth x))) =
      collapseMarks gap inner (flatMarks depth x) := by
  induction x generalizing gap inner with
  | nil => rfl
  | cons d x ih =>
    have here : collapseMarks gap inner (flatMarks depth (d :: x)) = if isBlank d then
        collapseMarks true inner (flatMarks depth x) else if gap && inner then
          ' ' :: d :: collapseMarks false true (flatMarks depth x)
          else d :: collapseMarks false true (flatMarks depth x) := by
      rw [flatMarks, List.map_cons, collapseMarks, isGap_flat, ← flatMarks]
    rw [here]
    by_cases blank : isBlank d
    · rw [if_pos blank]
      exact ih true inner
    · rw [if_neg blank]
      by_cases parted : gap && inner
      · obtain rfl : inner = true := (Bool.and_eq_true _ _ ▸ parted).2
        rw [if_pos parted]
        conv_lhs => rw [flatMarks, List.map_cons, List.map_cons, collapseMarks, isGap_flat, ← flatMarks,
          if_pos (by decide), collapseMarks, isGap_flat, if_neg blank, Bool.and_self, if_pos rfl, ih false true]
      · rw [if_neg parted]
        conv_lhs => rw [flatMarks, List.map_cons, collapseMarks, isGap_flat, ← flatMarks, if_neg blank,
          if_neg (by simp), ih false true]

theorem getLast?_collapse (gap inner : Bool) (x : Text) :
    (collapseMarks gap inner (flatMarks depth x)).getLast? = (x.filter (!isBlank ·)).getLast? := by
  have ink : (partedInk gap inner (flatMarks depth x)).map (·.2.char) = x.filter (!isBlank ·) := by
    have written := congrArg (List.map Mark.char) (ink_of_parted gap inner (flatMarks depth x))
    rw [List.map_map] at written
    rw [← Function.comp_def, written, flatMarks, List.filter_map, List.map_map]
    simp [Function.comp_def, isGap_flat]
  rw [collapseMarks_eq, ← ink]
  generalize partedInk gap inner (flatMarks depth x) = ws
  rcases List.eq_nil_or_concat ws with rfl | ⟨ws, w, rfl⟩
  · rfl
  · rw [List.concat_eq_append, List.flatMap_append, List.map_append]
    simp only [List.flatMap_cons, List.flatMap_nil, List.append_nil, List.map_cons, List.map_nil, List.getLast?_concat]
    split <;> simp [List.getLast?_append]

structure Tame (x : Text) : Prop where
  head : ∃ c, x.head? = some c ∧ isBlank c = false
  last : ∃ c, x.getLast? = some c ∧ isBlank c = false
  chars : ∀ c ∈ x, Role.of c [] = .plain
  word : ∀ i w, [w] ∈ rangeStops → wordAt x i ≠ w
  collapsed : collapseMarks false false (flatMarks 0 x) = x

structure TameTested (x : Text) : Prop extends Tame x where
  apart : wordAt x 0 = "NULL".toList → ∀ k ∈ conditionEnds, ∀ i, wordAt x i ≠ k.headD []

structure TameBound (y : Text) : Prop extends Tame y where
  noEnd : ∀ i, wordAt y i ≠ "END".toList
  semicolon : y.getLast? ≠ some ';'

theorem role_of_code {s : ScanState} {x : Text} (code : s.mode = .code) (kinds : ∀ m ∈ s.marks x, m.kind = .code)
    (flat : ∀ c ∈ x, c ≠ '(' ∧ c ≠ ')') : ∀ c ∈ x, Role.of c [] = .plain := by
  induction x with
  | nil => simp
  | cons c x ih =>
    have here := kinds (s.mark c x) (by simp [ScanState.marks])
    obtain ⟨-, next⟩ := next_of_code code here (flat c (by simp))
    intro d member
    rcases List.mem_cons.mp member with rfl | inRest
    · rw [ScanState.calm_of_free (by simp [here]) |>.1, ScanState.mark, code] at here
      cases role : Role.of d [] with
      | plain => rfl
      | opening => exact absurd (char_of_opening role) (flat d (by simp)).1
      | closing => exact absurd (char_of_closing role) (flat d (by simp)).2
      | lineComment | blockComment | quote => simp [role] at here
    · refine ih (fun m inMarks => kinds m ?_) (fun d member => flat d (by simp [member])) d inRest
      rw [ScanState.marks, next]
      exact List.mem_cons_of_mem _ inMarks

theorem Term.tame (term : Term x) : Tame (collapse x) := by
  have full : collapse x ≠ [] := by
    obtain ⟨c, member, ink⟩ := term.full
    rw [term.collapse_eq]
    exact List.ne_nil_of_mem (mem_collapseMarks_of_ink false false member ink)
  obtain ⟨c, head⟩ : ∃ c, (collapse x).head? = some c := by
    obtain ⟨c, rest, parts⟩ := List.exists_cons_of_ne_nil full
    exact ⟨c, by rw [parts, List.head?_cons]⟩
  obtain ⟨d, last⟩ := Option.isSome_iff_exists.mp (List.getLast?_isSome.mpr full)
  rw [term.collapse_eq] at head last ⊢
  refine ⟨⟨c, head, head?_collapseMarks false x c head⟩, ⟨d, last, getLast?_collapseMarks false false x d last⟩, ?_, ?_,
    collapseMarks_collapsed false false x⟩
  · intro e member
    rcases mem_collapseMarks member with rfl | inText
    · decide
    · exact role_of_code (s := {}) rfl term.code term.flat e inText
  · intro i w stop
    obtain ⟨j, same⟩ := wordAt_collapse 0 x i
    rw [same]
    have all : ∀ k ∈ rangeStops, IsKeyword k := by decide
    exact term.word term.lacks stop (all _ stop) j

theorem Tested.tame (tested : Tested x) : TameTested (collapse x) where
  toTame := tested.toTerm.tame
  apart null k member i := by
    have first : wordAt (trimStart x) 0 = "NULL".toList := by
      rwa [tested.collapse_eq, wordAt_collapse_start] at null
    have stops : ∀ k ∈ conditionEnds, IsKeyword [k.headD []] := by decide
    rw [tested.collapse_eq]
    obtain ⟨j, same⟩ := wordAt_collapse 0 x i
    rw [same]
    exact tested.toTerm.word (tested.apart first) (List.mem_map_of_mem member) (stops k member) j

theorem LowerBound.tame (lower : LowerBound y) : TameBound (collapse y) where
  toTame := lower.toTerm.tame
  noEnd i := by
    rw [lower.collapse_eq]
    obtain ⟨j, same⟩ := wordAt_collapse 0 y i
    rw [same]
    exact lower.toTerm.word lower.noEnd (List.mem_singleton.mpr rfl) (by decide) j
  semicolon := by
    rw [lower.collapse_eq, getLast?_collapse]
    exact lower.last

end Squeezed
section Range

variable {x y f m b t : Text} {depth : Nat}

theorem collapseMarks_word (depth : Nat) (gap : Bool) {c : Char} {w : Text}
    (bare : ∀ d ∈ c :: w, isBlank d = false) (ns : Marks) :
    collapseMarks gap true (flatMarks depth (' ' :: c :: w) ++ ns) = ' ' :: c :: w ++ collapseMarks false true ns := by
  have last : ((flatMarks depth (' ' :: c :: w)).getLast?.map Mark.isGap).getD gap = false := by
    obtain ⟨d, last⟩ := Option.isSome_iff_exists.mp (List.getLast?_isSome.mpr (List.cons_ne_nil c w))
    rw [flatMarks, List.getLast?_map, List.getLast?_cons_cons, last, Option.map_some, Option.map_some, isGap_flat,
      bare d (List.mem_of_getLast? last), Option.getD_some]
  have written : collapseMarks gap true (flatMarks depth (' ' :: c :: w)) = ' ' :: c :: w := by
    rw [flatMarks, List.map_cons, List.map_cons, collapseMarks, isGap_flat, if_pos (by decide), collapseMarks, isGap_flat,
      if_neg (by simp [bare c (by simp)]), Bool.and_self, if_pos rfl,
      collapseMarks_bare fun d member => bare d (by simp [member])]
  rw [collapseMarks_append, last, written, Bool.true_or]

theorem collapseMarks_operand (depth : Nat) (full : ∃ c ∈ x, isBlank c = false) (ns : Marks) : ∃ gap,
    collapseMarks false false (flatMarks depth x ++ ns) =
      collapseMarks false false (flatMarks depth x) ++ collapseMarks gap true ns := by
  have ink : (flatMarks depth x).any (!·.isGap) = true := by
    obtain ⟨m, member, ink⟩ := ink_of_full depth full
    exact List.any_eq_true.mpr ⟨m, member, by rw [ink]; rfl⟩
  exact ⟨_, by rw [collapseMarks_append, ink, Bool.or_true]⟩

theorem collapseMarks_bound (depth : Nat) (full : ∃ c ∈ y, isBlank c = false) (ns : Marks) : ∃ gap,
    collapseMarks false true (flatMarks depth (' ' :: y) ++ ns) =
      ' ' :: collapseMarks false false (flatMarks depth y) ++ collapseMarks gap true ns := by
  have start := collapseMarks_start true true (ink_of_full depth full)
  have written : collapseMarks false true (flatMarks depth (' ' :: y)) =
    ' ' :: collapseMarks false false (flatMarks depth y) := by
    rw [flatMarks, List.map_cons, collapseMarks, isGap_flat, if_pos (by decide), ← flatMarks, start]
    rfl
  exact ⟨_, by rw [collapseMarks_append, written, Bool.true_or]⟩

theorem collapse_nullRange (full : ∃ c ∈ x, isBlank c = false) (full' : ∃ c ∈ y, isBlank c = false) :
    collapseMarks false false (flatMarks depth (nullRange x y)) =
      nullRange (collapseMarks false false (flatMarks depth x)) (collapseMarks false false (flatMarks depth y)) := by
  have parts : nullRange x y = x ++ (" BETWEEN".toList ++ (' ' :: y ++ (" AND".toList ++ " NULL".toList))) := by
    simp [nullRange]
  obtain ⟨gap, first⟩ := collapseMarks_operand depth full
    (flatMarks depth (" BETWEEN".toList ++ (' ' :: y ++ (" AND".toList ++ " NULL".toList))))
  obtain ⟨gap', second⟩ := collapseMarks_bound depth full' (flatMarks depth (" AND".toList ++ " NULL".toList))
  have between := collapseMarks_word depth gap (c := 'B') (w := "ETWEEN".toList) (by decide)
    (flatMarks depth (' ' :: y ++ (" AND".toList ++ " NULL".toList)))
  have conjunction := collapseMarks_word depth gap' (c := 'A') (w := "ND".toList) (by decide)
    (flatMarks depth " NULL".toList)
  have null := collapseMarks_word depth false (c := 'N') (w := "ULL".toList) (by decide) []
  rw [List.append_nil] at null
  rw [parts, flatMarks_append, first, flatMarks_append,
    show " BETWEEN".toList = ' ' :: 'B' :: "ETWEEN".toList from rfl, between, flatMarks_append, second, flatMarks_append,
    show " AND".toList = ' ' :: 'A' :: "ND".toList from rfl, conjunction,
    show " NULL".toList = ' ' :: 'N' :: "ULL".toList from rfl, null]
  simp [nullRange, collapseMarks]

theorem collapse_openRange (full : ∃ c ∈ x, isBlank c = false) (full' : ∃ c ∈ y, isBlank c = false) :
    collapseMarks false false (flatMarks depth (openRange x y)) =
      openRange (collapseMarks false false (flatMarks depth x)) (collapseMarks false false (flatMarks depth y)) := by
  have parts : openRange x y = x ++ (" BETWEEN".toList ++ (' ' :: y)) := by simp [openRange]
  obtain ⟨gap, first⟩ := collapseMarks_operand depth full (flatMarks depth (" BETWEEN".toList ++ (' ' :: y)))
  obtain ⟨gap', second⟩ := collapseMarks_bound depth full' []
  have between := collapseMarks_word depth gap (c := 'B') (w := "ETWEEN".toList) (by decide)
    (flatMarks depth (' ' :: y))
  rw [List.append_nil] at second
  rw [parts, flatMarks_append, first, flatMarks_append,
    show " BETWEEN".toList = ' ' :: 'B' :: "ETWEEN".toList from rfl, between, second]
  simp [openRange, collapseMarks]

end Range
section Words

variable {x y t u : Text} {i j : Nat}

theorem nullRange_eq (x y : Text) : nullRange x y = openRange x y ++ " AND NULL".toList := by
  simp [nullRange, openRange]

theorem wordAt_beyond (beyond : t.length ≤ i) : wordAt t i = [] := by
  simp [wordAt, List.drop_eq_nil_of_le beyond, upper]

theorem word_openRange (first : Tame x) (second : Tame y) {w : Text} (stop : [w] ∈ rangeStops)
    (here : wordAt (openRange x y) i = w) : w = "BETWEEN".toList := by
  by_cases inFirst : i < x.length
  · rw [openRange, wordAt_left (.inr rfl) inFirst] at here
    exact absurd here (first.word i w stop)
  obtain ⟨k, rfl⟩ := Nat.exists_eq_add_of_le (Nat.le_of_not_lt inFirst)
  rw [openRange, wordAt_right (.inr rfl)] at here
  by_cases inWord : k < " BETWEEN ".toList.length
  · rw [wordAt_left (.inl (by decide)) inWord] at here
    have words : ∀ k < " BETWEEN ".toList.length, wordAt " BETWEEN ".toList k = [] ∨
        wordAt " BETWEEN ".toList k = "BETWEEN".toList := by decide
    rcases words k inWord with none | between
    · rw [none] at here
      subst here
      exact absurd stop (by decide)
    · rw [← here, between]
  · obtain ⟨l, rfl⟩ := Nat.exists_eq_add_of_le (Nat.le_of_not_lt inWord)
    rw [wordAt_right (.inl (by decide))] at here
    exact absurd here (second.word l w stop)

theorem word_nullRange (first : Tame x) (second : Tame y) {w : Text} (stop : [w] ∈ rangeStops)
    (here : wordAt (nullRange x y) i = w) :
    w = "BETWEEN".toList ∨ w = "AND".toList ∧ i = (openRange x y).length + 1 := by
  rw [nullRange_eq] at here
  by_cases inFirst : i < (openRange x y).length
  · rw [wordAt_left (.inr rfl) inFirst] at here
    exact .inl (word_openRange first second stop here)
  obtain ⟨k, rfl⟩ := Nat.exists_eq_add_of_le (Nat.le_of_not_lt inFirst)
  rw [wordAt_right (.inr rfl)] at here
  by_cases inText : k < " AND NULL".toList.length
  · have words : ∀ k < " AND NULL".toList.length, wordAt " AND NULL".toList k = [] ∨
        wordAt " AND NULL".toList k = "NULL".toList ∨ wordAt " AND NULL".toList k = "AND".toList ∧ k = 1 := by decide
    rcases words k inText with none | null | ⟨conjunction, rfl⟩
    · rw [none] at here
      subst here
      exact absurd stop (by decide)
    · rw [null] at here
      subst here
      exact absurd stop (by decide)
    · exact .inr ⟨by rw [← here, conjunction], rfl⟩
  · rw [wordAt_beyond (Nat.le_of_not_lt inText)] at here
    subst here
    exact absurd stop (by decide)

theorem word_of_ends (ends : endsCondition t) (full : t ≠ []) (open_ : t.head? ≠ some ')') :
    ∃ k ∈ conditionEnds, wordAt t 0 = k.headD [] := by
  rcases endsCondition_iff.mp ends with empty | closing | ⟨k, member, w, r, rfl, spells, after⟩
  · exact absurd empty full
  · exact absurd closing open_
  · have isKeyword := isKeyword_conditionEnds k member
    have found : (cursorAt (w ++ r) 0).keyword? k = some (cursorAt (w ++ r) w.length) := by
      refine (keyword?_cursorAt_iff isKeyword (Nat.zero_le _)).mpr ⟨w.length, Nat.zero_le _, by simp, ?_, rfl, ?_, rfl⟩
      · rwa [slice, List.take_left, List.drop_zero]
      · rwa [List.drop_left]
    have capitals : ∀ k ∈ conditionEnds, upper (k.headD []) = k.headD [] := by decide
    exact ⟨k, member, (wordAt_of_keyword isKeyword (Nat.zero_le _) found).trans (capitals k member)⟩

theorem length_wordAt (t : Text) (i : Nat) : (wordAt t i).length ≤ t.length - i := by
  rw [wordAt]
  split
  · exact Nat.zero_le _
  · have short := (List.takeWhile_sublist isWordChar (l := t.drop i)).length_le
    simpa [upper] using short

/-- No condition ends behind the first operand of a range, whatever word it begins with. -/
theorem not_ends_behind_null (first : TameTested x) (null : wordAt x 0 = "NULL".toList) (v : Text) :
    ¬endsCondition (trimStart (x.drop 4 ++ (" BETWEEN ".toList ++ v))) := by
  intro ends
  have parts := List.takeWhile_append_dropWhile (p := isBlank) (l := x.drop 4)
  have blank : ∀ c ∈ (x.drop 4).takeWhile isBlank, isBlank c := fun c member => List.mem_takeWhile_imp member
  have inked := List.head?_dropWhile_not isBlank (x.drop 4)
  rw [← trimStart] at parts inked
  by_cases more : trimStart (x.drop 4) = []
  · have blankAll : ∀ c ∈ x.drop 4, isBlank c := by
      rw [more, List.append_nil] at parts
      rwa [parts] at blank
    have start : trimStart (x.drop 4 ++ (" BETWEEN ".toList ++ v)) = "BETWEEN".toList ++ (' ' :: v) := by
      rw [trimStart, List.dropWhile_append_of_pos blankAll]
      rfl
    rw [start] at ends
    obtain ⟨k, member, word⟩ := word_of_ends ends (by simp) (by simp)
    rw [wordAt_left (.inr rfl) (by decide)] at word
    revert word member k
    decide
  · rw [trimStart_append more] at ends
    obtain ⟨c, rest, start⟩ := List.exists_cons_of_ne_nil more
    have inText : c ∈ x := by
      have suffix : trimStart (x.drop 4) <:+ x := (List.dropWhile_suffix _).trans (List.drop_suffix 4 x)
      exact suffix.subset (by rw [start]; simp)
    have head : (trimStart (x.drop 4) ++ (" BETWEEN ".toList ++ v)).head? = some c := by rw [start]; rfl
    obtain ⟨k, member, word⟩ := word_of_ends ends (by rw [start]; simp) (by
      rw [head]
      rintro same
      obtain rfl := Option.some.inj same
      have role := first.chars ')' inText
      revert role
      decide)
    rw [wordAt_left (.inr rfl) (by rw [start]; simp)] at word
    -- the word stands in the operand itself
    have whole : x = (x.take 4 ++ (x.drop 4).takeWhile isBlank) ++ trimStart (x.drop 4) := by
      rw [List.append_assoc, parts, List.take_append_drop]
    have divided : Divided (x.take 4 ++ (x.drop 4).takeWhile isBlank) (trimStart (x.drop 4)) := by
      cases blanks : (x.drop 4).takeWhile isBlank with
      | nil =>
        right
        rw [blanks, List.nil_append] at parts
        have run : (x.takeWhile isWordChar).length = 4 := by
          have length := congrArg List.length null
          rw [wordAt, List.take_zero, List.drop_zero, List.getLast?_nil, Option.any_none,
            if_neg Bool.false_ne_true] at length
          simpa [upper] using length
        have stop := List.head?_dropWhile_not isWordChar x
        rw [← drop_length_takeWhile, run] at stop
        rw [parts]
        cases head : (x.drop 4).head? with
        | none => rfl
        | some c =>
          rw [head] at stop
          simpa using stop
      | cons c blanks' =>
        left
        rw [getLast?_append_of_ne_nil (by simp), ← blanks]
        exact any_eq_false fun c last => isWordChar_of_isBlank c (blank c (List.mem_of_getLast? last))
    have same := wordAt_right divided 0
    rw [← whole, word] at same
    exact first.apart null k member _ same

end Words
end QueryChain
