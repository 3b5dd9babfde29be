import QueryChain.Proofs.Keyword.Spans
import QueryChain.Proofs.Woven.Pieces

namespace QueryChain

section Groups

variable {w : Weave} {s : ScanState} {c d : Char} {t u : Text} {f : Mark → Bool} {ms : Marks} {m : Mark}

def through? (f : Mark → Bool) : Marks → Option (Text × Text)
  | [] => none
  | m :: ms =>
    if f m then some ([m.char], markText ms)
    else (through? f ms).map fun (passed, after) => (m.char :: passed, after)

theorem through?_eq (f : Mark → Bool) (ms : Marks) : through? f ms = match ms.dropWhile (!f ·) with
    | [] => none
    | m :: after => some (markText (ms.takeWhile (!f ·)) ++ [m.char], markText after) := by
  induction ms with
  | nil => rfl
  | cons m ms ih =>
    rw [through?]
    by_cases answers : f m
    · simp [answers, markText]
    · rw [if_neg answers, ih, List.dropWhile_cons_of_pos (by simpa using answers),
        List.takeWhile_cons_of_pos (by simpa using answers)]
      cases ms.dropWhile (!f ·) <;> rfl

theorem through?_append {r : Text × Text} (found : through? f ms = some r) : markText ms = r.1 ++ r.2 := by
  induction ms generalizing r with
  | nil => cases found
  | cons m ms ih =>
    rw [through?] at found
    split at found
    · cases found
      rfl
    · obtain ⟨r', found', rfl⟩ := Option.map_eq_some_iff.mp found
      exact congrArg (m.char :: ·) (ih found')

theorem through?_quoted (quoted : ∀ a n, f ⟨a, n, .quoted⟩ = false) (x : Text) (n : Nat) (ms : Marks) :
    through? f (x.map (fun a => (⟨a, n, .quoted⟩ : Mark)) ++ ms) = (through? f ms).map fun r => (x ++ r.1, r.2) := by
  induction x with
  | nil =>
    rw [List.map_nil, List.nil_append]
    cases through? f ms <;> rfl
  | cons a x ih =>
    rw [List.map_cons, List.cons_append, through?, quoted, if_neg Bool.false_ne_true, ih, Option.map_map]
    rfl

theorem Woven.rel_through? (folds : FoldsMarks f) (quoted : ∀ a n, f ⟨a, n, .quoted⟩ = false)
    (code : ∀ m, f m = true → m.isCode) (woven : Woven w s t u) (proper : s.Proper) :
    Option.Rel (fun r r' => Woven w s r.1 r'.1 ∧ Woven w {} r.2 r'.2) (through? f (s.marks t)) (through? f (s.marks u)) := by
  induction woven with
  | nil s => exact .none
  | @char s c d t u same dashes rest ih =>
    rw [rest.marks_cons proper same, ScanState.marks, through?, through?, folds.mark same s t]
    by_cases answers : f (s.mark c t)
    · rw [if_pos answers, if_pos answers, ScanState.mark_char, ScanState.markText_marks]
      have first : Woven w s [c] [d] := .cons_cut (p := []) (q := t) same dashes (.nil _)
      have behind : Woven w {} t u := rest.of_mode (code_behind (code _ answers))
      rw [← rest.next_eq proper same, ScanState.markText_marks]
      exact .some ⟨first, behind⟩
    · rw [if_neg answers, if_neg answers, ScanState.mark_char]
      have more := ih (proper.next c t)
      generalize left : through? f ((s.next c t).marks t) = o at more
      generalize through? f ((s.next c t).marks u) = o' at more
      cases more with
      | none => exact .none
      | @some r r' related =>
        have whole : t = r.1 ++ r.2 := by rw [← through?_append left, ScanState.markText_marks]
        exact .some ⟨.cons_cut (q := r.2) same (by rwa [← whole]) (by rw [← whole]; exact related.1), related.2⟩
  | @literal s t u quiet mode rest ih =>
    rw [marks_literal w.inert mode, marks_literal w.inert' mode, through?_quoted quoted, through?_quoted quoted]
    exact rel_map (ih proper) fun _ _ same => ⟨.literal quiet mode same.1, same.2⟩

theorem mode_next_opening (t : Text) : (({} : ScanState).next '(' t).mode = .code := by
  simp [ScanState.next, role_opening]

theorem leadingGroup?_eq (scanned : scan t = m :: ms) :
    leadingGroup? t = (through? (Mark.isTopOf ')') ms).map fun (passed, after) => (m.char :: passed, after) := by
  rw [leadingGroup?, scanned, through?_eq]
  dsimp only
  cases ms.dropWhile (!·.isTopOf ')') <;> rfl

theorem rel_leadingGroup? (woven : Woven w {} t u) (opens : t.head? = some '(') :
    Option.Rel (fun r r' => Woven w {} r.1 r'.1 ∧ Woven w {} r.2 r'.2) (leadingGroup? t) (leadingGroup? u) := by
  cases woven with
  | nil => cases opens
  | @char _ c d t u same dashes rest =>
    rw [leadingGroup?_eq rfl, leadingGroup?_eq (rest.marks_cons proper_start same), ScanState.mark_char]
    have found := rest.rel_through? (f := Mark.isTopOf ')') (foldsMarks_isTopOf (by decide))
      (fun a n => by simp [Mark.isTopOf, Mark.isTop, Mark.isCode]) (fun _ => isCode_of_isTopOf) (proper_start.next c t)
    generalize left : through? (Mark.isTopOf ')') ((({} : ScanState).next c t).marks t) = o at found
    generalize through? (Mark.isTopOf ')') ((({} : ScanState).next c t).marks u) = o' at found
    cases found with
    | none => exact .none
    | @some r r' related =>
      have whole : t = r.1 ++ r.2 := by rw [← through?_append left, ScanState.markText_marks]
      exact .some ⟨.cons_cut (q := r.2) same (by rwa [← whole]) (by rw [← whole]; exact related.1), related.2⟩
  | literal => cases opens

theorem Woven.opensQuery_eq (woven : Woven w {} t u) : opensQuery t = opensQuery u := by
  have other (c : Char) (t : Text) (no : c ≠ '(') : opensQuery (c :: t) = false := by
    rw [opensQuery]
    intro inner eq
    exact no (List.cons.inj eq).1
  cases woven with
  | nil => rfl
  | @char _ c d t u same dashes rest =>
    by_cases opens : c = '('
    · obtain rfl : d = '(' := (eq_iff_of_sameLetter (w.letter same) (by decide)).mp opens
      subst opens
      have mode := mode_next_opening t
      have inner : Woven w {} (QueryChain.trimStart t) (QueryChain.trimStart u) := (rest.trimStart mode).of_mode mode
      exact inner.startsWithKeyword (by decide)
    · have opens' : d ≠ '(' := (eq_iff_of_sameLetter (w.letter same) (by decide)).not.mp opens
      rw [other c t opens, other d u opens']
  | literal => rfl

theorem Woven.trimStart_code (woven : Woven w s t u) (head : ∀ m ∈ (s.marks t).head?, m.isCode) :
    Woven w {} (QueryChain.trimStart t) (QueryChain.trimStart u) := by
  by_cases code : s.mode = .code
  · exact (woven.trimStart code).of_mode code
  · cases woven with
    | nil => exact .nil {}
    | @char _ c d t u same dashes rest =>
      have isCode : (s.mark c t).isCode := head _ rfl
      obtain rfl : c = '\n' := by
        by_contra letter
        exact code (s.mode_of_code c t letter isCode)
      obtain rfl : d = '\n' := (eq_iff_of_sameLetter (w.letter same) (by decide)).mp rfl
      have mode := code_behind isCode
      exact (rest.trimStart mode).of_mode mode
    | literal _ code' _ => exact absurd code' code

end Groups
section Sections

variable {w : Weave} {t u : Text}

theorem rel_selectSection? (woven : Woven w {} t u) :
    Option.Rel (fun r r' => r.1 = r'.1 ∧ Woven w {} r.2 r'.2) (selectSection? t) (selectSection? u) := by
  refine rel_map (rel_section? (by decide) (by decide) woven) fun body body' related => ?_
  have distinct := rel_afterKeyword? (k := ["DISTINCT"]) (by decide) related
  have all := rel_afterKeyword? (k := ["ALL"]) (by decide) related
  generalize afterKeyword? ["DISTINCT"] body = o at distinct
  generalize afterKeyword? ["DISTINCT"] body' = o' at distinct
  generalize afterKeyword? ["ALL"] body = a at all
  generalize afterKeyword? ["ALL"] body' = a' at all
  cases distinct with
  | some list => exact ⟨rfl, list.trim rfl⟩
  | none =>
    cases all with
    | some list => exact ⟨rfl, list.trim rfl⟩
    | none => exact ⟨rfl, related⟩

theorem rel_updateTarget? (woven : Woven w {} t u) : Option.Rel (Woven w {}) (updateTarget? t) (updateTarget? u) :=
  rel_map (rel_find? (by decide) woven.aligned_start) fun _ _ related =>
    ((related.2.skipAny (by decide)).upTo (by decide)).trim rfl

structure Weave.DeleteParts (w : Weave) (p p' : DeleteParts) : Prop where
  targets : List.Forall₂ (Woven w {}) p.targets p'.targets
  source : Option.Rel (Woven w {}) p.source p'.source

theorem rel_deleteParts? (woven : Woven w {} t u) : Option.Rel w.DeleteParts (deleteParts? t) (deleteParts? u) := by
  refine rel_map (rel_find? (by decide) woven.aligned_start) fun r r' related => ?_
  have skipped : w.Aligned (r.2.skipAny [["LOW_PRIORITY"], ["QUICK"], ["IGNORE"]])
      (r'.2.skipAny [["LOW_PRIORITY"], ["QUICK"], ["IGNORE"]]) := related.2.skipAny (by decide)
  have found := rel_find? (show ∀ k ∈ ([["FROM"]] : List Keyword), IsKeyword k by decide) skipped
  dsimp only
  generalize (r.2.skipAny [["LOW_PRIORITY"], ["QUICK"], ["IGNORE"]]).find? [["FROM"]] = o at found
  generalize (r'.2.skipAny [["LOW_PRIORITY"], ["QUICK"], ["IGNORE"]]).find? [["FROM"]] = o' at found
  cases found with
  | none => exact ⟨.nil, .none⟩
  | some targets => exact ⟨targets.1.splitTop (by decide), rel_section? (by decide) (by decide) woven⟩

inductive Weave.Body (w : Weave) : InsertBody → InsertBody → Prop
  | values {t u : Text} (woven : Woven w {} t u) : w.Body (.values t) (.values u)
  | set {t u : Text} (woven : Woven w {} t u) : w.Body (.set t) (.set u)
  | query {t u : Text} (woven : Woven w {} t u) : w.Body (.query t) (.query u)
  | missing : w.Body .missing .missing

theorem Woven.insertBody (woven : Woven w {} t u) : w.Body (insertBody t) (insertBody u) := by
  have values : Option.Rel (Woven w {}) ((afterKeyword? ["VALUES"] t).or (afterKeyword? ["VALUE"] t))
      ((afterKeyword? ["VALUES"] u).or (afterKeyword? ["VALUE"] u)) := by
    have many := rel_afterKeyword? (k := ["VALUES"]) (by decide) woven
    generalize afterKeyword? ["VALUES"] t = o at many
    generalize afterKeyword? ["VALUES"] u = o' at many
    cases many with
    | some list => exact .some list
    | none => exact rel_afterKeyword? (by decide) woven
  have pairs := rel_afterKeyword? (k := ["SET"]) (by decide) woven
  rw [QueryChain.insertBody, QueryChain.insertBody]
  generalize (afterKeyword? ["VALUES"] t).or (afterKeyword? ["VALUE"] t) = o at values
  generalize (afterKeyword? ["VALUES"] u).or (afterKeyword? ["VALUE"] u) = o' at values
  generalize afterKeyword? ["SET"] t = a at pairs
  generalize afterKeyword? ["SET"] u = a' at pairs
  cases values with
  | some list => exact .values (list.trim rfl)
  | none =>
    cases pairs with
    | some list => exact .set (list.trim rfl)
    | none =>
      dsimp only
      rw [woven.startsWithKeyword (by decide), woven.opensQuery_eq]
      split
      · exact .query woven
      · exact .missing

structure Weave.InsertParts (w : Weave) (p p' : InsertParts) : Prop where
  table : Woven w {} p.table p'.table
  columns : Option.Rel (Woven w {}) p.columns p'.columns
  body : w.Body p.body p'.body

theorem foldsMarks_endsTable : FoldsMarks endsTable := by
  intro m d same
  have folds := (folds_isBlank.or (folds_beq (x := '(') (by decide))).or (folds_beq (x := ')') (by decide))
  have equal := folds m.char d same
  dsimp only at equal
  simp only [endsTable, Mark.isCode]
  rw [equal]

theorem isCode_of_endsTable {m : Mark} (ends : endsTable m) : m.isCode := by
  rw [endsTable, Bool.and_eq_true] at ends
  exact ends.1

theorem rel_insertParts? (woven : Woven w {} t u) : Option.Rel w.InsertParts (insertParts? t) (insertParts? u) := by
  have found := rel_find? (show ∀ k ∈ ([["INSERT"]] : List Keyword), IsKeyword k by decide) woven.aligned_start
  rw [insertParts?, insertParts?]
  generalize (Cursor.start t).find? [["INSERT"]] = o at found
  generalize (Cursor.start u).find? [["INSERT"]] = o' at found
  cases found with
  | none => exact .none
  | @some r r' related =>
    have behind : Woven w {} (trimStart (behindInto r.2).text) (trimStart (behindInto r'.2).text) :=
      ((related.2.skipAny (by decide)).skipAny (by decide)).text.trimStart rfl
    simp only [Option.bind_eq_bind, Option.bind_some]
    rw [← behindInto, ← behindInto]
    generalize trimStart (behindInto r.2).text = target at behind ⊢
    generalize trimStart (behindInto r'.2).text = target' at behind ⊢
    obtain ⟨table, s₁, t₁, u₁, -, rest, left, right⟩ := behind.span foldsMarks_endsTable.not
      (fun a n => by simp [endsTable, Mark.isCode]) proper_start
    have code : ∀ m ∈ (s₁.marks t₁).head?, m.isCode := by
      intro m head
      have stop := List.head?_dropWhile_not (!endsTable ·) (scan target)
      rw [scan, left, Option.mem_def.mp head] at stop
      exact isCode_of_endsTable (by simpa using stop)
    have later := rest.trimStart_code code
    rw [scan, scan, left, right, ScanState.markText_marks, ScanState.markText_marks]
    generalize trimStart t₁ = x at later
    generalize trimStart u₁ = y at later
    generalize markText ((({} : ScanState).marks target).takeWhile (!endsTable ·)) = name at table
    generalize markText ((({} : ScanState).marks target').takeWhile (!endsTable ·)) = name' at table
    simp only [guard, table.nil_iff, ne_eq]
    by_cases empty : name' = []
    · simp [empty]
    · have group : (x.head? == some '(') = (y.head? == some '(') := by
        rw [Bool.eq_iff_iff, beq_iff_eq, beq_iff_eq]
        exact later.head_iff (by decide)
      rw [group, later.opensQuery_eq]
      simp only [empty, not_false_iff, if_true]
      by_cases listed : y.head? == some '(' && !opensQuery y
      · rw [if_pos listed, if_pos listed]
        rw [Bool.and_eq_true, beq_iff_eq] at listed
        have parts := rel_leadingGroup? later ((later.head_iff (by decide)).mpr listed.1)
        generalize leadingGroup? x = g at parts
        generalize leadingGroup? y = g' at parts
        cases parts with
        | none => exact .none
        | some related => exact .some ⟨table, .some related.1, (related.2.trimStart rfl).insertBody⟩
      · rw [if_neg listed, if_neg listed]
        exact .some ⟨table, .none, later.insertBody⟩

end Sections
end QueryChain
