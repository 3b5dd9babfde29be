import QueryChain.Proofs.Woven.Statements

namespace QueryChain

section Literals

variable {w : Weave} {s : ScanState} {p q b b' t u : Text}

/-- Texts that agree but for the body of a literal, `b` in the one and `b'` in the other. -/
inductive Rebodied (b b' : Text) : Text → Text → Prop
  | nil : Rebodied b b' [] []
  | char (c : Char) {t u : Text} (rest : Rebodied b b' t u) : Rebodied b b' (c :: t) (c :: u)
  | literal {t u : Text} (rest : Rebodied b b' t u) : Rebodied b b' (literal b ++ t) (literal b' ++ u)

def Weave.bodies (inert : Inert b) (inert' : Inert b') : Weave where
  body := b
  body' := b'
  inert := inert
  inert' := inert'
  same := Eq
  refl _ := rfl
  letter := @sameLetter_of_eq
  quiet := True

theorem rebodied_of_alike {inert : Inert b} {inert' : Inert b'} (alike : (Weave.bodies inert inert').Alike t u) :
    Rebodied b b' t u := by
  induction alike with
  | nil => exact .nil
  | char same _ ih =>
    obtain rfl := same
    exact .char _ ih
  | literal _ _ ih => exact .literal ih

theorem Woven.of_commentFree (free : ∀ m ∈ s.marks t, m.kind ≠ .comment) : Woven w s t t := by
  induction t generalizing s with
  | nil => exact .nil s
  | cons c t ih =>
    rw [ScanState.marks] at free
    exact .char (w.refl c) (fun _ comment => absurd comment (free _ (by simp)))
      (ih fun m member => free m (by simp [member]))

theorem sameStart_around (p q b b' : Text) : SameStart (p ++ (literal b ++ q)) (p ++ (literal b' ++ q)) := by
  rcases p with _ | ⟨a, _ | ⟨c, p⟩⟩
  · exact ⟨rfl, fun dash => absurd (Option.some.inj dash) (by decide)⟩
  · exact ⟨rfl, fun _ => rfl⟩
  · exact ⟨rfl, fun _ => rfl⟩

/-- A literal may be changed where nothing is open and there are no comments. -/
theorem Woven.around (quiet : w.quiet) (inert : Inert b) (proper : s.Proper)
    (free : ∀ m ∈ s.marks (p ++ (QueryChain.literal b ++ q)), m.kind ≠ .comment)
    (code : (s.behind p (QueryChain.literal b ++ q)).mode = .code) :
    Woven w s (p ++ (QueryChain.literal w.body ++ q)) (p ++ (QueryChain.literal w.body' ++ q)) := by
  induction p generalizing s with
  | nil =>
    have mode : s.mode = .code := code
    refine .literal quiet mode (.of_commentFree fun m member => free m ?_)
    rw [List.nil_append, marks_literal inert mode]
    exact List.mem_append_right _ member
  | cons a p ih =>
    have start := sameStart_around p q b w.body
    have mark := ScanState.mark_of_same (s := s) (sameLetter_refl a) start
    have next := ScanState.next_of_same proper (sameLetter_refl a) start
    rw [List.cons_append, ScanState.marks] at free
    rw [ScanState.behind] at code
    have noComment : (s.mark a (p ++ (QueryChain.literal w.body ++ q))).kind ≠ .comment := by
      have here := free _ List.mem_cons_self
      rwa [mark] at here
    have rest := ih (proper.next a _) (fun m member => free m (List.mem_cons_of_mem _ member)) code
    rw [next] at rest
    exact .char (w.refl a) (fun _ comment => absurd comment noComment) rest

theorem excerpt_of_normal (fixed : normalize t = t) : Excerpt t := by
  have normal := isNormal_of_normalize fixed
  have whole : slice 0 t.length t = t := by simp [slice]
  refine ⟨t, 0, t.length, normal, ⟨Nat.zero_le _, Nat.le_refl _, stateAt_zero, ?_, .inl rfl, .inr ?_⟩, whole.symm⟩
  · rw [whole]
    exact (normal.tidy fixed).start
  · rw [List.drop_length]
    rfl

theorem Woven.eq_or_literal {inert : Inert b} {inert' : Inert b'} (woven : Woven (Weave.bodies inert inert') s t u) :
    t = u ∨ QueryChain.literal b <:+: t ∧ QueryChain.literal b' <:+: u := by
  induction woven with
  | nil => exact .inl rfl
  | char same _ _ ih =>
    obtain rfl := same
    exact ih.imp (congrArg _) fun both => ⟨both.1.trans (List.suffix_cons ..).isInfix,
      both.2.trans (List.suffix_cons ..).isInfix⟩
  | literal => exact .inr ⟨(List.prefix_append ..).isInfix, (List.prefix_append ..).isInfix⟩

def namesOf (sql : Text) : List Text :=
  match classify (normalize sql) with
  | .ok kind => statementNames kind (normalize sql)
  | .error _ => []

/-- The literal between the texts is part of no name: with some body or other there is no copy of it in
    the names. -/
def OutsideNames (p q : Text) : Prop :=
  ∃ x, Inert x ∧ ∀ name ∈ namesOf (p ++ (literal x ++ q)), ¬literal x <:+: name

theorem namesOf_eq {kind : StatementKind} (classified : classify (normalize t) = .ok kind) :
    namesOf t = statementNames kind (normalize t) := by
  rw [namesOf, classified]

theorem classify_of_woven (woven : Woven w {} t u) (steady : Steady t) {kind : StatementKind}
    (classified : classify (normalize t) = .ok kind) : classify (normalize u) = .ok kind := by
  have kinds := agree_classify (woven.normalize fun _ => steady)
  rw [classified] at kinds
  generalize classify (normalize u) = k at kinds
  cases kinds with
  | ok same => exact congrArg _ same.symm

theorem names_eq {inert : Inert b} {inert' : Inert b'} (woven : Woven (Weave.bodies inert inert') {} t u) (steady : Steady t)
    (kind : StatementKind)
    (outside : (∀ name ∈ statementNames kind (normalize t), ¬literal b <:+: name) ∨
      ∀ name ∈ statementNames kind (normalize u), ¬literal b' <:+: name) :
    statementNames kind (normalize t) = statementNames kind (normalize u) := by
  have names := (woven.normalize fun _ => steady).statementNames kind
  generalize statementNames kind (normalize t) = ns at names outside
  generalize statementNames kind (normalize u) = ms at names outside
  induction names with
  | nil => rfl
  | cons first _ ih =>
    have later := ih (outside.imp (fun no name member => no name (by simp [member])) fun no name member =>
      no name (by simp [member]))
    rcases first.eq_or_literal with same | ⟨inside, inside'⟩
    · rw [same, later]
    · rcases outside with no | no
      · exact absurd inside (no _ (by simp))
      · exact absurd inside' (no _ (by simp))

/-- What a literal holds decides nothing, unless it is part of a name: neither whether the statement is
    converted, nor which calls come out, which differ inside that literal only. -/
theorem convert_ignores_literal (reserved : ReservedWords)
    (normal : normalize (p ++ (literal b ++ q)) = p ++ (literal b ++ q))
    (code : (stateAt (p ++ (literal b ++ q)) p.length).mode = .code) (inert : Inert b) (inert' : Inert b')
    (outside : OutsideNames p q) :
    Agree (Conversion.Alike (Rebodied b b')) (convert reserved (p ++ (literal b ++ q)))
      (convert reserved (p ++ (literal b' ++ q))) := by
  obtain ⟨x, inertX, noCopy⟩ := outside
  have free := (isNormal_of_normalize normal).commentFree
  have behind : (({} : ScanState).behind p (literal b ++ q)).mode = .code := by
    rwa [stateAt, List.take_left, List.drop_left] at code
  have excerpt := excerpt_of_normal normal
  have dyed : Woven (.bodies inert inertX) {} (p ++ (literal b ++ q)) (p ++ (literal x ++ q)) :=
    .around trivial inert proper_start free behind
  have redyed : Woven (.bodies inertX inert') {} (p ++ (literal x ++ q)) (p ++ (literal b' ++ q)) :=
    .around trivial inert proper_start free behind
  have changed : Woven (.bodies inert inert') {} (p ++ (literal b ++ q)) (p ++ (literal b' ++ q)) :=
    .around trivial inert proper_start free behind
  refine (agree_convert reserved changed (fun _ => excerpt.steady) (.inl fun _ _ same => same) fun kind classified => ?_).imp
    fun _ _ alike => alike.imp fun _ _ => rebodied_of_alike
  have dyedKind := classify_of_woven dyed excerpt.steady classified
  rw [namesOf_eq dyedKind] at noCopy
  have first := names_eq dyed excerpt.steady kind (.inr noCopy)
  have second := names_eq redyed ⟨_, _, excerpt, dyed⟩ kind (.inl noCopy)
  rw [first, second]
  exact List.forall₂_same.mpr fun _ _ => Weave.bare_refl _ _

def nameTest : Text := "SELECT u.id FROM users u WHERE u.name = "

def behindNameTest : Text := " AND u.age > ? ORDER BY u.id LIMIT 5"

def injected : Text := "x OR a = (?, ?); UNION SELECT -- # /* \n\t ORDER BY ) JOIN"

theorem convert_ignores_literal_injected : Inert "Ann".toList ∧ Inert injected ∧ OutsideNames nameTest behindNameTest ∧
    ∃ c c', convert default (nameTest ++ (literal "Ann".toList ++ behindNameTest)) = .ok c ∧
      convert default (nameTest ++ (literal injected ++ behindNameTest)) = .ok c' ∧ c.paramCount = 1 ∧
      Conversion.Alike (Rebodied "Ann".toList injected) c c' := by
  have front : nameTest = _ := String.toList_ofList
  have back : behindNameTest = _ := String.toList_ofList
  have normal : normalize (nameTest ++ (literal "Ann".toList ++ behindNameTest)) =
      nameTest ++ (literal "Ann".toList ++ behindNameTest) := by
    rw [front, back]
    decide +kernel
  have code : (stateAt (nameTest ++ (literal "Ann".toList ++ behindNameTest)) nameTest.length).mode = .code := by
    rw [front, back]
    decide +kernel
  have inert : Inert "Ann".toList := by decide
  have inert' : Inert injected := by decide +kernel
  have noName : ∀ name ∈ namesOf (nameTest ++ (literal "Ann".toList ++ behindNameTest)),
    ¬literal "Ann".toList <:+: name := by
    rw [front, back]
    decide +kernel
  have outside : OutsideNames nameTest behindNameTest := ⟨"Ann".toList, inert, noName⟩
  have count : (convert default (nameTest ++ (literal "Ann".toList ++ behindNameTest))).map (·.paramCount) = .ok 1 := by
    rw [front, back]
    decide +kernel
  have agree := convert_ignores_literal default normal code inert inert' outside
  refine ⟨inert, inert', outside, ?_⟩
  generalize convert default (nameTest ++ (literal "Ann".toList ++ behindNameTest)) = x at agree count
  generalize convert default (nameTest ++ (literal injected ++ behindNameTest)) = y at agree
  cases agree with
  | ok alike => exact ⟨_, _, rfl, rfl, Except.ok.inj count, alike⟩
  | error => cases count

end Literals
end QueryChain
