import QueryChain.Sql.Keyword

namespace QueryChain

def Mark.isGap (m : Mark) : Bool := m.kind == .comment || m.kind == .code && isBlank m.char

/-- Each run of gaps becomes one space; `gap` tells that such a run is being passed, `inner` that
    something was written before it. A run at the end is dropped. -/
def collapseMarks (gap inner : Bool) : Marks → Text
  | [] => []
  | m :: ms =>
    if m.isGap then collapseMarks true inner ms
    else if gap && inner then ' ' :: m.char :: collapseMarks false true ms
    else m.char :: collapseMarks false true ms

def collapse (t : Text) : Text := collapseMarks false false (scan t)

def dropSemicolons (t : Text) : Text := dropEndWhile (fun c => c == ';' || isBlank c) t

def endsCondition (rest : Text) : Bool :=
  rest.isEmpty || rest.head? == some ')' ||
    ([["GROUP", "BY"], ["HAVING"], ["ORDER", "BY"], ["LIMIT"], ["OFFSET"]] : List Keyword).any
      fun k => startsWithKeyword k rest

def spaceBefore (rest : Text) : Text := if rest.isEmpty || rest.head? == some ')' then [] else " "

/-- Cuts out the first `AND NULL` that ends a condition; host code leaves it behind when it joins
    conditions of which one is missing. -/
def dropStrayNull? (t : Text) : Option Text :=
  let probe (c : Cursor) : Option Text := do
    guard c.inCode
    let after ← c.keyword? ["AND", "NULL"]
    let rest := trimStart after.text
    guard (endsCondition rest)
    return rest
  ((Cursor.start t).seek probe).map fun (head, rest) => trimEnd head ++ spaceBefore rest ++ rest

def dropStrayNull (t : Text) : Text := (dropStrayNull? t).getD t

def cleanUp (t : Text) : Text := dropStrayNull (dropSemicolons (collapse t))

/-- A space weighs less than any other character, so that a clean-up that changes anything makes
    a text lighter. -/
def weight (t : Text) : Nat := (t.map fun c => if c = ' ' then 1 else 2).sum

@[simp] theorem weight_nil : weight [] = 0 := rfl

@[simp] theorem weight_cons (c : Char) (t : Text) :
    weight (c :: t) = (if c = ' ' then 1 else 2) + weight t := by simp [weight]

@[simp] theorem weight_append (s t : Text) : weight (s ++ t) = weight s + weight t := by
  simp [weight]

theorem weight_eq_zero {t : Text} (h : weight t = 0) : t = [] := by
  cases t with
  | nil => rfl
  | cons c t => rw [weight_cons] at h; split at h <;> omega

theorem length_le_weight (t : Text) : t.length ≤ weight t := by
  induction t with
  | nil => simp
  | cons c t ih => rw [weight_cons, List.length_cons]; split <;> omega

theorem weight_collapseMarks (gap inner : Bool) (ms : Marks) :
    weight (collapseMarks gap inner ms) ≤ gap.toNat + weight (markText ms) ∧
      (weight (collapseMarks gap inner ms) = gap.toNat + weight (markText ms) →
        collapseMarks gap inner ms = (if gap then " ".toList else []) ++ markText ms) := by
  induction ms generalizing gap inner with
  | nil => cases gap <;> simp [collapseMarks, markText]
  | cons m ms ih =>
    rw [collapseMarks]
    split
    · obtain ⟨le, eq⟩ := ih true inner
      have cons : markText (m :: ms) = m.char :: markText ms := rfl
      rw [cons, weight_cons]
      simp only [Bool.toNat_true] at le eq
      by_cases space : m.char = ' '
      · rw [if_pos space]
        refine ⟨by omega, fun same => ?_⟩
        cases gap with
        | true => simp only [Bool.toNat_true] at same; omega
        | false => simpa [space] using eq (by simpa using same)
      · rw [if_neg space]
        exact ⟨by omega, fun same => by omega⟩
    · obtain ⟨le, eq⟩ := ih false true
      have cons : markText (m :: ms) = m.char :: markText ms := rfl
      rw [cons]
      simp only [Bool.toNat_false, Nat.zero_add] at le eq
      cases gap <;> cases inner <;> simp only [Bool.toNat_true, Bool.toNat_false, Bool.and_self,
        Bool.and_true, Bool.and_false, Bool.false_eq_true, if_true, if_false, weight_cons]
      · exact ⟨by omega, fun same => by simpa using eq (by omega)⟩
      · exact ⟨by omega, fun same => by simpa using eq (by omega)⟩
      · exact ⟨by omega, fun same => by omega⟩
      · exact ⟨by omega, fun same => by simpa using eq (by omega)⟩

theorem weight_dropEndWhile (p : Char → Bool) (t : Text) :
    weight (dropEndWhile p t) ≤ weight t ∧
      (weight (dropEndWhile p t) = weight t → dropEndWhile p t = t) := by
  have split := dropEndWhile_append_takeWhile p t
  have sum := congrArg weight split
  rw [weight_append] at sum
  refine ⟨by omega, fun same => ?_⟩
  rw [weight_eq_zero (t := (t.reverse.takeWhile p).reverse) (by omega), List.append_nil] at split
  exact split

theorem weight_dropWhile_le (p : Char → Bool) (t : Text) : weight (t.dropWhile p) ≤ weight t := by
  have sum := congrArg weight (List.takeWhile_append_dropWhile (p := p) (l := t))
  rw [weight_append] at sum
  omega

theorem weight_dropStrayNull? {t u : Text} (h : dropStrayNull? t = some u) :
    weight u < weight t := by
  obtain ⟨⟨head, rest⟩, found, rfl⟩ := Option.map_eq_some_iff.mp h
  obtain ⟨c, eq, answer⟩ := Cursor.seekFrom_eq_some found
  obtain ⟨_, -, answer⟩ := Option.bind_eq_some_iff.mp answer
  obtain ⟨after, match_, answer⟩ := Option.bind_eq_some_iff.mp answer
  obtain ⟨_, -, last⟩ := Option.bind_eq_some_iff.mp answer
  cases last
  obtain ⟨spelling, eqText, length⟩ := Cursor.keyword?_eq_some match_
  rw [show (Cursor.start t).marks = scan t from rfl, markText_scan, eqText] at eq
  have heavy := length_le_weight spelling
  have light := (weight_dropEndWhile isBlank head).1
  have lightRest := weight_dropWhile_le isBlank after.text
  have long : 7 ≤ spelling.length := length
  have space : weight (spaceBefore (trimStart after.text)) ≤ 1 := by
    unfold spaceBefore; split <;> decide
  rw [eq]
  simp only [weight_append, trimEnd, trimStart] at space ⊢
  omega

theorem weight_cleanUp (t : Text) :
    weight (cleanUp t) ≤ weight t ∧ (weight (cleanUp t) = weight t → cleanUp t = t) := by
  obtain ⟨le, eq⟩ := weight_collapseMarks false false (scan t)
  rw [markText_scan] at le eq
  simp only [Bool.toNat_false, Nat.zero_add, Bool.false_eq_true, if_false, List.nil_append] at le eq
  obtain ⟨le', eq'⟩ := weight_dropEndWhile (fun c => c == ';' || isBlank c) (collapse t)
  rw [← collapse] at le eq
  rw [← dropSemicolons] at le' eq'
  unfold cleanUp dropStrayNull
  cases stray : dropStrayNull? (dropSemicolons (collapse t)) with
  | none =>
    rw [Option.getD_none]
    exact ⟨by omega, fun same => by rw [eq' (by omega), eq (by omega)]⟩
  | some u =>
    have lighter := weight_dropStrayNull? stray
    rw [Option.getD_some]
    exact ⟨by omega, fun same => by omega⟩

/-- Cleans up until nothing changes. -/
def normalize (t : Text) : Text :=
  if cleanUp t = t then t else normalize (cleanUp t)
termination_by weight t
decreasing_by
  obtain ⟨le, eq⟩ := weight_cleanUp t
  rename_i changed
  exact Nat.lt_of_le_of_ne le fun same => changed (eq same)

end QueryChain
