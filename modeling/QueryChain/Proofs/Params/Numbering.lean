import QueryChain.Proofs.Keyword.Section
import QueryChain.Sql.Placeholder

namespace QueryChain

@[simp] theorem numberMarks_append (issued : Nat) (ms ns : Marks) :
    numberMarks issued (ms ++ ns) =
      numberMarks issued ms ++ numberMarks (issued + ms.countP Mark.isPlaceholder) ns := by
  induction ms generalizing issued with
  | nil => simp [numberMarks]
  | cons m ms ih =>
    rw [List.cons_append, numberMarks, numberMarks, List.countP_cons]
    split
    · rw [ih, List.append_assoc]
      congr 3
      omega
    · rw [ih]
      rfl

/-- Where no placeholder stands, the text stays as it is. -/
theorem numberMarks_of_none (issued : Nat) (ms : Marks) (none : ms.countP Mark.isPlaceholder = 0) :
    numberMarks issued ms = markText ms := by
  induction ms with
  | nil => rfl
  | cons m ms ih =>
    rw [List.countP_cons] at none
    split at none
    · omega
    · rename_i other
      rw [numberMarks, if_neg other, ih (by omega)]
      rfl

theorem numberMarks_dashes (issued : Nat) {ms ns : Marks} (same : SameButDashes ms ns) :
    numberMarks issued ms = numberMarks issued ns := by
  cases same with
  | same => rfl
  | dashes ms d => simp [numberMarks, Mark.isPlaceholder, Mark.isCode]

theorem countP_dashes {ms ns : Marks} (same : SameButDashes ms ns) :
    ms.countP Mark.isPlaceholder = ns.countP Mark.isPlaceholder := by
  cases same with
  | same => rfl
  | dashes ms d => simp [Mark.isPlaceholder, Mark.isCode]

def CommentFree (sql : Text) : Prop := ∀ m ∈ scan sql, m.kind ≠ .comment

section Cut

variable {sql : Text} {b e : Nat}

/-- A part of a text that starts where nothing is open is scanned as it is in the whole. -/
theorem scan_slice (free : CommentFree sql) (le : b ≤ e) (bound : e ≤ sql.length)
    (start : stateAt sql b = {}) : SameButDashes (scan (slice b e sql)) (slice b e (scan sql)) := by
  have inPlace : slice b e (scan sql) =
      (({} : ScanState).marks (slice b e sql ++ sql.drop e)).take (slice b e sql).length := by
    rw [slice_append_drop le bound, length_slice bound, slice_eq_take_drop, drop_scan, start]
  rw [inPlace]
  apply ScanState.marks_cut _ _ _ (.inl rfl)
  rw [← inPlace]
  exact fun m member => free m (List.mem_of_mem_take (List.mem_of_mem_drop member))

theorem placeholders_slice (free : CommentFree sql) (le : b ≤ e) (bound : e ≤ sql.length)
    (start : stateAt sql b = {}) :
    placeholders (slice b e sql) = (slice b e (scan sql)).countP Mark.isPlaceholder :=
  countP_dashes (scan_slice free le bound start)

theorem numbered_slice (issued : Nat) (free : CommentFree sql) (le : b ≤ e) (bound : e ≤ sql.length)
    (start : stateAt sql b = {}) :
    numbered issued (slice b e sql) = numberMarks issued (slice b e (scan sql)) :=
  numberMarks_dashes issued (scan_slice free le bound start)

end Cut

def numberedAll (issued : Nat) : List Text → List Text
  | [] => []
  | t :: ts => numbered issued t :: numberedAll (issued + placeholders t) ts

def placeholdersBefore (sql : Text) (n : Nat) : Nat := ((scan sql).take n).countP Mark.isPlaceholder

/-- A part of a statement in which the `k`-th placeholder of the whole statement is named `k`. -/
def namedInPlace (sql : Text) (b e : Nat) : Text :=
  numberMarks (placeholdersBefore sql b) (slice b e (scan sql))

/-- Parts of a statement one behind the other, none before place `n` nor inside a quote. -/
inductive Parts (sql : Text) : Nat → List (Nat × Nat) → Prop
  | nil (n : Nat) : Parts sql n []
  | cons {n b e : Nat} {parts : List (Nat × Nat)} (from_ : n ≤ b) (le : b ≤ e)
      (bound : e ≤ sql.length) (start : stateAt sql b = {}) (rest : Parts sql e parts) :
      Parts sql n ((b, e) :: parts)

namespace Parts

variable {sql : Text} {n : Nat} {parts : List (Nat × Nat)}

theorem behind (rising : Parts sql n parts) : ∀ s ∈ parts, n ≤ s.1 ∧ s.1 ≤ s.2 ∧ s.2 ≤ sql.length := by
  induction rising with
  | nil => simp
  | cons from_ le bound start rest ih =>
    intro s member
    rcases List.mem_cons.mp member with rfl | later
    · exact ⟨from_, le, bound⟩
    · have also := ih s later
      omega

theorem pairwise (rising : Parts sql n parts) : parts.Pairwise fun s t => s.2 ≤ t.1 := by
  induction rising with
  | nil => exact .nil
  | cons from_ le bound start rest ih => exact .cons (fun s member => (rest.behind s member).1) ih

/-- The placeholders behind `n` are those between it and the next part, those of the part, and those
    behind it. -/
theorem countP_drop {b e : Nat} (ms : Marks) (from_ : n ≤ b) (le : b ≤ e) (bound : e ≤ ms.length) :
    (ms.drop n).countP Mark.isPlaceholder = (slice n b ms).countP Mark.isPlaceholder +
      (slice b e ms).countP Mark.isPlaceholder + (ms.drop e).countP Mark.isPlaceholder := by
  rw [← slice_append_drop (b := n) (e := e) (by omega) bound, ← slice_append from_ le bound,
    List.countP_append, List.countP_append]

theorem countP_le (rising : Parts sql n parts) :
    (parts.map fun s => (slice s.1 s.2 (scan sql)).countP Mark.isPlaceholder).sum ≤
      ((scan sql).drop n).countP Mark.isPlaceholder := by
  induction rising with
  | nil => simp
  | cons from_ le bound start rest ih =>
    have split := countP_drop (scan sql) from_ le (by simpa using bound)
    simp only [List.map_cons, List.sum_cons]
    omega

/-- Parts that have as many placeholders as there are have them all. -/
theorem covers (rising : Parts sql n parts)
    (all : ((scan sql).drop n).countP Mark.isPlaceholder ≤
      (parts.map fun s => (slice s.1 s.2 (scan sql)).countP Mark.isPlaceholder).sum) :
    ∀ i m, n ≤ i → (scan sql)[i]? = some m → m.isPlaceholder → ∃ s ∈ parts, s.1 ≤ i ∧ i < s.2 := by
  induction rising with
  | nil n =>
    intro i m behind at_ placeholder
    have none : ((scan sql).drop n).countP Mark.isPlaceholder = 0 := by simpa using all
    have member : m ∈ (scan sql).drop n := by
      apply List.mem_of_getElem? (i := i - n)
      rwa [List.getElem?_drop, Nat.add_sub_cancel' behind]
    exact absurd placeholder (List.countP_eq_zero.mp none m member)
  | @cons n b e parts from_ le bound start rest ih =>
    have split := countP_drop (scan sql) from_ le (by simpa using bound)
    have most := rest.countP_le
    simp only [List.map_cons, List.sum_cons] at all
    have gap : (slice n b (scan sql)).countP Mark.isPlaceholder = 0 := by omega
    intro i m behind at_ placeholder
    by_cases inGap : i < b
    · have member : m ∈ slice n b (scan sql) := by
        apply List.mem_of_getElem? (i := i - n)
        rwa [slice_eq_take_drop, List.getElem?_take, if_pos (by omega), List.getElem?_drop,
          Nat.add_sub_cancel' behind]
      exact absurd placeholder (List.countP_eq_zero.mp gap m member)
    · by_cases inside : i < e
      · exact ⟨(b, e), by simp, by omega, inside⟩
      · obtain ⟨s, member, bounds⟩ := ih (by omega) i m (by omega) at_ placeholder
        exact ⟨s, List.mem_cons_of_mem _ member, bounds⟩

/-- Naming the parts in turn names each placeholder by its place in the whole statement. -/
theorem numberedAll_eq (rising : Parts sql n parts) (free : CommentFree sql)
    (all : ((scan sql).drop n).countP Mark.isPlaceholder ≤
      (parts.map fun s => (slice s.1 s.2 (scan sql)).countP Mark.isPlaceholder).sum) :
    numberedAll (placeholdersBefore sql n) (parts.map fun s => slice s.1 s.2 sql) =
      parts.map fun s => namedInPlace sql s.1 s.2 := by
  induction rising with
  | nil => rfl
  | @cons n b e parts from_ le bound start rest ih =>
    have split := countP_drop (scan sql) from_ le (by simpa using bound)
    have most := rest.countP_le
    simp only [List.map_cons, List.sum_cons] at all
    have upTo (i j : Nat) (le : i ≤ j) (bound : j ≤ sql.length) : placeholdersBefore sql j =
        placeholdersBefore sql i + (slice i j (scan sql)).countP Mark.isPlaceholder := by
      rw [placeholdersBefore, placeholdersBefore, ← List.countP_append]
      congr 1
      have whole := slice_append (l := scan sql) (Nat.zero_le i) le (by simpa using bound)
      simpa [slice] using whole.symm
    have before : placeholdersBefore sql b = placeholdersBefore sql n := by
      have step := upTo n b from_ (by omega)
      omega
    simp only [List.map_cons, numberedAll]
    rw [numbered_slice _ free le bound start, placeholders_slice free le bound start, ← before,
      ← upTo b e le bound, ih (by omega), namedInPlace]

end Parts

/-- The texts in which parameters were named are parts of the statement one behind the other that hold
    all of its placeholders, and the `k`-th placeholder of the whole statement was named `k`. -/
def Tile (sql : Text) (named : List (Text × Text)) : Prop :=
  ∃ parts : List (Nat × Nat),
    named = (parts.map fun s => (slice s.1 s.2 sql, namedInPlace sql s.1 s.2)) ∧
    (∀ s ∈ parts, s.1 ≤ s.2 ∧ s.2 ≤ sql.length) ∧ (parts.Pairwise fun s t => s.2 ≤ t.1) ∧
    ∀ i m, (scan sql)[i]? = some m → m.isPlaceholder → ∃ s ∈ parts, s.1 ≤ i ∧ i < s.2

theorem Parts.tile {sql : Text} {parts : List (Nat × Nat)} (rising : Parts sql 0 parts)
    (free : CommentFree sql)
    (all : placeholders sql ≤ ((parts.map fun s => slice s.1 s.2 sql).map placeholders).sum) :
    Tile sql ((parts.map fun s => slice s.1 s.2 sql).zip
      (numberedAll 0 (parts.map fun s => slice s.1 s.2 sql))) := by
  have counts : ∀ {n parts}, Parts sql n parts →
      (parts.map fun s => slice s.1 s.2 sql).map placeholders =
        parts.map fun s => (slice s.1 s.2 (scan sql)).countP Mark.isPlaceholder := by
    intro n parts rising
    induction rising with
    | nil => rfl
    | cons from_ le bound start rest ih =>
      simp only [List.map_cons, placeholders_slice free le bound start, ih]
  rw [counts rising] at all
  have names := rising.numberedAll_eq free all
  rw [show placeholdersBefore sql 0 = 0 from rfl] at names
  refine ⟨parts, ?_, fun s member => (rising.behind s member).2, rising.pairwise, ?_⟩
  · rw [names, List.zip_map']
  · intro i m
    exact rising.covers all i m (Nat.zero_le i)

end QueryChain
