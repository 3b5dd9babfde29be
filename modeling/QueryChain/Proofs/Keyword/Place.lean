import QueryChain.Proofs.Scan.State
import QueryChain.Sql.Keyword

namespace QueryChain

/-- The part of a list from place `b` up to place `e`. -/
def slice {α : Type} (b e : Nat) (l : List α) : List α := (l.take e).drop b

section Slice

variable {α β : Type} {b m e : Nat} {l : List α}

theorem length_slice (bound : e ≤ l.length) : (slice b e l).length = e - b := by
  simp [slice, Nat.min_eq_left bound]

theorem map_slice (f : α → β) : (slice b e l).map f = slice b e (l.map f) := by
  simp [slice, List.map_drop, List.map_take]

theorem slice_append (first : b ≤ m) (second : m ≤ e) (bound : e ≤ l.length) :
    slice b m l ++ slice m e l = slice b e l := by
  have front : l.take e = l.take m ++ (l.take e).drop m := by
    conv_lhs => rw [← List.take_append_drop m (l.take e)]
    rw [List.take_take, Nat.min_eq_left second]
  have short : b ≤ (l.take m).length := by simp; omega
  unfold slice
  conv_rhs => rw [front, List.drop_append_of_le_length short]

theorem slice_append_drop (first : b ≤ e) (bound : e ≤ l.length) :
    slice b e l ++ l.drop e = l.drop b := by
  have whole := slice_append first bound (Nat.le_refl l.length)
  simpa [slice] using whole

theorem take_append_slice (le : b ≤ e) : l.take b ++ slice b e l = l.take e := by
  have short : l.take b = (l.take e).take b := by rw [List.take_take, Nat.min_eq_left le]
  rw [slice, short, List.take_append_drop]

theorem slice_eq_take_drop : slice b e l = (l.drop b).take (e - b) := by
  rw [slice, List.drop_take]

theorem slice_of_append {front mid back : List α} (le : b ≤ e) (bound : e ≤ l.length)
    (parts : slice b e l = front ++ mid ++ back) :
    slice b (b + front.length) l = front ∧
      slice (b + front.length) (e - back.length) l = mid ∧ slice (e - back.length) e l = back := by
  have length := congrArg List.length parts
  rw [length_slice bound, List.length_append, List.length_append] at length
  simp only [slice_eq_take_drop] at parts ⊢
  have inner (i j : Nat) (fits : i + j ≤ e - b) :
      (l.drop (b + i)).take j = ((front ++ mid ++ back).drop i).take j := by
    rw [← parts, List.drop_take, List.take_take, List.drop_drop]
    congr 1
    omega
  refine ⟨?_, ?_, ?_⟩
  · have first := inner 0 front.length (by omega)
    rw [Nat.add_sub_cancel_left]
    simpa using first
  · rw [show e - back.length - (b + front.length) = mid.length by omega, inner _ _ (by omega)]
    simp
  · rw [show e - back.length = b + (front.length + mid.length) by omega, inner _ _ (by omega),
      List.drop_left' (by simp), List.take_of_length_le (by omega)]

theorem slice_of_append_pair {front back : List α} (le : b ≤ e) (bound : e ≤ l.length)
    (parts : slice b e l = front ++ back) :
    slice b (b + front.length) l = front ∧ slice (e - back.length) e l = back := by
  have three : slice b e l = front ++ [] ++ back := by rw [List.append_nil, parts]
  obtain ⟨first, -, last⟩ := slice_of_append le bound three
  exact ⟨first, last⟩

theorem slice_slice {i j : Nat} (bound : b + j ≤ e) :
    slice i j (slice b e l) = slice (b + i) (b + j) l := by
  simp only [slice_eq_take_drop, List.drop_take, List.drop_drop, List.take_take]
  congr 1
  omega

theorem slice_of_suffix {u v : List α} (suffix : u <:+ l) (start : v <+: u) :
    slice (l.length - u.length) (l.length - u.length + v.length) l = v := by
  obtain ⟨front, rfl⟩ := suffix
  rw [slice_eq_take_drop, List.length_append, Nat.add_sub_cancel_right, List.drop_left,
    Nat.add_sub_cancel_left]
  exact (List.prefix_iff_eq_take.mp start).symm

end Slice

/-- An entry of a list in two parts stands in one of them. -/
theorem cons_of_append {α : Type} {a b front behind : List α} {c : α} (parts : a ++ b = front ++ c :: behind) :
    (∃ f, a = front ++ c :: f ∧ behind = f ++ b) ∨ ∃ f, front = a ++ f ∧ b = f ++ c :: behind := by
  rcases List.append_eq_append_iff.mp parts with ⟨f, rfl, inBack⟩ | ⟨f, rfl, inFront⟩
  · exact .inr ⟨f, rfl, inBack⟩
  · cases f with
    | nil => exact .inr ⟨[], by simp, inFront.symm⟩
    | cons d f =>
      obtain ⟨rfl, rfl⟩ := List.cons.inj inFront
      exact .inl ⟨f, rfl, rfl⟩

/-- What has no separator in it stands on one side of it. -/
theorem infix_of_append_cons {α : Type} {w s u : List α} {c : α} (no : c ∉ w) (inside : w <:+: s ++ c :: u) :
    w <:+: s ∨ w <:+: u := by
  obtain ⟨front, back, parts⟩ := inside
  rcases cons_of_append parts with ⟨f, whole, rfl⟩ | ⟨f, rfl, -⟩
  · rcases cons_of_append whole with ⟨g, -, rfl⟩ | ⟨g, -, rfl⟩
    · exact .inr ⟨g, back, by simp⟩
    · exact absurd (by simp) no
  · exact .inl ⟨front, f, rfl⟩

namespace Cursor

def skip : Nat → Cursor → Cursor
  | 0, c => c
  | _ + 1, ⟨before, []⟩ => ⟨before, []⟩
  | n + 1, ⟨_, m :: ms⟩ => skip n ⟨some m.char, ms⟩

@[simp] theorem skip_zero (c : Cursor) : c.skip 0 = c := by simp [skip]

@[simp] theorem skip_cons (n : Nat) (before : Option Char) (m : Mark) (ms : Marks) :
    skip (n + 1) ⟨before, m :: ms⟩ = skip n ⟨some m.char, ms⟩ := rfl

@[simp] theorem marks_skip (n : Nat) (c : Cursor) : (c.skip n).marks = c.marks.drop n := by
  fun_induction skip n c with
  | case1 c => rfl
  | case2 => rfl
  | case3 n before m ms ih => simpa using ih

@[simp] theorem text_skip (n : Nat) (c : Cursor) : (c.skip n).text = c.text.drop n := by
  simp [text, markText, List.map_drop]

theorem skip_skip (i j : Nat) (c : Cursor) : (c.skip i).skip j = c.skip (i + j) := by
  fun_induction skip i c with
  | case1 c => simp
  | case2 before n => cases j <;> simp [skip]
  | case3 n before m ms ih => rw [ih, Nat.succ_add, skip_cons]

theorem before_skip (n : Nat) (c : Cursor) (bound : n < c.marks.length) :
    (c.skip (n + 1)).before = some (c.marks[n]).char := by
  induction n generalizing c with
  | zero =>
    obtain ⟨before, _ | ⟨m, ms⟩⟩ := c
    · simp at bound
    · rfl
  | succ n ih =>
    obtain ⟨before, _ | ⟨m, ms⟩⟩ := c
    · simp at bound
    · exact ih ⟨some m.char, ms⟩ (by simpa using bound)

theorem seekFrom_eq_some_iff {α : Type} {probe : Cursor → Option α} {before : Option Char}
    {ms : Marks} {passed : Text} {a : α} :
    seekFrom probe before ms = some (passed, a) ↔
      ∃ n < ms.length, probe (skip n ⟨before, ms⟩) = some a ∧
        (∀ i < n, probe (skip i ⟨before, ms⟩) = none) ∧ passed = (markText ms).take n := by
  induction ms generalizing before passed with
  | nil => simp [seekFrom]
  | cons m ms ih =>
    rw [seekFrom]
    constructor
    · intro found
      split at found
      · rename_i b answer
        cases found
        exact ⟨0, by simp, by simpa using answer, by simp, by simp⟩
      · rename_i missed
        obtain ⟨⟨passed', a'⟩, later, eq⟩ := Option.map_eq_some_iff.mp found
        cases eq
        obtain ⟨n, bound, answer, none, rfl⟩ := ih.mp later
        refine ⟨n + 1, by simpa using bound, by simpa using answer, ?_, by simp [markText]⟩
        intro i less
        cases i with
        | zero => simpa using missed
        | succ i => simpa using none i (by omega)
    · rintro ⟨n, bound, answer, none, rfl⟩
      cases n with
      | zero =>
        rw [skip_zero] at answer
        simp [answer]
      | succ n =>
        have missed := none 0 (by omega)
        rw [skip_zero] at missed
        rw [missed]
        refine Option.map_eq_some_iff.mpr ⟨((markText ms).take n, a), ih.mpr ⟨n, ?_, ?_, ?_, rfl⟩, ?_⟩
        · simpa using bound
        · simpa using answer
        · intro i less
          simpa using none (i + 1) (by omega)
        · simp [markText]

theorem seekFrom_eq_none_iff {α : Type} {probe : Cursor → Option α} {before : Option Char}
    {ms : Marks} :
    seekFrom probe before ms = none ↔ ∀ i < ms.length, probe (skip i ⟨before, ms⟩) = none := by
  induction ms generalizing before with
  | nil => simp [seekFrom]
  | cons m ms ih =>
    rw [seekFrom]
    constructor
    · intro missed i bound
      split at missed
      · cases missed
      · rename_i first
        cases i with
        | zero => simpa using first
        | succ i => exact ih.mp (by simpa using missed) i (by simpa using bound)
    · intro missed
      have first := missed 0 (by simp)
      rw [skip_zero] at first
      rw [first]
      simp only [Option.map_eq_none_iff]
      exact ih.mpr fun i bound => missed (i + 1) (by simpa using bound)

theorem seek_eq_some_iff {α : Type} {c : Cursor} {probe : Cursor → Option α} {passed : Text}
    {a : α} :
    c.seek probe = some (passed, a) ↔ ∃ n < c.marks.length, probe (c.skip n) = some a ∧
      (∀ i < n, probe (c.skip i) = none) ∧ passed = c.text.take n := seekFrom_eq_some_iff

theorem seek_eq_none_iff {α : Type} {c : Cursor} {probe : Cursor → Option α} :
    c.seek probe = none ↔ ∀ i < c.marks.length, probe (c.skip i) = none := seekFrom_eq_none_iff

end Cursor
end QueryChain
