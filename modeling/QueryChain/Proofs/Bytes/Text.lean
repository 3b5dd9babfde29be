import QueryChain.Proofs.Keyword.Position

namespace QueryChain

/-- The parts of a text in front of a byte and from it on. There are none where the byte is behind
    the end of the text or inside a character. -/
def cutAt? : Nat → Text → Option (Text × Text)
  | 0, t => some ([], t)
  | _ + 1, [] => none
  | n + 1, c :: t =>
    if c.utf8Size ≤ n + 1 then (cutAt? (n + 1 - c.utf8Size) t).map fun (front, back) => (c :: front, back)
    else none

namespace Bytewise

def upTo? (t : Text) (stop : Nat) : Option Text := (cutAt? stop t).map Prod.fst

def from? (t : Text) (start : Nat) : Option Text := (cutAt? start t).map Prod.snd

def part? (t : Text) (start stop : Nat) : Option Text :=
  if start ≤ stop then (upTo? t stop).bind (from? · start) else none

def less? (a b : Nat) : Option Nat := if b ≤ a then some (a - b) else none

end Bytewise

def place (t : Text) (n : Nat) : Nat := byteSize (t.take n)

section Cut

variable {t : Text} {i j n : Nat}

theorem cutAt?_append (front back : Text) : cutAt? (byteSize front) (front ++ back) = some (front, back) := by
  induction front with
  | nil => simp [cutAt?]
  | cons c front ih =>
    have positive := c.utf8Size_pos
    obtain ⟨n, size⟩ : ∃ n, byteSize (c :: front) = n + 1 := ⟨_, (Nat.succ_pred_eq_of_pos (by simp; omega)).symm⟩
    have rest : n + 1 - c.utf8Size = byteSize front := by
      rw [← size, byteSize_cons]
      omega
    rw [size, List.cons_append, cutAt?, if_pos (by rw [← size, byteSize_cons]; omega), rest, ih]
    rfl

theorem cutAt?_eq_some {front back : Text} (cut : cutAt? n t = some (front, back)) :
    t = front ++ back ∧ byteSize front = n := by
  induction t generalizing n front with
  | nil =>
    cases n with
    | zero => cases cut; exact ⟨rfl, rfl⟩
    | succ n => cases cut
  | cons c t ih =>
    cases n with
    | zero => cases cut; exact ⟨rfl, rfl⟩
    | succ n =>
      rw [cutAt?] at cut
      split at cut
      · obtain ⟨⟨front', back'⟩, later, same⟩ := Option.map_eq_some_iff.mp cut
        cases same
        obtain ⟨rfl, size⟩ := ih later
        refine ⟨rfl, ?_⟩
        rw [byteSize_cons, size]
        omega
      · cases cut

theorem cutAt?_place (t : Text) (n : Nat) : cutAt? (place t n) t = some (t.take n, t.drop n) := by
  have cut := cutAt?_append (t.take n) (t.drop n)
  rwa [List.take_append_drop] at cut

@[simp] theorem place_zero : place t 0 = 0 := by simp [place]

@[simp] theorem place_length : place t t.length = byteSize t := by simp [place]

theorem place_add (t : Text) (n m : Nat) : place t (n + m) = place t n + place (t.drop n) m := by
  rw [place, List.take_add, byteSize_append, place, place]

theorem place_le (le : i ≤ j) : place t i ≤ place t j := by
  obtain ⟨k, rfl⟩ := Nat.exists_eq_add_of_le le
  rw [place_add]
  omega

theorem place_succ (bound : i < t.length) : place t (i + 1) = place t i + t[i].utf8Size := by
  rw [place_add, List.drop_eq_getElem_cons bound, place, place, List.take_succ_cons, List.take_zero, byteSize_cons,
    byteSize_nil, Nat.add_zero]

theorem place_lt (lt : i < j) (bound : j ≤ t.length) : place t i < place t j := by
  have inText : i < t.length := by omega
  have positive := t[i].utf8Size_pos
  have next := place_le (t := t) (Nat.succ_le_of_lt lt)
  rw [Nat.succ_eq_add_one, place_succ (by omega)] at next
  omega

namespace Bytewise

theorem upTo?_place (t : Text) (n : Nat) : upTo? t (place t n) = some (t.take n) := by
  rw [upTo?, cutAt?_place]
  rfl

theorem from?_place (t : Text) (n : Nat) : from? t (place t n) = some (t.drop n) := by
  rw [from?, cutAt?_place]
  rfl

/-- The text between two characters can always be taken. -/
theorem part?_place (le : i ≤ j) : part? t (place t i) (place t j) = some (slice i j t) := by
  have shorter : place t i = place (t.take j) i := by
    rw [place, place, List.take_take, Nat.min_eq_left le]
  rw [part?, if_pos (place_le le), upTo?_place, Option.bind_some, shorter, from?_place]
  rfl

/-- A part of a text can be taken just where it starts and ends between two characters. -/
theorem part?_eq_some_iff {u : Text} {start stop : Nat} : part? t start stop = some u ↔
    ∃ front back, t = front ++ (u ++ back) ∧ byteSize front = start ∧ byteSize (front ++ u) = stop := by
  constructor
  · intro part
    rw [part?] at part
    split_ifs at part
    obtain ⟨front, upTo, from_⟩ := Option.bind_eq_some_iff.mp part
    obtain ⟨⟨_, back⟩, cut, rfl⟩ := Option.map_eq_some_iff.mp upTo
    obtain ⟨⟨first, mid⟩, cutFirst, rfl⟩ := Option.map_eq_some_iff.mp from_
    obtain ⟨rfl, size⟩ := cutAt?_eq_some cut
    obtain ⟨rfl, sizeFirst⟩ := cutAt?_eq_some cutFirst
    exact ⟨first, back, List.append_assoc .., sizeFirst, size⟩
  · rintro ⟨front, back, rfl, rfl, rfl⟩
    have le : byteSize front ≤ byteSize (front ++ u) := by
      rw [byteSize_append]
      omega
    rw [part?, if_pos le, upTo?, ← List.append_assoc, cutAt?_append, Option.map_some, Option.bind_some, from?, cutAt?_append]
    rfl

example : part? "né" 1 2 = none := by decide

theorem less?_add (a b : Nat) : less? (a + b) b = some a := by simp [less?]

end Bytewise
end Cut
end QueryChain
