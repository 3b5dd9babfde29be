namespace QueryChain

/-- SQL, and all text made from it, is handled as the list of its characters. -/
abbrev Text := List Char

instance : Coe String Text := ⟨String.toList⟩

instance (priority := high) : LawfulBEq Text := inferInstanceAs (LawfulBEq (List Char))

/-! Sums and powers of numbers are those of the core library in every module, whatever it imports. -/

instance (priority := high) zeroNat : Zero Nat := Zero.ofOfNat0

instance (priority := high) powNat : Pow Nat Nat := instPowNat

instance (priority := high) powInt : Pow Int Nat := instPowNat

/-- What holds of the characters of a text is decided on them, not on all characters there are. -/
instance (priority := high) {p : Char → Prop} [DecidablePred p] (t : Text) : Decidable (∀ c ∈ t, p c) :=
  List.decidableBAll p t

/-- Messages name places in a text by their byte in UTF-8. -/
def byteSize (t : Text) : Nat := (t.map Char.utf8Size).sum

@[simp] theorem byteSize_nil : byteSize [] = 0 := rfl

@[simp] theorem byteSize_cons (c : Char) (t : Text) :
    byteSize (c :: t) = c.utf8Size + byteSize t := by simp [byteSize]

@[simp] theorem byteSize_append (s t : Text) : byteSize (s ++ t) = byteSize s + byteSize t := by
  simp [byteSize]

def dropEndWhile {α : Type} (p : α → Bool) (l : List α) : List α := (l.reverse.dropWhile p).reverse

theorem dropEndWhile_append_takeWhile {α : Type} (p : α → Bool) (l : List α) :
    dropEndWhile p l ++ (l.reverse.takeWhile p).reverse = l := by
  rw [dropEndWhile, ← List.reverse_append, List.takeWhile_append_dropWhile, List.reverse_reverse]

def joinWith (separator : Text) (parts : List Text) : Text := separator.intercalate parts

def after? (first : Text) (t : Text) : Option Text :=
  if first.isPrefixOf t then some (t.drop first.length) else none

end QueryChain
