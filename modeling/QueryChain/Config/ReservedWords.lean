import QueryChain.Text.AsciiCase
import QueryChain.Text.Blank

namespace QueryChain

def insertSorted (word : Text) : List Text → List Text
  | [] => [word]
  | w :: ws =>
    if word = w then w :: ws else if word < w then word :: w :: ws else w :: insertSorted word ws

theorem mem_insertSorted {word w : Text} {ws : List Text} :
    w ∈ insertSorted word ws ↔ w = word ∨ w ∈ ws := by
  induction ws with
  | nil => simp [insertSorted]
  | cons v vs ih =>
    rw [insertSorted]
    split
    · rename_i same
      subst same
      simp
    · split
      · simp
      · rw [List.mem_cons, ih, List.mem_cons]
        grind

theorem insertSorted_ne_nil (word : Text) (ws : List Text) : insertSorted word ws ≠ [] := by
  intro empty
  have member : word ∈ insertSorted word ws := mem_insertSorted.mpr (.inl rfl)
  rw [empty] at member
  cases member

/-- The words that no alias may be, in upper case and sorted. There is always one. -/
structure ReservedWords where
  words : List Text
  ne_nil : words ≠ []
  deriving DecidableEq

namespace ReservedWords

def key (word : Text) : Text := upper (trim word)

def ofWords? (words : List Text) : Option ReservedWords :=
  let kept := ((words.map key).filter (· ≠ [])).foldr insertSorted []
  if h : kept ≠ [] then some ⟨kept, h⟩ else none

def contains (r : ReservedWords) (word : Text) : Bool := r.words.contains (upper word)

def insert (r : ReservedWords) (word : Text) : ReservedWords :=
  if key word = [] then r else ⟨insertSorted (key word) r.words, insertSorted_ne_nil _ _⟩

def standard : List Text :=
  (["AND", "AS", "BY", "CROSS", "FOR", "FORCE", "FROM", "FULL", "GROUP", "HAVING", "IGNORE",
    "INDEX", "INNER", "INTO", "JOIN", "LEFT", "LIMIT", "LOCK", "NATURAL", "NOT", "OFFSET", "ON",
    "OR", "ORDER", "OUTER", "PARTITION", "RETURNING", "RIGHT", "SELECT", "SET", "STRAIGHT_JOIN",
    "UNION", "USE", "USING", "VALUE", "VALUES", "WHERE", "WINDOW"] :
      List String).map String.toList

instance : Inhabited ReservedWords := ⟨⟨standard, by decide⟩⟩

theorem contains_insert (r : ReservedWords) (word w : Text) (h : r.contains w) :
    (r.insert word).contains w := by
  rw [insert]
  split
  · exact h
  · rw [contains, List.contains_iff_mem] at h ⊢
    exact mem_insertSorted.mpr (.inr h)

end ReservedWords
end QueryChain
