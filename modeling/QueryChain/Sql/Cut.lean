import QueryChain.Sql.Keyword

namespace QueryChain

/-- Cuts an annotated text at its annotations. The word that starts there, of the given size, is
    left out; `skip` letters of one are still to be passed. -/
def cutWords {κ : Type} (size : κ → Nat) : Nat → List (Char × Option κ) → Text × List (κ × Text)
  | _, [] => ([], [])
  | skip + 1, _ :: rest => cutWords size skip rest
  | 0, (c, none) :: rest =>
    let (head, parts) := cutWords size 0 rest
    (c :: head, parts)
  | 0, (_, some k) :: rest =>
    let (head, parts) := cutWords size (size k - 1) rest
    ([], (k, head) :: parts)

end QueryChain
