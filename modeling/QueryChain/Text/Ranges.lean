import QueryChain.Text.Basic

namespace QueryChain

abbrev Ranges := List (Nat × Nat)

def Ranges.has (r : Ranges) (c : Char) : Bool := r.any fun (lo, hi) => lo ≤ c.toNat && c.toNat ≤ hi

end QueryChain
