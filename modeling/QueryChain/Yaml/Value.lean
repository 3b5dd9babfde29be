import QueryChain.Yaml.Node
import QueryChain.Yaml.Scalar

namespace QueryChain.Yaml

/-- What a node means. A tag that is local to the document stays with its value. -/
inductive Value where
  | scalar (s : Scalar)
  | sequence (items : List Value)
  | mapping (entries : List (Value × Value))
  | tagged (tag : Text) (value : Value)

namespace Value

mutual

def same : Value → Value → Bool
  | scalar a, scalar b => a == b
  | sequence as, sequence bs => sameItems as bs
  | mapping as, mapping bs => as.length == bs.length && hasEntries as bs
  | tagged s a, tagged t b => s == t && same a b
  | _, _ => false

def sameItems : List Value → List Value → Bool
  | [], [] => true
  | a :: as, b :: bs => same a b && sameItems as bs
  | _, _ => false

def hasEntries : List (Value × Value) → List (Value × Value) → Bool
  | [], _ => true
  | (key, value) :: es, bs =>
    bs.any (fun b => same key b.1 && same value b.2) && hasEntries es bs

end

def untagged : Value → Value
  | tagged _ v => v
  | v => v

def isNull (v : Value) : Bool :=
  match v.untagged with
  | scalar .null => true
  | _ => false

def string? (v : Value) : Option Text :=
  match v.untagged with
  | scalar (.string t) => some t
  | _ => none

def items? (v : Value) : Option (List Value) :=
  match v.untagged with
  | sequence items => some items
  | scalar .null => some []
  | _ => none

def nat? (v : Value) : Option Nat :=
  match v.untagged with
  | scalar (.whole n) => if 0 ≤ n then some n.toNat else none
  | _ => none

def name? : Value → Option Text
  | scalar (.string t) => some t
  | tagged tag (scalar .null) => some ((after? ['!'] tag).getD tag)
  | _ => none

def localTag? (p : Properties) : Option Text := p.tag.bind (after? ['!'])

def withTag? (p : Properties) (v : Value) : Option Value :=
  match localTag? p with
  | some [] => none
  | some tag => some (tagged tag v)
  | none => some v

def ofScalar? (p : Properties) (isPlain : Bool) (t : Text) : Option Value := do
  let tag := if (localTag? p).isSome then none else p.tag
  withTag? p (scalar (← Scalar.ofTagged? tag isPlain t))

abbrev Reader := StateT Nat Option

def mostRepeats : Nat := 100

def deepest : Nat := 128

def follow (root : Node) : Node → Reader Node
  | .repeated number => fun count =>
    if count < mostRepeats * root.size then some (root.resolve (.repeated number), count + 1)
    else none
  | n => pure n

def addEntry (entries : List (Value × Value)) (key : Value) (value : Reader Value) :
    Reader (List (Value × Value)) := do
  guard (!entries.any fun e => e.1.same key)
  return entries ++ [(key, ← value)]

def read (root : Node) : Nat → Node → Reader Value
  | 0, n => do
    match ← follow root n with
    | .scalar p isPlain text => ofScalar? p isPlain text
    | _ => failure
  | room + 1, n => do
    match ← follow root n with
    | .scalar p isPlain text => ofScalar? p isPlain text
    | .sequence p items => withTag? p (sequence (← items.mapM (read root room)))
    | .mapping p entries =>
      let step (known : List (Value × Value)) (e : Node × Node) := do
        addEntry known (← read root room e.1) (read root room e.2)
      withTag? p (mapping (← entries.foldlM step []))
    | .repeated _ => failure

def ofDocument? (root : Node) : Option Value := (read root deepest root).run' 0

end Value
end QueryChain.Yaml
