import QueryChain.Conversion

namespace QueryChain

/-- The argument of a call that takes SQL, as the host code writes it. -/
inductive Fragment where
  | literal (value : Text)
  | concat (parts : List Fragment)
  | dynamic (expression : Text)

namespace Fragment

mutual

def isStatic : Fragment → Bool
  | .literal _ => true
  | .concat parts => allStatic parts
  | .dynamic _ => false

def allStatic : List Fragment → Bool
  | [] => true
  | part :: parts => part.isStatic && allStatic parts

end

mutual

def resolveAfter (before : Text) : Fragment → Except Issue Text
  | .literal value => .ok (before ++ value)
  | .concat parts => resolveAllAfter before parts
  | .dynamic expression =>
    .error (.unsupportedFragment ("SQL depends on runtime expression `" ++ expression ++ "`"))

def resolveAllAfter (before : Text) : List Fragment → Except Issue Text
  | [] => .ok before
  | part :: parts => do resolveAllAfter (← part.resolveAfter before) parts

end

def resolve (f : Fragment) : Except Issue Text := f.resolveAfter []

mutual

def render : Fragment → Text
  | .literal value => value
  | .concat parts => renderAll parts
  | .dynamic expression => "\x7b" ++ expression ++ "\x7d"

def renderAll : List Fragment → Text
  | [] => []
  | part :: parts => part.render ++ renderAll parts

end

def convert (reserved : ReservedWords) (f : Fragment) : Except Issue Conversion := do
  QueryChain.convert reserved (← f.resolve)

end Fragment
end QueryChain
