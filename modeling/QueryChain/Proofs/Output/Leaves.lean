import Mathlib.Data.List.Basic
import QueryChain.Fragment

namespace QueryChain.Fragment

inductive Leaf where
  | written (value : Text)
  | computed (expression : Text)
  deriving DecidableEq, Repr

def Leaf.value? : Leaf → Option Text
  | .written value => some value
  | .computed _ => none

def Leaf.expression? : Leaf → Option Text
  | .written _ => none
  | .computed expression => some expression

mutual

/-- The leaves of a fragment from left to right. -/
def leaves : Fragment → List Leaf
  | .literal value => [.written value]
  | .concat parts => leavesOfAll parts
  | .dynamic expression => [.computed expression]

def leavesOfAll : List Fragment → List Leaf
  | [] => []
  | part :: parts => part.leaves ++ leavesOfAll parts

end

def writtenText (ls : List Leaf) : Text := (ls.filterMap Leaf.value?).flatten

def firstComputed? (ls : List Leaf) : Option Text := ls.findSome? Leaf.expression?

/-- The reason to refuse an expression of the host code. -/
def runtimeIssue (expression : Text) : Issue :=
  .unsupportedFragment ("SQL depends on runtime expression `" ++ expression ++ "`")

section Leaves

variable {f : Fragment} {ks ls : List Leaf}

@[simp] theorem writtenText_append (ks ls : List Leaf) : writtenText (ks ++ ls) = writtenText ks ++ writtenText ls := by
  simp [writtenText]

theorem firstComputed?_append (ks ls : List Leaf) :
    firstComputed? (ks ++ ls) = (firstComputed? ks).or (firstComputed? ls) := List.findSome?_append

theorem firstComputed?_eq_none_iff : firstComputed? ls = none ↔ ∃ values : List Text, ls = values.map .written := by
  induction ls with
  | nil => exact ⟨fun _ => ⟨[], rfl⟩, fun _ => rfl⟩
  | cons leaf ls ih =>
    cases leaf with
    | written value =>
      have step : firstComputed? (.written value :: ls) = firstComputed? ls := rfl
      rw [step, ih]
      constructor
      · rintro ⟨values, rfl⟩
        exact ⟨value :: values, rfl⟩
      · rintro ⟨values, same⟩
        cases values with
        | nil => cases same
        | cons first values => exact ⟨values, (List.cons.inj same).2⟩
    | computed expression =>
      refine ⟨fun none => (by cases none), fun ⟨values, same⟩ => ?_⟩
      cases values with
      | nil => cases same
      | cons first values => exact absurd (List.cons.inj same).1 (by simp)

theorem firstComputed?_eq_some {expression : Text} (found : firstComputed? ls = some expression) :
    ∃ (values : List Text) (after : List Leaf), ls = values.map .written ++ .computed expression :: after := by
  obtain ⟨before, leaf, after, rfl, here, none⟩ := List.findSome?_eq_some_iff.mp found
  have front : firstComputed? before = .none := List.findSome?_eq_none_iff.mpr none
  obtain ⟨values, rfl⟩ := firstComputed?_eq_none_iff.mp front
  cases leaf with
  | written value => cases here
  | computed e =>
    obtain rfl : e = expression := Option.some.inj here
    exact ⟨values, after, rfl⟩

mutual

theorem isStatic_eq : (f : Fragment) → f.isStatic = (firstComputed? f.leaves).isNone
  | .literal _ => rfl
  | .concat parts => allStatic_eq parts
  | .dynamic _ => rfl

theorem allStatic_eq : (parts : List Fragment) → allStatic parts = (firstComputed? (leavesOfAll parts)).isNone
  | [] => rfl
  | part :: parts => by
    rw [allStatic, leavesOfAll, isStatic_eq part, allStatic_eq parts, firstComputed?_append, Option.isNone_or]

end

mutual

theorem resolveAfter_eq (before : Text) : (f : Fragment) → f.resolveAfter before =
    (firstComputed? f.leaves).elim (.ok (before ++ writtenText f.leaves)) fun e => .error (runtimeIssue e)
  | .literal value => by simp [resolveAfter, leaves, firstComputed?, writtenText, Leaf.value?, Leaf.expression?]
  | .concat parts => resolveAllAfter_eq before parts
  | .dynamic _ => rfl

theorem resolveAllAfter_eq (before : Text) : (parts : List Fragment) → resolveAllAfter before parts =
    (firstComputed? (leavesOfAll parts)).elim (.ok (before ++ writtenText (leavesOfAll parts)))
      fun e => .error (runtimeIssue e)
  | [] => by simp [resolveAllAfter, leavesOfAll, firstComputed?, writtenText]
  | part :: parts => by
    rw [resolveAllAfter, resolveAfter_eq before part, leavesOfAll, firstComputed?_append, writtenText_append]
    cases firstComputed? part.leaves with
    | none =>
      have rest := resolveAllAfter_eq (before ++ writtenText part.leaves) parts
      rwa [List.append_assoc] at rest
    | some e => rfl

end

mutual

theorem render_eq : (f : Fragment) → f.isStatic → f.render = writtenText f.leaves
  | .literal value, _ => by simp [render, leaves, writtenText, Leaf.value?]
  | .concat parts, static => renderAll_eq parts static
  | .dynamic _, static => by cases static

theorem renderAll_eq : (parts : List Fragment) → allStatic parts → renderAll parts = writtenText (leavesOfAll parts)
  | [], _ => rfl
  | part :: parts, static => by
    rw [allStatic, Bool.and_eq_true] at static
    rw [renderAll, leavesOfAll, writtenText_append, render_eq part static.1, renderAll_eq parts static.2]

end

theorem resolve_of_static (static : f.isStatic) : f.resolve = .ok (writtenText f.leaves) := by
  rw [isStatic_eq, Option.isNone_iff_eq_none] at static
  rw [resolve, resolveAfter_eq, static]
  rfl

theorem resolve_of_dynamic (dynamic : f.isStatic = false) : ∃ (values : List Text) (expression : Text) (after : List Leaf),
    f.leaves = values.map .written ++ .computed expression :: after ∧ f.resolve = .error (runtimeIssue expression) := by
  rw [isStatic_eq, Option.isNone_eq_false_iff, Option.isSome_iff_exists] at dynamic
  obtain ⟨expression, found⟩ := dynamic
  obtain ⟨values, after, parts⟩ := firstComputed?_eq_some found
  refine ⟨values, expression, after, parts, ?_⟩
  rw [resolve, resolveAfter_eq, found]
  rfl

end Leaves

/-- A fragment is refused for the leftmost of its expressions; without one it stands for the text of its leaves,
    however they are nested. -/
theorem resolves_by_leaves (f : Fragment) :
    ((∃ sql, f.resolve = .ok sql) ↔ f.isStatic) ∧
    (f.isStatic → f.resolve = .ok f.render ∧ f.render = writtenText f.leaves ∧
      ∀ reserved, f.convert reserved = QueryChain.convert reserved (writtenText f.leaves)) ∧
    (f.isStatic = false → ∃ (values : List Text) (expression : Text) (after : List Leaf),
      f.leaves = values.map .written ++ .computed expression :: after ∧ f.resolve = .error (runtimeIssue expression) ∧
      ∀ reserved, f.convert reserved = .error (runtimeIssue expression)) ∧
    ∀ g : Fragment, f.isStatic → g.isStatic → writtenText f.leaves = writtenText g.leaves →
      ∀ reserved, f.convert reserved = g.convert reserved := by
  have converts {g : Fragment} (static : g.isStatic) (reserved : ReservedWords) :
      g.convert reserved = QueryChain.convert reserved (writtenText g.leaves) := by
    rw [convert, resolve_of_static static]
    rfl
  refine ⟨⟨?_, fun static => ⟨_, resolve_of_static static⟩⟩, fun static => ⟨?_, render_eq f static, converts static⟩,
    fun dynamic => ?_, fun g static static' same reserved => ?_⟩
  · rintro ⟨sql, ok⟩
    by_contra other
    obtain ⟨_, _, _, _, refused⟩ := resolve_of_dynamic (by simpa using other)
    rw [refused] at ok
    cases ok
  · rw [render_eq f static]
    exact resolve_of_static static
  · obtain ⟨values, expression, after, parts, refused⟩ := resolve_of_dynamic dynamic
    refine ⟨values, expression, after, parts, refused, fun reserved => ?_⟩
    rw [convert, refused]
    rfl
  · rw [converts static, converts static', same]

def scattered : Fragment :=
  .concat [.literal "SELECT a FR", .concat [.concat [], .literal "OM t WHERE b = 'x"], .literal "", .literal " y' AND c = ?"]

def halfComputed : Fragment :=
  .concat [.literal "SELECT ", .concat [.literal "a", .dynamic "$from"], .literal " WHERE ", .dynamic "$rest"]

theorem resolves_by_leaves_scattered :
    scattered.isStatic ∧ scattered.resolve = .ok "SELECT a FROM t WHERE b = 'x y' AND c = ?".toList ∧
    scattered.convert default = (Fragment.literal "SELECT a FROM t WHERE b = 'x y' AND c = ?").convert default ∧
    halfComputed.isStatic = false ∧ halfComputed.resolve = .error (runtimeIssue "$from") := by
  have whole : writtenText scattered.leaves = "SELECT a FROM t WHERE b = 'x y' AND c = ?".toList := by decide
  have static : scattered.isStatic := by decide
  have dynamic : halfComputed.isStatic = false := by decide
  obtain ⟨-, text, -, alike⟩ := resolves_by_leaves scattered
  obtain ⟨-, -, refused, -⟩ := resolves_by_leaves halfComputed
  refine ⟨static, ?_, alike _ static rfl (by rw [whole]; decide) default, dynamic, ?_⟩
  · rw [(text static).1, (text static).2.1, whole]
  · obtain ⟨values, expression, after, parts, refusal, -⟩ := refused dynamic
    have first := congrArg firstComputed? parts
    have front : firstComputed? (values.map .written) = none := firstComputed?_eq_none_iff.mpr ⟨values, rfl⟩
    rw [firstComputed?_append, front] at first
    obtain rfl : "$from".toList = expression := Option.some.inj first
    exact refusal

end QueryChain.Fragment
