import Mathlib.Data.List.Flatten
import QueryChain.Proofs.Statement.Guarded
import QueryChain.Proofs.Params.Conditions

namespace QueryChain

/-- What is written in a text: its characters but blanks, in upper case. -/
def ink (t : Text) : Text := upper (t.filter (!isBlank ·))

section Ink

variable {t u : Text}

@[simp] theorem ink_nil : ink [] = [] := rfl

@[simp] theorem ink_append (t u : Text) : ink (t ++ u) = ink t ++ ink u := by
  simp [ink, upper]

theorem ink_of_blank (blank : ∀ c ∈ t, isBlank c) : ink t = [] := by
  have none : t.filter (!isBlank ·) = [] := by
    rw [List.filter_eq_nil_iff]
    intro c member
    simp [blank c member]
  rw [ink, none]
  rfl

theorem ink_ne_nil {c : Char} (member : c ∈ t) (full : isBlank c = false) : ink t ≠ [] := by
  intro none
  have kept : c ∈ t.filter (!isBlank ·) := List.mem_filter.mpr ⟨member, by simp [full]⟩
  rw [ink, upper, List.map_eq_nil_iff] at none
  rw [none] at kept
  cases kept

@[simp] theorem ink_trim (t : Text) : ink (trim t) = ink t := by
  obtain ⟨front, back, parts, blankFront, blankBack⟩ := trim_spec t
  conv_rhs => rw [parts]
  rw [ink_append, ink_append, ink_of_blank blankFront, ink_of_blank blankBack, List.nil_append,
    List.append_nil]

theorem ink_of_spells {w : Text} (isKeyword : IsKeyword [w]) (spells : Spells [w] u) : ink u = w := by
  obtain ⟨-, capital⟩ := isKeyword.2 w (by simp)
  have letters : upper w = upper u := by
    cases spells with
    | word letters => exact letters
  have noBlank : u.filter (!isBlank ·) = u := by
    rw [List.filter_eq_self]
    intro c member
    simp [isBlank_of_isKeywordChar c (isKeywordChar_of_upper capital letters c member)]
  have same : upper w = w := by
    rw [upper, List.map_congr_left fun c member => toUpper_of_isCapital c (capital c member),
      List.map_id']
  rw [ink, noBlank, ← letters, same]

end Ink
section Pieces

def Condition.ink (c : Condition) : Text :=
  (c.connective.map Connective.word).getD [] ++ QueryChain.ink c.text

def writtenPieces (t : Text) : List Condition :=
  let (head, parts) := cutWords (·.word.length) 0
    (splitPoints 0 false (Cursor.annotate logicWordAt? none (scan t)))
  ⟨trim head, none⟩ :: parts.map fun (k, body) => ⟨trim body, some k⟩

def opened : List Condition → List Condition
  | [] => []
  | first :: rest => { first with connective := none } :: rest

theorem conditionPieces_eq (t : Text) :
    conditionPieces t = opened ((writtenPieces t).filter (·.text ≠ [])) := rfl

theorem CutAt.ink {κ : Type} {word : κ → Text} {t : Text} {a : Nat} {head : Text}
    {parts : List (κ × Text)} (cut : CutAt word t a head parts) (isKeyword : ∀ k, IsKeyword [word k]) :
    ink (t.drop a) = QueryChain.ink head ++ parts.flatMap fun p => word p.1 ++ QueryChain.ink p.2 := by
  induction cut with
  | last => simp
  | @cut a n q k head parts le stands rest ih =>
    have bound := stands.bound
    have order := stands.le
    rw [← slice_append_drop le (by omega), ← slice_append_drop order bound, ink_append, ink_append,
      ih, ink_of_spells (isKeyword k) stands.spells, List.flatMap_cons, List.append_assoc]

/-- The pieces of a text and the connectives between them are all that is written in it. -/
theorem ink_writtenPieces (t : Text) : (writtenPieces t).flatMap Condition.ink = ink t := by
  have cut := (cutAt_conditionPieces t).ink isKeyword_connective
  rw [List.drop_zero] at cut
  rw [cut, writtenPieces]
  generalize cutWords (·.word.length) 0
    (splitPoints 0 false (Cursor.annotate logicWordAt? none (scan t))) = pieces
  obtain ⟨head, parts⟩ := pieces
  simp [Condition.ink, List.flatMap_map]

end Pieces
section Chain

variable {cs : List Condition}

theorem ink_opened_sublist (cs : List Condition) :
    ((opened cs).flatMap Condition.ink).Sublist (cs.flatMap Condition.ink) := by
  cases cs with
  | nil => exact List.Sublist.refl _
  | cons c cs =>
    rw [opened, List.flatMap_cons, List.flatMap_cons]
    apply List.Sublist.append_right
    exact List.sublist_append_right _ _

theorem ink_foldAnds (afterOr : Bool) (last : Condition) (rest : List Condition) :
    (foldAnds afterOr last rest).flatMap Condition.ink = (last :: rest).flatMap Condition.ink := by
  induction rest generalizing afterOr last with
  | nil => rfl
  | cons c rest ih =>
    rw [foldAnds]
    by_cases joins : afterOr ∧ c.connective = some .and
    · rw [if_pos joins, ih]
      have word : ink " AND " = Connective.and.word := by decide
      simp only [List.flatMap_cons, Condition.ink, joins.2, ink_append, word, Option.map_some,
        Option.getD_some, List.append_assoc]
    · rw [if_neg joins, List.flatMap_cons, ih]
      rfl

theorem ink_foldPrecedence (cs : List Condition) :
    (foldPrecedence cs).flatMap Condition.ink = cs.flatMap Condition.ink := by
  cases cs with
  | nil => rfl
  | cons first rest => exact ink_foldAnds _ first rest

theorem all_kept {α : Type} {p : α → Bool} {f : α → Text} {l : List α}
    (full : ∀ a ∈ l, p a = false → f a ≠ []) (same : (l.filter p).flatMap f = l.flatMap f) :
    ∀ a ∈ l, p a := by
  induction l with
  | nil => simp
  | cons a l ih =>
    have less := (List.Sublist.flatMap (List.filter_sublist (p := p) (l := l)) f).length_le
    rw [List.filter_cons] at same
    by_cases kept : p a
    · rw [if_pos kept, List.flatMap_cons, List.flatMap_cons] at same
      have rest := ih (fun b member => full b (by simp [member])) (List.append_cancel_left same)
      intro b member
      rcases List.mem_cons.mp member with rfl | later
      · exact kept
      · exact rest b later
    · rw [if_neg kept, List.flatMap_cons] at same
      have lengths := congrArg List.length same
      rw [List.length_append] at lengths
      have positive := List.length_pos_iff.mpr (full a (by simp) (by simpa using kept))
      omega

theorem ink_of_connective {c : Condition} (connected : c.connective ≠ none) : c.ink ≠ [] := by
  obtain ⟨k, connective⟩ := Option.ne_none_iff_exists'.mp connected
  rw [Condition.ink, connective]
  cases k <;> simp [Connective.word]

theorem length_ink_opened {c : Condition} (cs : List Condition) (connected : c.connective ≠ none) :
    ((opened (c :: cs)).flatMap Condition.ink).length < ((c :: cs).flatMap Condition.ink).length := by
  obtain ⟨k, connective⟩ := Option.ne_none_iff_exists'.mp connected
  have long : 0 < k.word.length := by cases k <;> decide
  simp only [opened, List.flatMap_cons, Condition.ink, connective, Option.map_some, Option.map_none,
    Option.getD_some, Option.getD_none, List.length_append, List.length_nil]
  omega

/-- A chain without its empty pieces has all that is written just if there were none. -/
theorem ink_opened_iff {first : Condition} (noWord : first.connective = none)
    (connected : ∀ c ∈ cs, c.connective ≠ none) (some_ : (first :: cs).filter (·.text ≠ []) ≠ []) :
    (opened ((first :: cs).filter (·.text ≠ []))).flatMap Condition.ink =
        (first :: cs).flatMap Condition.ink ↔ ∀ c ∈ first :: cs, c.text ≠ [] := by
  constructor
  · intro same
    have less := (List.Sublist.flatMap
      (List.filter_sublist (p := fun c : Condition => c.text ≠ []) (l := cs)) Condition.ink).length_le
    have firstFull : first.text ≠ [] := by
      intro empty
      rw [List.filter_cons, if_neg (by simpa using empty)] at same some_
      obtain ⟨c, rest, kept⟩ := List.exists_cons_of_ne_nil some_
      have inRest : c ∈ cs := List.mem_of_mem_filter (by rw [kept]; exact List.mem_cons_self)
      have shorter := length_ink_opened rest (connected c inRest)
      have lengths := congrArg List.length same
      rw [kept] at lengths less
      rw [List.flatMap_cons (x := first), List.length_append] at lengths
      omega
    rw [List.filter_cons, if_pos (by simpa using firstFull), opened, List.flatMap_cons,
      List.flatMap_cons, show ({ first with connective := none } : Condition) = first by rw [← noWord]]
      at same
    have kept := all_kept (fun c member _ => ink_of_connective (connected c member))
      (List.append_cancel_left same)
    intro c member
    rcases List.mem_cons.mp member with rfl | later
    · exact firstFull
    · simpa using kept c later
  · intro full
    have kept : (first :: cs).filter (·.text ≠ []) = first :: cs := by
      rw [List.filter_eq_self]
      intro c member
      simpa using full c member
    rw [kept, opened, show ({ first with connective := none } : Condition) = first by rw [← noWord]]

end Chain
section Split

variable {t : Text}

def SplitsWhole (t : Text) : Prop :=
  ¬isGroup t → 2 ≤ (conditionPieces t).length → ∀ c ∈ writtenPieces t, c.text ≠ []

theorem splitConditions_eq_self (full : t ≠ []) (single : isGroup t ∨ (conditionPieces t).length < 2) :
    splitConditions t = [⟨t, none⟩] := by
  rw [splitConditions, if_neg full]
  by_cases group : isGroup t
  · rw [if_pos group]
  · rw [if_neg group, if_pos (single.resolve_left group)]

theorem ink_conditionPieces_sublist (t : Text) :
    ((conditionPieces t).flatMap Condition.ink).Sublist (ink t) := by
  rw [conditionPieces_eq, ← ink_writtenPieces]
  exact (ink_opened_sublist _).trans (List.Sublist.flatMap List.filter_sublist _)

/-- No more than what is written in a text gets into its conditions. -/
theorem ink_splitConditions_sublist (t : Text) :
    ((splitConditions t).flatMap Condition.ink).Sublist (ink t) := by
  by_cases empty : t = []
  · rw [empty]
    exact List.Sublist.refl _
  by_cases single : isGroup t ∨ (conditionPieces t).length < 2
  · rw [splitConditions_eq_self empty single]
    simp [Condition.ink]
  · obtain ⟨noGroup, many⟩ := not_or.mp single
    rw [splitConditions, if_neg empty, if_neg noGroup, if_neg many, ink_foldPrecedence]
    exact ink_conditionPieces_sublist t

theorem ink_conditionPieces_iff (many : 2 ≤ (conditionPieces t).length) :
    (conditionPieces t).flatMap Condition.ink = ink t ↔ ∀ c ∈ writtenPieces t, c.text ≠ [] := by
  rw [conditionPieces_eq] at many ⊢
  rw [← ink_writtenPieces]
  apply ink_opened_iff rfl
  swap
  · intro none
    have few : opened ((writtenPieces t).filter (·.text ≠ [])) = [] := by
      rw [writtenPieces, none]
      rfl
    rw [few] at many
    exact absurd many (by decide)
  intro c member
  obtain ⟨part, -, rfl⟩ := List.mem_map.mp member
  simp

/-- The conditions of a text are all that is written in it just if it splits whole. -/
theorem ink_splitConditions_iff (t : Text) :
    (splitConditions t).flatMap Condition.ink = ink t ↔ SplitsWhole t := by
  by_cases empty : t = []
  · rw [empty]
    exact ⟨fun _ _ many => absurd many (by decide), fun _ => rfl⟩
  by_cases single : isGroup t ∨ (conditionPieces t).length < 2
  · rw [splitConditions_eq_self empty single]
    constructor
    · intro _ noGroup many
      rcases single with group | few
      · exact absurd group noGroup
      · omega
    · intro _
      simp [Condition.ink]
  · obtain ⟨noGroup, many⟩ := not_or.mp single
    rw [splitConditions, if_neg empty, if_neg noGroup, if_neg many, ink_foldPrecedence,
      ink_conditionPieces_iff (by omega)]
    exact ⟨fun full _ _ => full, fun whole => whole noGroup (by omega)⟩

end Split
section Emitted

variable {cs : List Condition} {c : Clauses}

structure Chained (cs : List Condition) : Prop where
  first : ∀ c ∈ cs.head?, c.connective = none
  later : ∀ c ∈ cs.tail, c.connective ≠ none

theorem connective_foldAnds (afterOr : Bool) (last : Condition) {rest : List Condition}
    (connected : ∀ c ∈ rest, c.connective ≠ none) :
    (∀ c ∈ (foldAnds afterOr last rest).head?, c.connective = last.connective) ∧
      ∀ c ∈ (foldAnds afterOr last rest).tail, c.connective ≠ none := by
  induction rest generalizing afterOr last with
  | nil => simp [foldAnds]
  | cons c rest ih =>
    rw [foldAnds]
    have inRest : ∀ d ∈ rest, d.connective ≠ none := fun d member => connected d (by simp [member])
    by_cases joins : afterOr ∧ c.connective = some .and
    · rw [if_pos joins]
      exact ih _ _ inRest
    · rw [if_neg joins]
      refine ⟨by simp, ?_⟩
      intro d member
      obtain ⟨first, later⟩ := ih (afterOr || c.connective == some .or) c inRest
      rw [List.tail_cons] at member
      cases chain : foldAnds (afterOr || c.connective == some .or) c rest with
      | nil =>
        rw [chain] at member
        cases member
      | cons e more =>
        rw [chain] at member first later
        rcases List.mem_cons.mp member with rfl | inMore
        · rw [first d rfl]
          exact connected c (by simp)
        · exact later d inMore

theorem chained_conditionPieces (t : Text) : Chained (conditionPieces t) := by
  have connected : ∀ c ∈ (writtenPieces t).tail, c.connective ≠ none := by
    intro c member
    obtain ⟨part, -, rfl⟩ := List.mem_map.mp member
    simp
  rw [conditionPieces_eq]
  cases kept : (writtenPieces t).filter (·.text ≠ []) with
  | nil => exact ⟨by simp [opened], by simp [opened]⟩
  | cons first rest =>
    refine ⟨by simp [opened], ?_⟩
    intro c member
    apply connected
    have behind : rest.Sublist (writtenPieces t).tail := by
      have part : (first :: rest).Sublist (writtenPieces t) := kept ▸ List.filter_sublist
      exact part.tail
    exact behind.subset member

theorem chained_splitConditions (t : Text) : Chained (splitConditions t) := by
  by_cases empty : t = []
  · rw [empty]
    exact ⟨by simp [splitConditions], by simp [splitConditions]⟩
  by_cases single : isGroup t ∨ (conditionPieces t).length < 2
  · rw [splitConditions_eq_self empty single]
    exact ⟨by simp, by simp⟩
  · obtain ⟨noGroup, many⟩ := not_or.mp single
    rw [splitConditions, if_neg empty, if_neg noGroup, if_neg many]
    have chained := chained_conditionPieces t
    cases pieces : conditionPieces t with
    | nil => exact ⟨by simp [foldPrecedence], by simp [foldPrecedence]⟩
    | cons first rest =>
      rw [pieces] at chained
      obtain ⟨start, later⟩ := connective_foldAnds (first.connective == some .or) first chained.later
      exact ⟨fun c member => (start c member).trans (chained.first first rfl), later⟩

def Call.conditionInk (call : Call) : Text :=
  let text := call.args.flatMap fun
    | .str t => ink t
    | _ => []
  match call.method with
  | .firstWhere => text
  | .andWhere => Connective.and.word ++ text
  | .orWhere => Connective.or.word ++ text
  | _ => []

theorem conditionInk_laterConditionCall {c : Condition} (connected : c.connective ≠ none) :
    (laterConditionCall c).conditionInk = c.ink := by
  obtain ⟨k, connective⟩ := Option.ne_none_iff_exists'.mp connected
  cases k <;> simp [laterConditionCall, Call.conditionInk, Condition.ink, connective]

theorem conditionInk_conditionCalls (chained : Chained cs) :
    (conditionCalls cs).flatMap Call.conditionInk = cs.flatMap Condition.ink := by
  cases cs with
  | nil => rfl
  | cons first rest =>
    have start : first.connective = none := chained.first first rfl
    have here : Call.conditionInk ⟨.firstWhere, [.str first.text]⟩ = first.ink := by
      simp [Call.conditionInk, Condition.ink, start]
    rw [conditionCalls, List.flatMap_cons, List.flatMap_cons, here, List.flatMap_map]
    congr 1
    exact List.flatMap_congr fun c member => conditionInk_laterConditionCall (chained.later c member)

theorem conditionInk_map {α : Type} {f : α → Call} (silent : ∀ a, (f a).conditionInk = []) (l : List α) :
    (l.map f).flatMap Call.conditionInk = [] := by
  rw [List.flatMap_map, List.flatMap_eq_nil_iff]
  exact fun a _ => silent a

theorem conditionInk_joinCalls (c : Clauses) : c.joinCalls.flatMap Call.conditionInk = [] := by
  rw [Clauses.joinCalls]
  cases c.mainReference? with
  | none => rfl
  | some main =>
    apply conditionInk_map
    intro join
    cases kind : join.kind <;> simp [joinCall, JoinKind.method, kind, Call.conditionInk]

theorem conditionInk_selectCalls (c : Clauses) :
    c.selectCalls.flatMap Call.conditionInk = (conditionCalls c.conditions).flatMap Call.conditionInk := by
  have fields : (if c.fields = [] then ([] : List Call) else [⟨.select, c.fields.map .str⟩]).flatMap
      Call.conditionInk = [] := by
    split_ifs <;> rfl
  have distinct : (if c.distinct then ([⟨.distinct, []⟩] : List Call) else []).flatMap
      Call.conditionInk = [] := by
    split_ifs <;> rfl
  have tables := conditionInk_map (f := tableCall .addFrom) (fun _ => rfl) (c.table.toList ++ c.extraTables)
  have groups := conditionInk_map (f := fun field => ⟨.addGroupBy, [.str field]⟩) (fun _ => rfl) c.groupBy
  have having := conditionInk_map (f := fun having => ⟨.having, [.str having]⟩) (fun _ => rfl)
    c.having.toList
  have order : c.orderCalls.flatMap Call.conditionInk = [] := conditionInk_map (fun _ => rfl) _
  have limit : c.limitCalls.flatMap Call.conditionInk = [] := conditionInk_map (fun _ => rfl) _
  have offset := conditionInk_map (f := fun b => ⟨.setFirstResult, [b.arg]⟩) (fun _ => rfl) c.offset.toList
  rw [Clauses.selectCalls]
  simp only [List.flatMap_append, fields, distinct, tables, conditionInk_joinCalls, groups, having,
    order, limit, offset, List.nil_append, List.append_nil]

/-- Of the calls for a statement only those for its conditions speak of its `WHERE` section. -/
theorem conditionInk_calls (other : c.kind ≠ .insert) :
    c.calls.flatMap Call.conditionInk = (conditionCalls c.conditions).flatMap Call.conditionInk := by
  have order : c.orderCalls.flatMap Call.conditionInk = [] := conditionInk_map (fun _ => rfl) _
  have limit : c.limitCalls.flatMap Call.conditionInk = [] := conditionInk_map (fun _ => rfl) _
  rw [Clauses.calls]
  cases kind : c.kind with
  | insert => exact absurd kind other
  | select => exact conditionInk_selectCalls c
  | update =>
    have table : (c.tableCalls .update).flatMap Call.conditionInk = [] := conditionInk_map (fun _ => rfl) _
    have pairs := conditionInk_map (f := assignmentCall .set) (fun _ => rfl) c.assignments
    simp only [Clauses.updateCalls, List.flatMap_append, table, pairs, conditionInk_joinCalls, order,
      limit, List.nil_append, List.append_nil]
  | delete =>
    have table : (c.tableCalls .delete).flatMap Call.conditionInk = [] := conditionInk_map (fun _ => rfl) _
    simp only [Clauses.deleteCalls, List.flatMap_append, table, conditionInk_joinCalls, order, limit,
      List.nil_append, List.append_nil]

end Emitted
end QueryChain
