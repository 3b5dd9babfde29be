import QueryChain.Proofs.Woven.Statements

namespace QueryChain

section LetterCase

variable {t u : Text}

def Weave.letters : Weave where
  body := []
  body' := []
  inert := inert_nil
  inert' := inert_nil
  same c d := sameLetter c d
  refl := sameLetter_refl
  letter := id
  quiet := False

theorem bare_letters (same : upper t = upper u) : Weave.letters.Bare t u := by
  have letters : List.Forall₂ (fun c d : Char => c.toUpper = d.toUpper) t u := by
    rw [upper, upper, ← List.forall₂_eq_eq_eq, List.forall₂_map_left_iff, List.forall₂_map_right_iff] at same
    exact same
  exact letters.imp fun c d same => beq_iff_eq.mpr same

theorem upper_eq_of_letters (alike : Weave.letters.Alike t u) : upper t = upper u := by
  induction alike with
  | nil => rfl
  | char same _ ih => exact congrArg₂ List.cons (beq_iff_eq.mp same) ih
  | literal quiet => exact quiet.elim

/-- The case of letters decides nothing in a statement that names no parameter itself: neither whether
    it is converted, nor which calls come out. -/
theorem convert_ignores_case (reserved : ReservedWords) {sql sql' : Text} (same : upper sql = upper sql')
    (unmarked : Unmarked sql) :
    Agree (Conversion.Alike fun t u => upper t = upper u) (convert reserved sql) (convert reserved sql') := by
  have loud : ¬Weave.letters.quiet := not_false
  have woven : Woven Weave.letters {} sql sql' := (bare_letters same).woven loud
  have unmarked' : Unmarked sql' := by rwa [Unmarked, ← same]
  have cleaned := woven.normalize fun quiet => absurd quiet loud
  have names (kind : StatementKind) := (cleaned.statementNames kind).imp fun _ _ name => name.bare loud
  have agrees := agree_convert reserved woven (fun quiet => absurd quiet loud) (.inr ⟨unmarked, unmarked'⟩)
    fun kind _ => names kind
  exact agrees.imp fun _ _ alike => alike.imp fun _ _ => upper_eq_of_letters

def smallQuery : Text := "select a from t join u on b = ? order by c desc"

def mixedQuery : Text := "SELECT A From T Join U ON b = ? Order BY c DESC"

theorem convert_ignores_case_report : upper smallQuery = upper mixedQuery ∧ Unmarked smallQuery ∧
    ∃ c c', convert default smallQuery = .ok c ∧ convert default mixedQuery = .ok c' ∧
      c.calls.map Call.method = [.select, .addFrom, .join, .addOrderBy] ∧
      Conversion.Alike (fun t u => upper t = upper u) c c' := by
  have chars : smallQuery = _ := String.toList_ofList
  have same : upper smallQuery = upper mixedQuery := by decide +kernel
  have unmarked : Unmarked smallQuery := by
    rw [chars]
    decide +kernel
  have methods : (convert default smallQuery).map (·.calls.map Call.method) =
      .ok [.select, .addFrom, .join, .addOrderBy] := by
    rw [chars]
    decide +kernel
  have agree := convert_ignores_case default same unmarked
  refine ⟨same, unmarked, ?_⟩
  generalize convert default smallQuery = x at agree methods
  generalize convert default mixedQuery = y at agree
  cases agree with
  | ok alike => exact ⟨_, _, rfl, rfl, Except.ok.inj methods, alike⟩
  | error => cases methods

end LetterCase
end QueryChain
