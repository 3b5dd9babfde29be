import QueryChain.Proofs.ReadBack.Listing
import QueryChain.Proofs.Scan.Parted

namespace QueryChain

def Ended (t : Text) : Prop := ({} : ScanState).run t = {}

namespace ScanState

/-- Text written behind a character makes no difference to it unless the character, or a dash behind
    it, was the last one and opened something. -/
theorem role_append_of_code {s : ScanState} {c : Char} {t u : Text} (loose : Loose u)
    (code : s.mode = .code) (ends : (s.run (c :: t)).mode = .code) :
    Role.of c (t ++ u) = Role.of c t := by
  by_cases line : opensLineComment c t
  · have role : Role.of c t = .lineComment := by rw [Role.of, if_pos line]
    have still : opensLineComment c (t ++ u) := by
      rw [opensLineComment_eq] at line ⊢
      rcases t with _ | ⟨d, _ | ⟨e, t⟩⟩
      · simp_all
      · by_cases dash : c = '-' ∧ d = '-'
        · obtain ⟨rfl, rfl⟩ := dash
          rw [run, next, code, role] at ends
          cases ends
        · simp only [List.head?_cons, List.tail_cons] at line
          grind
      · simpa using line
    rw [role, Role.of, if_pos still]
  by_cases block : opensBlockComment c t
  · have role : Role.of c t = .blockComment := by rw [Role.of, if_neg line, if_pos block]
    have stillNot : ¬opensLineComment c (t ++ u) := by
      have slash : c = '/' := by simp_all [opensBlockComment]
      simp [opensLineComment_eq, slash]
    have still : opensBlockComment c (t ++ u) := by
      cases t with
      | nil => simp [opensBlockComment] at block
      | cons d t => simpa [opensBlockComment] using block
    rw [role, Role.of, if_neg stillNot, if_pos still]
  · exact role_append loose (by simpa using line) (by simpa using block)

theorem append_of_code {s : ScanState} {c : Char} {t u : Text} (loose : Loose u)
    (ends : (s.run (c :: t)).mode = .code) :
    s.mark c (t ++ u) = s.mark c t ∧ s.next c (t ++ u) = s.next c t := by
  by_cases code : s.mode = .code
  · have role := role_append_of_code loose code ends
    rw [mark, mark, next, next, role]
    exact ⟨rfl, rfl⟩
  · exact rest_indifferent code c _ _

/-- A text at whose end nothing is open is scanned alone as it is with more behind it. -/
theorem marks_append_of_code {s : ScanState} {t u : Text} (loose : Loose u)
    (ends : (s.run t).mode = .code) :
    s.marks (t ++ u) = s.marks t ++ (s.run t).marks u ∧ s.run (t ++ u) = (s.run t).run u := by
  induction t generalizing s with
  | nil => exact ⟨rfl, rfl⟩
  | cons c t ih =>
    obtain ⟨mark, next⟩ := append_of_code loose ends
    obtain ⟨marks, run_⟩ := ih (s := s.next c t) ends
    rw [List.cons_append, ScanState.marks, ScanState.marks, run, run, mark, next, marks, run_]
    exact ⟨rfl, rfl⟩

end ScanState

namespace Ended

variable {s t u : Text}

theorem scan_append (ended : Ended s) (loose : Loose u) : scan (s ++ u) = scan s ++ scan u := by
  have marks := (ScanState.marks_append_of_code (u := u) loose (congrArg ScanState.mode ended)).1
  rwa [ended] at marks

theorem append (first : Ended s) (second : Ended u) (loose : Loose u) : Ended (s ++ u) := by
  have run := (ScanState.marks_append_of_code (u := u) loose (congrArg ScanState.mode first)).2
  rwa [first, second] at run

theorem plain (all : ∀ c ∈ t, isPlain c) : Ended t := (Leads.plain rfl all).run

end Ended
end QueryChain
