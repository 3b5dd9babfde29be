import QueryChain.Proofs.Scan.State
import QueryChain.Sql.Placeholder

namespace QueryChain

/-- What of a scan mode the reading of parameter names keeps track of: the open quote, and whether
    a backslash stands in front. -/
def Mode.quoting : Mode → Option Char × Bool
  | .quote q escaped => (some q, escaped)
  | _ => (none, false)

def quotingBehind (w : Option Char × Bool) (c : Char) : Option Char × Bool :=
  match w with
  | (some q, true) => (some q, false)
  | (some q, false) =>
    if c = '\\' ∧ q ≠ '`' then (some q, true) else (if c = q then none else some q, false)
  | (none, _) => (if isQuote c then some c else none, false)

def paramsWithin (w : Option Char × Bool) (t : Text) : List Nat := paramsFrom w.1 w.2 t

theorem paramsWithin_none (t : Text) : paramsWithin (none, false) t = paramsIn t := rfl

theorem paramsWithin_cons (w : Option Char × Bool) (c : Char) (rest : Text) :
    paramsWithin w (c :: rest) =
      (if w.1 = none then (paramAtStart? (c :: rest)).toList else []) ++
        paramsWithin (quotingBehind w c) rest := by
  obtain ⟨quote, escaped⟩ := w
  cases quote with
  | none => simp [paramsWithin, paramsFrom, quotingBehind]
  | some q =>
    cases escaped with
    | true => simp [paramsWithin, paramsFrom, quotingBehind]
    | false =>
      by_cases backslash : c = '\\' ∧ q ≠ '`'
      · simp [paramsWithin, paramsFrom, quotingBehind, backslash]
      · simp [paramsWithin, paramsFrom, quotingBehind, backslash]

def Apart (s u : Text) : Prop := ∀ x, x ≠ [] → x <:+ s → paramAtStart? (x ++ u) = paramAtStart? x

theorem Apart.tail {c : Char} {s u : Text} (apart : Apart (c :: s) u) : Apart s u := by
  intro x full suffix
  exact apart x full (suffix.trans (List.suffix_cons c s))

theorem paramsWithin_append (w : Option Char × Bool) (s u : Text) (apart : Apart s u) :
    paramsWithin w (s ++ u) = paramsWithin w s ++ paramsWithin (s.foldl quotingBehind w) u := by
  induction s generalizing w with
  | nil => simp [paramsWithin, paramsFrom]
  | cons c s ih =>
    have here := apart (c :: s) (by simp) (List.suffix_refl _)
    rw [List.cons_append] at here ⊢
    rw [paramsWithin_cons, paramsWithin_cons, here, ih _ apart.tail, List.append_assoc,
      List.foldl_cons]

section NameChars

theorem after?_eq_some_iff {first t rest : Text} : after? first t = some rest ↔ t = first ++ rest := by
  rw [after?]
  constructor
  · intro found
    split at found
    · rename_i starts
      cases found
      exact (List.prefix_iff_eq_append.mp (List.isPrefixOf_iff_prefix.mp starts)).symm
    · cases found
  · rintro rfl
    rw [if_pos (List.isPrefixOf_iff_prefix.mpr (List.prefix_append _ _)), List.drop_left]

theorem paramAtStart?_name (rest : Text) :
    paramAtStart? (paramMarker ++ rest) = number? (rest.takeWhile Char.isDigit) := by
  rw [paramAtStart?, after?_eq_some_iff.mpr rfl, Option.bind_some]

theorem paramAtStart?_eq_none {t : Text} (other : ∀ rest, t ≠ paramMarker ++ rest) :
    paramAtStart? t = none := by
  have none : after? paramMarker t = none := by
    rw [Option.eq_none_iff_forall_ne_some]
    intro rest found
    exact other rest (after?_eq_some_iff.mp found)
  rw [paramAtStart?, none, Option.bind_none]

def isNameChar (c : Char) : Bool := "param".toList.contains c || c.isDigit

/-- A name that runs over the end of a text has its colon there, or goes on with such characters. -/
theorem straddle {x u rest : Text} (full : x ≠ []) (short : x.length < paramMarker.length)
    (whole : x ++ u = paramMarker ++ rest) :
    u.head?.any isNameChar ∧ (x.getLast?.any isNameChar ∨ x.getLast? = some ':' ∧ u.head? = some 'p') := by
  have marker : paramMarker = [':', 'p', 'a', 'r', 'a', 'm'] := by decide
  rw [marker] at whole short
  match x, full, short, whole with
  | [a], _, _, whole =>
    cases u <;> simp_all [isNameChar]
  | [a, b], _, _, whole =>
    cases u <;> simp_all [isNameChar]
  | [a, b, c], _, _, whole =>
    cases u <;> simp_all [isNameChar]
  | [a, b, c, d], _, _, whole =>
    cases u <;> simp_all [isNameChar]
  | [a, b, c, d, e], _, _, whole =>
    cases u <;> simp_all [isNameChar]
  | a :: b :: c :: d :: e :: f :: more, _, short, _ =>
    simp only [List.length_cons, List.length_nil] at short
    omega

theorem takeWhile_append_of_stop {α : Type} {p : α → Bool} {r u : List α}
    (stop : u.head?.any p = false ∨ r ≠ [] ∧ r.getLast?.any p = false) :
    (r ++ u).takeWhile p = r.takeWhile p := by
  induction r with
  | nil =>
    rcases stop with noHead | ⟨full, -⟩
    · cases u with
      | nil => rfl
      | cons c u =>
        have no : p c = false := by simpa using noHead
        simp [no]
    · exact absurd rfl full
  | cons c r ih =>
    rw [List.cons_append, List.takeWhile_cons, List.takeWhile_cons]
    by_cases holds : p c
    · rw [if_pos holds, if_pos holds]
      congr 1
      by_cases empty : r = []
      · subst empty
        rcases stop with noHead | ⟨-, noLast⟩
        · exact ih (.inl noHead)
        · simp [holds] at noLast
      · apply ih
        rcases stop with noHead | ⟨-, noLast⟩
        · exact .inl noHead
        · refine .inr ⟨empty, ?_⟩
          rwa [List.getLast?_cons_of_ne_nil empty] at noLast
    · rw [if_neg holds, if_neg holds]

theorem isNameChar_of_isDigit {c : Char} (digit : c.isDigit) : isNameChar c := by
  simp [isNameChar, digit]

theorem any_isDigit_of_isNameChar {o : Option Char} (no : o.any isNameChar = false) :
    o.any Char.isDigit = false := by
  cases o with
  | none => rfl
  | some c =>
    rw [Option.any_some] at no ⊢
    by_contra digit
    rw [isNameChar_of_isDigit (by simpa using digit)] at no
    cases no

/-- Texts are apart if no name can go on at the start of the second, or none can be going on at the
    end of the first. -/
theorem apart_of {s u : Text} (stop : u.head?.any isNameChar = false ∨
    s.getLast?.any isNameChar = false ∧ (s.getLast? ≠ some ':' ∨ u.head? ≠ some 'p')) : Apart s u := by
  intro x full suffix
  have last : s.getLast? = x.getLast? := by
    obtain ⟨front, rfl⟩ := suffix
    rw [List.getLast?_append, List.getLast?_eq_some_getLast full, Option.some_or]
  rw [last] at stop
  cases found : after? paramMarker x with
  | some r =>
    obtain rfl := after?_eq_some_iff.mp found
    rw [List.append_assoc, paramAtStart?_name, paramAtStart?_name]
    congr 1
    apply takeWhile_append_of_stop
    rcases stop with noHead | ⟨noLast, -⟩
    · exact .inl (any_isDigit_of_isNameChar noHead)
    · right
      by_cases empty : r = []
      · rw [empty, List.append_nil] at noLast
        cases noLast
      · rw [List.getLast?_append, List.getLast?_eq_some_getLast empty, Option.some_or] at noLast
        refine ⟨empty, ?_⟩
        rw [List.getLast?_eq_some_getLast empty]
        exact any_isDigit_of_isNameChar noLast
  | none =>
    have other : ∀ rest, x ≠ paramMarker ++ rest := by
      intro rest eq
      rw [after?_eq_some_iff.mpr eq] at found
      cases found
    rw [paramAtStart?_eq_none other]
    apply paramAtStart?_eq_none
    intro rest whole
    by_cases long : paramMarker.length ≤ x.length
    · have starts : paramMarker <+: x :=
        List.prefix_of_prefix_length_le ⟨rest, whole.symm⟩ (List.prefix_append x u) long
      obtain ⟨r, eq⟩ := starts
      exact other r eq.symm
    · obtain ⟨goesOn, going⟩ := straddle full (by omega) whole
      rcases stop with noHead | ⟨noLast, noColon⟩
      · rw [goesOn] at noHead
        cases noHead
      · rcases going with letter | ⟨colon, p⟩
        · rw [letter] at noLast
          cases noLast
        · rcases noColon with other | other
          · exact other colon
          · exact other p

end NameChars

section Dashes

def DashesOnly (s : ScanState) (t : Text) : Prop := ∀ m ∈ s.marks t, m.kind = .comment → m.char = '-'

def Mode.isQuiet : Mode → Bool
  | .code | .quote _ _ | .lineComment => true
  | .opener | .blockComment _ => false

theorem isQuote_of_role {c : Char} {rest : Text} :
    isQuote c = (Role.of c rest == .quote) ∨ Role.of c rest = .lineComment ∨
      Role.of c rest = .blockComment := by
  rw [Role.of]
  by_cases line : opensLineComment c rest
  · exact .inr (.inl (if_pos line))
  rw [if_neg line]
  by_cases block : opensBlockComment c rest
  · exact .inr (.inr (if_pos block))
  rw [if_neg block]
  left
  by_cases quote : isQuote c
  · rw [if_pos quote, quote]
    rfl
  · rw [if_neg quote, Bool.eq_false_iff.mpr quote]
    split_ifs <;> rfl

theorem dash_opens_no_block {rest : Text} : Role.of '-' rest ≠ .blockComment := by
  have block : opensBlockComment '-' rest = false := rfl
  rw [Role.of, block]
  split_ifs <;> simp_all

theorem kind_comment_iff {d : Nat} {c : Char} {rest : Text} :
    ((⟨.code, d⟩ : ScanState).mark c rest).kind = .comment ↔
      Role.of c rest = .lineComment ∨ Role.of c rest = .blockComment := by
  simp only [ScanState.mark]
  cases Role.of c rest <;> simp

theorem next_quiet {s : ScanState} {c : Char} {rest : Text} (quiet : s.mode.isQuiet)
    (dash : (s.mark c rest).kind = .comment → c = '-') :
    (s.next c rest).mode.isQuiet ∧ (s.next c rest).mode.quoting = quotingBehind s.mode.quoting c := by
  obtain ⟨mode, depth⟩ := s
  cases mode with
  | code =>
    simp only [ScanState.next, ScanState.mark] at dash ⊢
    have quote := @isQuote_of_role c rest
    cases role : Role.of c rest with
    | lineComment =>
      rw [role] at dash
      obtain rfl := dash rfl
      exact ⟨rfl, rfl⟩
    | blockComment =>
      rw [role] at dash
      obtain rfl := dash rfl
      exact absurd role dash_opens_no_block
    | quote => simp_all [Mode.isQuiet, Mode.quoting, quotingBehind]
    | opening => simp_all [Mode.isQuiet, Mode.quoting, quotingBehind]
    | closing => simp_all [Mode.isQuiet, Mode.quoting, quotingBehind]
    | plain => simp_all [Mode.isQuiet, Mode.quoting, quotingBehind]
  | quote q escaped =>
    cases escaped with
    | true => exact ⟨rfl, rfl⟩
    | false =>
      simp only [ScanState.next, Mode.quoting, quotingBehind]
      split_ifs <;> exact ⟨rfl, rfl⟩
  | lineComment =>
    simp only [ScanState.next, ScanState.mark] at dash ⊢
    by_cases feed : c = '\n'
    · rw [if_pos feed, feed]
      exact ⟨rfl, rfl⟩
    · rw [if_neg feed] at dash ⊢
      obtain rfl := dash rfl
      exact ⟨rfl, rfl⟩
  | opener => cases quiet
  | blockComment star => cases quiet

/-- Where comments are dashes only, what is open behind a text is the quote that was kept track of. -/
theorem quoting_behind {s : ScanState} {t rest : Text} (quiet : s.mode.isQuiet)
    (dashes : DashesOnly s (t ++ rest)) :
    (s.behind t rest).mode.isQuiet ∧
      (s.behind t rest).mode.quoting = t.foldl quotingBehind s.mode.quoting := by
  induction t generalizing s with
  | nil => exact ⟨quiet, rfl⟩
  | cons c t ih =>
    have here := dashes (s.mark c (t ++ rest)) (by simp [ScanState.marks])
    rw [ScanState.mark_char] at here
    obtain ⟨quietNext, step⟩ := next_quiet quiet here
    obtain ⟨quietBehind, all⟩ := ih quietNext fun m member => dashes m (by simp [ScanState.marks, member])
    rw [ScanState.behind, List.foldl_cons, ← step]
    exact ⟨quietBehind, all⟩

/-- Only a dash at the end of a text, or in front of one there, has another role than in place. -/
theorem role_cut_dash {c : Char} {t u : Text}
    (dash : Role.of c (t ++ u) = .lineComment ∨ Role.of c (t ++ u) = .blockComment → c = '-') :
    Role.of c t = Role.of c (t ++ u) ∨ c = '-' ∧ (t = [] ∨ t = ['-']) := by
  by_cases line : opensLineComment c (t ++ u)
  · have role : Role.of c (t ++ u) = .lineComment := by rw [Role.of, if_pos line]
    obtain rfl := dash (.inl role)
    rcases t with _ | ⟨d, t⟩
    · exact .inr ⟨rfl, .inl rfl⟩
    · by_cases isDash : d = '-'
      · subst isDash
        cases t with
        | nil => exact .inr ⟨rfl, .inr rfl⟩
        | cons e t =>
          left
          rw [role, Role.of, if_pos]
          simpa [opensLineComment] using line
      · cases t <;> simp [opensLineComment, isDash] at line
  · by_cases block : opensBlockComment c (t ++ u)
    · have role : Role.of c (t ++ u) = .blockComment := by rw [Role.of, if_neg line, if_pos block]
      obtain rfl := dash (.inr role)
      cases block
    · rw [Bool.not_eq_true] at line block
      rcases role_cut c t u line block with same | ⟨isDash, rest⟩
      · exact .inl same
      · exact .inr ⟨isDash, .inr rest⟩

/-- Kinds of marks do not depend on the depth, and cutting a text off behind dashes makes them a
    comment at most. -/
theorem dashesOnly_cut {s s' : ScanState} {t u : Text} (quiet : s.mode.isQuiet)
    (mode : s.mode = s'.mode) (dashes : DashesOnly s (t ++ u)) : DashesOnly s' t := by
  induction t generalizing s s' with
  | nil => simp [DashesOnly, ScanState.marks]
  | cons c t ih =>
    have here := dashes (s.mark c (t ++ u)) (by simp [ScanState.marks])
    rw [ScanState.mark_char] at here
    have quietNext := (next_quiet quiet here).1
    have rest : DashesOnly (s.next c (t ++ u)) (t ++ u) := fun m member =>
      dashes m (by simp [ScanState.marks, member])
    have cons (head : (s'.mark c t).kind = .comment → c = '-') (tail : DashesOnly (s'.next c t) t) :
        DashesOnly s' (c :: t) := by
      intro m member comment
      rcases List.mem_cons.mp member with rfl | later
      · rw [ScanState.mark_char]
        exact head comment
      · exact tail m later comment
    obtain ⟨m, d⟩ := s
    obtain ⟨m', d'⟩ := s'
    dsimp only at mode quiet
    subst mode
    cases m with
    | code =>
      rw [kind_comment_iff] at here
      rcases role_cut_dash here with same | ⟨isDash, short⟩
      · apply cons
        · rw [kind_comment_iff, same]
          exact here
        · apply ih quietNext _ rest
          simp only [ScanState.next, same]
          cases Role.of c (t ++ u) <;> rfl
      · apply cons fun _ => isDash
        rcases short with rfl | rfl
        · simp [DashesOnly, ScanState.marks]
        · simp [DashesOnly, ScanState.marks]
    | quote q escaped =>
      apply cons
      · simp [ScanState.mark]
      · apply ih quietNext _ rest
        cases escaped with
        | true => rfl
        | false =>
          simp only [ScanState.next]
          split_ifs <;> rfl
    | lineComment =>
      apply cons
      · simpa [ScanState.mark] using here
      · apply ih quietNext _ rest
        simp only [ScanState.next]
        split_ifs <;> rfl
    | opener => cases quiet
    | blockComment star => cases quiet

end Dashes
end QueryChain
