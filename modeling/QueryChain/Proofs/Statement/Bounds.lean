import QueryChain.Proofs.ReadBack.Entries
import QueryChain.Proofs.Params.Names
import QueryChain.Proofs.Range.Split
import QueryChain.Proofs.Output.Scripts
import QueryChain.Proofs.ReadBack.Sections
import QueryChain.Proofs.Woven.Parts

namespace QueryChain

inductive Figures : Text → Nat → Prop
  | one {d : Nat} (digit : d < 10) : Figures [Nat.digitChar d] d
  | more {t : Text} {n d : Nat} (front : Figures t n) (digit : d < 10) : Figures (t ++ [Nat.digitChar d]) (10 * n + d)

inductive BoundForm : Text → Bound → Prop
  | literal {t : Text} {n : Nat} (figures : Figures t n) (fits : n < 2 ^ (64 : Nat)) : BoundForm t (.literal n)
  | param {t : Text} {n : Nat} (figures : Figures t n) (some_ : 0 < n) (fits : n < 2 ^ (64 : Nat)) :
      BoundForm (":param".toList ++ t) (.param n)

inductive LimitForm : Text → Option Bound × Bound → Prop
  | count {t : Text} {b : Bound} (bound : BoundForm (trim t) b) : LimitForm t (none, b)
  | both {s t : Text} {a b : Bound} (offset : BoundForm (trim s) a) (count : BoundForm (trim t) b) :
      LimitForm (s ++ ',' :: t) (some a, b)

section Figures

variable {t : Text} {n : Nat} {b : Bound} {c : Char}

theorem figures_iff : Figures t n ↔ t ≠ [] ∧ (∀ c ∈ t, c.isDigit) ∧ Nat.ofDigitChars 10 t 0 = n := by
  have digits : ∀ d < 10, (Nat.digitChar d).isDigit ∧ (Nat.digitChar d).toNat - '0'.toNat = d := by decide
  have step (t : Text) (c : Char) : Nat.ofDigitChars 10 (t ++ [c]) 0 =
      10 * Nat.ofDigitChars 10 t 0 + (c.toNat - '0'.toNat) := by
    rw [Nat.ofDigitChars_append]
    rfl
  constructor
  · intro figures
    induction figures with
    | one digit =>
      refine ⟨by simp, by simpa using (digits _ digit).1, ?_⟩
      rw [← List.nil_append [_], step, (digits _ digit).2, Nat.ofDigitChars_nil, Nat.mul_zero, Nat.zero_add]
    | more front digit ih =>
      obtain ⟨-, all, value⟩ := ih
      refine ⟨by simp, ?_, by rw [step, value, (digits _ digit).2]⟩
      intro c member
      rcases List.mem_append.mp member with inFront | last
      · exact all c inFront
      · rw [List.mem_singleton.mp last]
        exact (digits _ digit).1
  · rintro ⟨full, all, rfl⟩
    induction t using List.reverseRecOn with
    | nil => exact absurd rfl full
    | append_singleton t c ih =>
      have code := (isDigit_iff c).mp (all c (by simp))
      obtain ⟨d, less, rfl⟩ : ∃ d < 10, c = Nat.digitChar d := by
        refine ⟨c.toNat - 48, by omega, ?_⟩
        have same : ∀ k < 10, Char.ofNat (48 + k) = Nat.digitChar k := by decide
        rw [← same _ (by omega), Nat.add_sub_cancel' code.1, Char.ofNat_toNat]
      rw [step, (digits d less).2]
      by_cases empty : t = []
      · rw [empty]
        simpa using Figures.one less
      · exact .more (ih empty fun c member => all c (by simp [member])) less

theorem number?_eq_some_iff : number? t = some n ↔ Figures t n ∧ n < 2 ^ (64 : Nat) := by
  have limit : n ≤ largestNumber ↔ n < 2 ^ (64 : Nat) := Nat.lt_iff_le_pred (by decide) |>.symm
  rw [figures_iff]
  constructor
  · intro read
    have all := digits_of_number? read
    have full : t ≠ [] := by
      rintro rfl
      cases read
    rw [number?_digits full all] at read
    split at read
    · rename_i fits
      obtain rfl := Option.some.inj read
      exact ⟨⟨full, all, rfl⟩, limit.mp fits⟩
    · cases read
  · rintro ⟨⟨full, all, rfl⟩, fits⟩
    rw [number?_digits full all, if_pos (limit.mpr fits)]

theorem bound?_eq_some_iff : bound? t = some b ↔ BoundForm (trim t) b := by
  rw [bound?]
  by_cases digits : trim t ≠ [] ∧ (trim t).all Char.isDigit
  · rw [if_pos digits, Option.map_eq_some_iff]
    constructor
    · rintro ⟨n, read, rfl⟩
      obtain ⟨figures, fits⟩ := number?_eq_some_iff.mp read
      exact .literal figures fits
    · intro form
      generalize text : trim t = u at form digits
      cases form with
      | literal figures fits => exact ⟨_, number?_eq_some_iff.mpr ⟨figures, fits⟩, rfl⟩
      | param figures some_ fits => exact absurd digits.2 (by simp)
  · rw [if_neg digits, Option.map_eq_some_iff, param?, trim_trim]
    simp only [Option.filter_eq_some_iff, Option.bind_eq_some_iff, after?_eq_some_iff, decide_eq_true_eq]
    constructor
    · rintro ⟨n, ⟨⟨figures, text, read⟩, some_⟩, rfl⟩
      obtain ⟨value, fits⟩ := number?_eq_some_iff.mp read
      rw [text]
      exact .param value some_ fits
    · intro form
      generalize text : trim t = u at form digits
      cases form with
      | literal figures fits =>
        obtain ⟨full, all, -⟩ := figures_iff.mp figures
        exact absurd ⟨full, by simpa using all⟩ digits
      | param figures some_ fits =>
        exact ⟨_, ⟨⟨_, rfl, number?_eq_some_iff.mpr ⟨figures, fits⟩⟩, some_⟩, rfl⟩

theorem Figures.plain (figures : Figures t n) : ∀ c ∈ t, isPlain c ∧ isBlank c = false ∧ c ≠ ',' ∧ c ≠ ';' ∧ c ≠ '?' := by
  intro c member
  have digit := (figures_iff.mp figures).2.1 c member
  refine ⟨isPlain_of_isDigit digit, isBlank_of_isDigit digit, ?_, ?_, ?_⟩ <;>
    · rintro rfl
      exact absurd digit (by decide)

theorem Figures.trim (figures : Figures t n) : QueryChain.trim t = t :=
  trim_eq_self (fun c first => (figures.plain c (List.mem_of_mem_head? first)).2.1)
    fun c last => (figures.plain c (List.mem_of_getLast? last)).2.1

theorem BoundForm.lt_of_literal (form : BoundForm t (.literal n)) : n < 2 ^ (64 : Nat) := by
  cases form
  assumption

theorem BoundForm.plain (form : BoundForm t b) : t ≠ [] ∧ ∀ c ∈ t, isPlain c ∧ c ≠ ',' := by
  have marker : ∀ c ∈ ":param".toList, isPlain c ∧ c ≠ ',' := by decide
  have figures {t : Text} {n : Nat} (figures : Figures t n) : ∀ c ∈ t, isPlain c ∧ c ≠ ',' := fun c member =>
    ⟨(figures.plain c member).1, (figures.plain c member).2.2.1⟩
  cases form with
  | literal value fits => exact ⟨(figures_iff.mp value).1, figures value⟩
  | param value some_ fits =>
    refine ⟨by simp, fun c member => ?_⟩
    rcases List.mem_append.mp member with inMarker | digit
    · exact marker c inMarker
    · exact figures value c digit

theorem BoundForm.plain_of_trim (form : BoundForm (trim t) b) : ∀ c ∈ t, isPlain c ∧ c ≠ ',' := by
  have blank {c : Char} (blank : isBlank c) : isPlain c ∧ c ≠ ',' := by
    refine ⟨isPlain_of_isBlank c blank, ?_⟩
    rintro rfl
    exact absurd blank (by decide)
  obtain ⟨front, back, parts, blankFront, blankBack⟩ := trim_spec t
  intro c member
  rw [parts, List.mem_append, List.mem_append] at member
  rcases member with (inFront | inside) | inBack
  · exact blank (blankFront c inFront)
  · exact form.plain.2 c inside
  · exact blank (blankBack c inBack)

end Figures
section Pieces

variable {d : Char} {s t u : Text} {a b : Bound} {r : Option Bound × Bound}

def Skipped (t : Text) : Prop := ∀ c ∈ t, isBlank c ∨ c = ','

theorem topPieces_cut (delimiter : IsDelimiter d) (cut : hasTop d t) : ∃ s u, t = s ++ d :: u ∧
    topPieces d t = trim s :: topPieces d u := by
  cases rest : (scan t).dropWhile (!·.isTopOf d) with
  | nil => simp [hasTop, cutTop?, rest] at cut
  | cons m after =>
    obtain ⟨n, text, found, -, front, behind⟩ := first_separator delimiter.separator rest
    have char : m.char = d := by
      simp only [Mark.isTopOf, Bool.and_eq_true, beq_iff_eq] at found
      exact found.1
    refine ⟨t.take n, t.drop (n + 1), ?_, ?_⟩
    · rw [← char, ← text, List.take_append_drop]
    · have bare : ∀ m ∈ (scan t).takeWhile (!·.isTopOf d), m.isTopOf d = false := fun m member => by
        simpa using List.mem_takeWhile_imp member
      have split := List.takeWhile_append_dropWhile (p := (!Mark.isTopOf d ·)) (l := scan t)
      rw [topPieces, ← split, rest, List.splitOnP_append_cons _ _ found, List.splitOnP_eq_singleton bare, front, behind,
        List.singleton_append, List.map_cons, markText_take_scan]
      rfl

theorem splitTop_whole (whole : hasTop d t = false) : splitTop d t = if trim t = [] then [] else [trim t] := by
  have none : dropEndWhile List.isEmpty ([] : List Text) = [] := rfl
  rw [splitTop_eq, topPieces_of_whole whole, dropEndWhile_cons, if_pos none]
  simp

theorem splitTop_cut (delimiter : IsDelimiter d) (cut : hasTop d t) : ∃ s u, t = s ++ d :: u ∧
    splitTop d t = if splitTop d u = [] then (if trim s = [] then [] else [trim s]) else trim s :: splitTop d u := by
  obtain ⟨s, u, parts, pieces⟩ := topPieces_cut delimiter cut
  refine ⟨s, u, parts, ?_⟩
  rw [splitTop_eq, pieces, dropEndWhile_cons, ← splitTop_eq]
  simp

theorem skipped_blank (empty : trim t = []) : Skipped t := by
  obtain ⟨front, back, parts, blankFront, blankBack⟩ := trim_spec t
  rw [empty, List.append_nil] at parts
  intro c member
  rw [parts] at member
  rcases List.mem_append.mp member with inFront | inBack
  · exact .inl (blankFront c inFront)
  · exact .inl (blankBack c inBack)

theorem splitTop_delimiter (plain : ∀ c ∈ s, isPlain c ∧ c ≠ ',') (u : Text) : splitTop ',' (s ++ ',' :: u) =
    if splitTop ',' u = [] then (if trim s = [] then [] else [trim s]) else trim s :: splitTop ',' u := by
  have whole : hasTop ',' s = false := hasTop_of_not_mem fun member => (plain ',' member).2 rfl
  rw [splitTop_eq, topPieces_delimiter (.plain fun c member => (plain c member).1) (by decide) (by decide),
    topPieces_of_whole whole, List.singleton_append, dropEndWhile_cons, ← splitTop_eq]
  simp

theorem trim_blanks (blank : ∀ c ∈ t, isBlank c) : trim t = [] := by
  have padded := trim_pad (t := []) blank (b := []) (by simp) (by decide)
  simpa using padded

theorem splitTop_blanks {blanks : Text} (blank : ∀ c ∈ blanks, isBlank c) (skipped : Skipped t) :
    splitTop ',' (blanks ++ t) = [] := by
  induction t generalizing blanks with
  | nil =>
    have whole : hasTop ',' blanks = false := hasTop_of_not_mem fun member => absurd (blank ',' member) (by decide)
    rw [List.append_nil, splitTop_whole whole, if_pos (trim_blanks blank)]
  | cons c t ih =>
    have rest : Skipped t := fun c member => skipped c (List.mem_cons_of_mem _ member)
    rcases skipped c List.mem_cons_self with isBlank | rfl
    · rw [List.append_cons]
      exact ih (by simpa [or_imp, forall_and] using ⟨blank, isBlank⟩) rest
    · have plain : ∀ c ∈ blanks, isPlain c ∧ c ≠ ',' := by
        intro c member
        refine ⟨isPlain_of_isBlank c (blank c member), ?_⟩
        rintro rfl
        exact absurd (blank _ member) (by decide)
      have empty : ∀ c ∈ ([] : Text), isBlank c := by simp
      have none := ih empty rest
      rw [List.nil_append] at none
      rw [splitTop_delimiter plain, if_pos none, if_pos (trim_blanks blank)]

theorem splitTop_skipped (skipped : Skipped t) : splitTop ',' t = [] :=
  splitTop_blanks (fun _ => List.not_mem_nil.elim) skipped

theorem skipped_of_splitTop (t : Text) (none : splitTop ',' t = []) : Skipped t := by
  by_cases cut : hasTop ',' t
  · obtain ⟨s, u, parts, pieces⟩ := splitTop_cut (by decide) cut
    rw [none] at pieces
    split_ifs at pieces with more empty
    have shorter : u.length < t.length := by simp [parts]; omega
    have rest := skipped_of_splitTop u more
    intro c member
    rw [parts, List.mem_append, List.mem_cons] at member
    rcases member with inFront | rfl | behind
    · exact skipped_blank empty c inFront
    · exact .inr rfl
    · exact rest c behind
  · rw [splitTop_whole (by simpa using cut)] at none
    split_ifs at none with empty
    exact skipped_blank empty
termination_by t.length

theorem splitTop_one (one : splitTop ',' t = [s]) :
    s = trim t ∨ ∃ u rest, t = u ++ ',' :: rest ∧ s = trim u ∧ Skipped rest := by
  by_cases cut : hasTop ',' t
  · obtain ⟨u, rest, parts, pieces⟩ := splitTop_cut (by decide) cut
    rw [one] at pieces
    split_ifs at pieces with none
    · exact .inr ⟨u, rest, parts, (List.cons.inj pieces).1, skipped_of_splitTop rest none⟩
    · exact absurd (List.cons.inj pieces).2.symm none
  · rw [splitTop_whole (by simpa using cut)] at one
    split_ifs at one
    exact .inl (List.cons.inj one).1.symm

theorem splitTop_two (two : splitTop ',' t = [s, u]) :
    ∃ front behind, t = front ++ ',' :: behind ∧ s = trim front ∧ splitTop ',' behind = [u] := by
  by_cases cut : hasTop ',' t
  · obtain ⟨front, behind, parts, pieces⟩ := splitTop_cut (by decide) cut
    rw [two] at pieces
    split_ifs at pieces with none
    · cases pieces
    · obtain ⟨first, second⟩ := List.cons.inj pieces
      exact ⟨front, behind, parts, first, second.symm⟩
  · rw [splitTop_whole (by simpa using cut)] at two
    split_ifs at two
    cases two

/-- A row limit with one comma behind it, or more. -/
def Dangling (t : Text) (r : Option Bound × Bound) : Prop := ∃ u rest, t = u ++ ',' :: rest ∧ Skipped rest ∧ LimitForm u r

theorem LimitForm.not_dangling {r' : Option Bound × Bound} (form : LimitForm t r) : ¬Dangling t r' := by
  rintro ⟨u, rest, parts, skipped, -⟩
  cases form with
  | count bound => exact (bound.plain_of_trim ',' (by simp [parts])).2 rfl
  | @both s v a b offset count =>
    have behind : v ⊆ rest → False := fun sub => by
      refine count.plain.1 (trim_blanks fun c member => ?_)
      exact (skipped c (sub member)).resolve_right (count.plain_of_trim c member).2
    rcases cons_of_append parts with ⟨f, -, rfl⟩ | ⟨f, -, same⟩
    · exact behind fun c member => by simp [member]
    · cases f with
      | nil =>
        obtain rfl : v = rest := (List.cons.inj same).2
        exact behind (List.Subset.refl v)
      | cons d f =>
        obtain ⟨-, rfl⟩ := List.cons.inj same
        exact (count.plain_of_trim ',' (by simp)).2 rfl

/-- A limit is read from the texts of its two forms, and from these with commas behind them. -/
theorem limit?_eq_some_iff : limit? t = some r ↔ LimitForm t r ∨ Dangling t r := by
  constructor
  · intro read
    rw [limit?] at read
    split at read
    · rename_i count pieces
      obtain ⟨b, bound, rfl⟩ := Option.map_eq_some_iff.mp read
      have form := bound?_eq_some_iff.mp bound
      rcases splitTop_one pieces with rfl | ⟨u, rest, parts, rfl, skipped⟩
      · rw [trim_trim] at form
        exact .inl (.count form)
      · rw [trim_trim] at form
        exact .inr ⟨u, rest, parts, skipped, .count form⟩
    · rename_i offset count pieces
      obtain ⟨front, behind, rfl, rfl, one⟩ := splitTop_two pieces
      simp only [bind, Option.bind_eq_some_iff, pure, Option.some.injEq] at read
      obtain ⟨a, first, b, second, rfl⟩ := read
      have form := bound?_eq_some_iff.mp first
      have form' := bound?_eq_some_iff.mp second
      rw [trim_trim] at form
      rcases splitTop_one one with rfl | ⟨u, rest, rfl, rfl, skipped⟩
      · rw [trim_trim] at form'
        exact .inl (.both form form')
      · rw [trim_trim] at form'
        exact .inr ⟨front ++ ',' :: u, rest, by simp, skipped, .both form form'⟩
    · cases read
  · have one {t : Text} {b : Bound} (form : BoundForm (trim t) b) : splitTop ',' t = [trim t] := by
      have whole : hasTop ',' t = false := hasTop_of_not_mem fun member => (form.plain_of_trim ',' member).2 rfl
      rw [splitTop_whole whole, if_neg form.plain.1]
    have skip {s rest : Text} {b : Bound} (form : BoundForm (trim s) b) (skipped : Skipped rest) :
        splitTop ',' (s ++ ',' :: rest) = [trim s] := by
      rw [splitTop_delimiter form.plain_of_trim, if_pos (splitTop_skipped skipped), if_neg form.plain.1]
    have read {t : Text} {b : Bound} (form : BoundForm (trim t) b) : bound? (trim t) = some b := by
      rw [bound?_eq_some_iff, trim_trim]
      exact form
    have count {t u : Text} {b : Bound} (form : BoundForm (trim u) b) (pieces : splitTop ',' t = [trim u]) :
        limit? t = some (none, b) := by
      rw [limit?, pieces]
      dsimp only
      rw [read form]
      rfl
    have both {t s u : Text} {a b : Bound} (offset : BoundForm (trim s) a) (form : BoundForm (trim u) b)
        (pieces : splitTop ',' t = [trim s, trim u]) : limit? t = some (some a, b) := by
      rw [limit?, pieces]
      dsimp only
      rw [read offset, read form]
      rfl
    rintro (form | ⟨u, rest, rfl, skipped, form⟩)
    · cases form with
      | count form => exact count form (one form)
      | both offset form =>
        exact both offset form (by rw [splitTop_delimiter offset.plain_of_trim, one form, if_neg (by simp)])
    · cases form with
      | count form => exact count form (skip form skipped)
      | @both s u a b offset form =>
        refine both offset form ?_
        rw [List.append_assoc, List.cons_append, splitTop_delimiter offset.plain_of_trim, skip form skipped,
          if_neg (by simp)]

end Pieces
section Sections

variable {ks : List Keyword} {sql t u body : Text} {n o c : Nat} {b : Bound} {p : Progress}

theorem lacks_of_no_letter (areKeywords : ∀ k ∈ ks, IsKeyword k) (bare : ∀ c ∈ t, isKeywordChar c = false) : Lacks ks t := by
  rw [← find?_eq_none_iff]
  cases found : (Cursor.start t).find? ks with
  | none => rfl
  | some answer =>
    rw [← cursorAt_zero] at found
    obtain ⟨p, -, -, -, k, member, q, stands, -⟩ := find?_cursorAt areKeywords (Nat.zero_le _) found
    obtain ⟨c, last, letter⟩ := stands.spells.getLast (areKeywords k member)
    have inText : c ∈ t := (List.take_sublist _ _).subset ((List.drop_sublist _ _).subset (List.mem_of_getLast? last))
    rw [bare c inText] at letter
    cases letter

def isLimitChar (c : Char) : Bool := c.isDigit || isBlank c || c == ','

theorem isLimitChar_plain {c : Char} (inLimit : isLimitChar c) : isPlain c ∧ isKeywordChar c = false ∧ c ≠ '?' := by
  simp only [isLimitChar, Bool.or_eq_true, beq_iff_eq] at inLimit
  rcases inLimit with (digit | blank) | rfl
  · refine ⟨isPlain_of_isDigit digit, isKeywordChar_of_isDigit digit, ?_⟩
    rintro rfl
    exact absurd digit (by decide)
  · refine ⟨isPlain_of_isBlank c blank, ?_, ?_⟩
    · by_contra letter
      rw [isBlank_of_isKeywordChar c (by simpa using letter)] at blank
      cases blank
    · rintro rfl
      exact absurd blank (by decide)
  · decide

theorem Figures.isLimitChar (figures : Figures t n) : ∀ c ∈ t, isLimitChar c := fun c member => by
  simp [QueryChain.isLimitChar, (figures_iff.mp figures).2.1 c member]

theorem isLimitChar_of_trim (form : BoundForm (trim t) (.literal n)) : ∀ c ∈ t, isLimitChar c := by
  obtain ⟨front, back, parts, blankFront, blankBack⟩ := trim_spec t
  intro c member
  rw [parts, List.mem_append, List.mem_append] at member
  rcases member with (inFront | inside) | inBack
  · simp [isLimitChar, blankFront c inFront]
  · generalize trim t = u at form inside
    cases form with
    | literal figures fits => exact figures.isLimitChar c inside
  · simp [isLimitChar, blankBack c inBack]

theorem isLimitChar_pair (form : LimitForm t (some (.literal o), .literal c)) : t ≠ [] ∧ ∀ c ∈ t, isLimitChar c := by
  cases form with
  | both offset count =>
    refine ⟨by simp, fun c member => ?_⟩
    rw [List.mem_append, List.mem_cons] at member
    rcases member with front | rfl | behind
    · exact isLimitChar_of_trim offset c front
    · decide
    · exact isLimitChar_of_trim count c behind

def limitOrder : List Keyword := [["LIMIT"], ["OFFSET"]]

theorem watched_limit : Watched limitOrder (bodyEnds.drop 4) :=
  ⟨by decide, by decide, by decide, by decide, by decide +kernel, by decide +kernel⟩

theorem legible_limit {k : Keyword} (member : k ∈ limitOrder) (normal : normalize t = t) (full : t ≠ [])
    (chars : ∀ c ∈ t, isLimitChar c) : k ∈ limitOrder ∧ Neat t ∧ Lacks (bodyEnds.drop 4) t := by
  have solid : Solid t := .plain fun c member => (isLimitChar_plain (chars c member)).1
  exact ⟨member, .of_normal normal solid.balanced full,
    lacks_of_no_letter (by decide) fun c member => (isLimitChar_plain (chars c member)).2.1⟩

theorem normalize_figures (figures : Figures t n) : normalize t = t :=
  (Neat.of_plain
    (fun c member => ⟨(figures.plain c member).1, (figures.plain c member).2.1, (figures.plain c member).2.2.2.1⟩)
    (figures_iff.mp figures).1).normal

theorem numbered_limit (chars : ∀ c ∈ t, isLimitChar c) (issued : Nat) : numbered issued t = t :=
  numbered_of_free (fun member => (isLimitChar_plain (chars _ member)).2.2 rfl) issued

theorem readLimitSection_some {offset : Option Bound} (found : limitSection? sql = some body)
    (read : limit? (numbered p.issued body) = some (offset, b)) :
    readLimitSection sql p = ((some b, offset), (nameParams body p).2) := by
  have named : (nameParams body p).1 = numbered p.issued body := rfl
  rw [readLimitSection, found]
  dsimp only
  rw [noting_bind, named, read]
  rfl

theorem readLimitSection_none (found : limitSection? sql = some body) (unread : limit? (numbered p.issued body) = none) :
    readLimitSection sql p =
      ((none, none), (note (badBound "LIMIT" (numbered p.issued body)) (nameParams body p).2).2) := by
  have named : (nameParams body p).1 = numbered p.issued body := rfl
  rw [readLimitSection, found]
  dsimp only
  rw [noting_bind, named, unread]
  rfl

theorem readOffsetSection_some {offset : Option Bound} (found : offsetSection? sql = some body)
    (read : bound? (numbered p.issued body) = some b) :
    readOffsetSection offset sql p = (some b, (nameParams body p).2) := by
  have named : (nameParams body p).1 = numbered p.issued body := rfl
  rw [readOffsetSection, found]
  dsimp only
  rw [noting_bind, named, read]
  rfl

end Sections
section Paged

variable {front pair offset count : Text} {o c : Nat} {p : Progress}

theorem readRowCount_eq (sql : Text) (p : Progress) : (readRowCount sql p).1 = (readLimitSection sql p).1.1 := by
  rw [readRowCount, noting_bind]
  rcases readLimitSection sql p with ⟨⟨limit, offset⟩, p'⟩
  cases offset <;> rfl

theorem paged_alike (neat : Neat front) (lacks : Lacks limitOrder front) (normal : normalize pair = pair)
    (form : LimitForm pair (some (.literal o), .literal c)) (figures : Figures count c) (figures' : Figures offset o) :
    let paired := front ++ sectionsText [(["LIMIT"], pair)]
    let apart := front ++ sectionsText [(["LIMIT"], count), (["OFFSET"], offset)]
    (∀ p, (readLimitAndOffset paired p).1 = (some (.literal c), some (.literal o)) ∧
      (readLimitAndOffset paired p).2.issues = p.issues) ∧
    (∀ p, (readLimitAndOffset apart p).1 = (some (.literal c), some (.literal o)) ∧
      (readLimitAndOffset apart p).2.issues = p.issues) ∧
    ∀ p, (readRowCount paired p).1 = some (.literal c) ∧ (readRowCount apart p).1 = some (.literal c) := by
  intro paired apart
  have limit : Lacks [["LIMIT"]] front := lacks.mono (by decide)
  have other : Lacks [["OFFSET"]] front := lacks.mono (by decide)
  have single : [["LIMIT".toList]].Sublist limitOrder := by decide
  have both : [["LIMIT".toList], ["OFFSET".toList]].Sublist limitOrder := by decide
  obtain ⟨full, chars⟩ := isLimitChar_pair form
  have legible : Legible limitOrder (bodyEnds.drop 4) [(["LIMIT"], pair)] := by
    simpa [Legible] using legible_limit (k := ["LIMIT"]) (by decide) normal full chars
  have legible' : Legible limitOrder (bodyEnds.drop 4) [(["LIMIT"], count), (["OFFSET"], offset)] := by
    simpa [Legible] using
      ⟨legible_limit (k := ["LIMIT"]) (by decide) (normalize_figures figures) (figures_iff.mp figures).1 figures.isLimitChar,
        legible_limit (k := ["OFFSET"]) (by decide) (normalize_figures figures')
          (figures_iff.mp figures').1 figures'.isLimitChar⟩
  have found : limitSection? paired = some pair := section?_sections watched_limit legible
    (by decide) (by decide) single (by decide) (by decide) neat limit
  have missed : offsetSection? paired = none := section?_sections watched_limit legible
    (by decide) (by decide) single (by decide) (by decide) neat other
  have found' : limitSection? apart = some count := section?_sections watched_limit legible'
    (by decide) (by decide) both (by decide) (by decide) neat limit
  have found'' : offsetSection? apart = some offset := section?_sections watched_limit legible'
    (by decide) (by decide) both (by decide) (by decide) neat other
  have fits : c < 2 ^ (64 : Nat) ∧ o < 2 ^ (64 : Nat) := by
    cases form with
    | both first second => exact ⟨second.lt_of_literal, first.lt_of_literal⟩
  have pairRead (p : Progress) : readLimitSection paired p =
    ((some (.literal c), some (.literal o)), (nameParams pair p).2) :=
    readLimitSection_some found (by rw [numbered_limit chars, limit?_eq_some_iff]; exact .inl form)
  have countRead (p : Progress) : readLimitSection apart p = ((some (.literal c), none), (nameParams count p).2) := by
    refine readLimitSection_some found' ?_
    rw [numbered_limit figures.isLimitChar, limit?_eq_some_iff]
    exact .inl (.count (figures.trim.symm ▸ .literal figures fits.1))
  have offsetRead (p : Progress) : readOffsetSection none apart p = (some (.literal o), (nameParams offset p).2) := by
    refine readOffsetSection_some found'' ?_
    rw [numbered_limit figures'.isLimitChar, bound?_eq_some_iff, figures'.trim]
    exact .literal figures' fits.2
  refine ⟨fun p => ?_, fun p => ?_, fun p => ⟨?_, ?_⟩⟩
  · rw [readLimitAndOffset, noting_bind, pairRead]
    dsimp only
    rw [noting_bind, readOffsetSection, missed]
    exact ⟨rfl, rfl⟩
  · rw [readLimitAndOffset, noting_bind, countRead]
    dsimp only
    rw [noting_bind, offsetRead]
    exact ⟨rfl, rfl⟩
  · rw [readRowCount_eq, pairRead]
  · rw [readRowCount_eq, countRead]

end Paged

/-- A limit is read from the two forms of its text, and from no other text but these with commas behind them; what
    is not read is noted. An offset in front of the row count is read like one behind it. -/
theorem limit_read_iff (t : Text) :
    (∀ b, bound? t = some b ↔ BoundForm (trim t) b) ∧
    (∀ r, limit? t = some r ↔ LimitForm t r ∨ Dangling t r) ∧
    ((∀ r, limit? t = some r ↔ LimitForm t r) ↔ ∀ r, ¬Dangling t r) ∧
    (∀ sql p, limitSection? sql = some t → limit? (numbered p.issued t) = none →
      (readLimitSection sql p).1 = (none, none) ∧
      (readLimitSection sql p).2.issues = p.issues ++ [badBound "LIMIT" (numbered p.issued t)]) ∧
    ∀ front count offset o c, Balanced front → normalize front = front → front ≠ [] → Lacks [["LIMIT"], ["OFFSET"]] front →
      normalize t = t → LimitForm t (some (.literal o), .literal c) → Figures count c → Figures offset o →
      let paired := front ++ sectionsText [(["LIMIT"], t)]
      let apart := front ++ sectionsText [(["LIMIT"], count), (["OFFSET"], offset)]
      (∀ p, (readLimitAndOffset paired p).1 = (some (.literal c), some (.literal o)) ∧
        (readLimitAndOffset paired p).2.issues = p.issues) ∧
      (∀ p, (readLimitAndOffset apart p).1 = (some (.literal c), some (.literal o)) ∧
        (readLimitAndOffset apart p).2.issues = p.issues) ∧
      ∀ p, (readRowCount paired p).1 = some (.literal c) ∧ (readRowCount apart p).1 = some (.literal c) := by
  refine ⟨fun b => bound?_eq_some_iff, fun r => limit?_eq_some_iff, ⟨fun exact_ r dangling => ?_, fun none r => ?_⟩,
    fun sql p found unread => ?_,
    fun front count offset o c balanced normal full lacks normal' form figures figures' =>
      paged_alike (.of_normal normal balanced full) lacks normal' form figures figures'⟩
  · exact ((exact_ r).mp (limit?_eq_some_iff.mpr (.inr dangling))).not_dangling dangling
  · rw [limit?_eq_some_iff, or_iff_left (none r)]
  · rw [readLimitSection_none found unread]
    exact ⟨rfl, rfl⟩

theorem limit_read_iff_dangling :
    limit? "5,".toList = some (none, .literal 5) ∧ (∀ r, ¬LimitForm "5,".toList r) ∧
    (readLimitAndOffset "SELECT a FROM t LIMIT 07 , 5".toList {}).1 = (some (.literal 5), some (.literal 7)) := by
  have five : Figures "5".toList 5 := .one (d := 5) (by decide)
  have seven : Figures "07".toList 7 := .more (n := 0) (d := 7) (.one (d := 0) (by decide)) (by decide)
  have dangling : Dangling "5,".toList (none, .literal 5) :=
    ⟨"5".toList, [], rfl, by simp [Skipped], .count (.literal five (by decide))⟩
  refine ⟨((limit_read_iff _).2.1 _).mpr (.inr dangling), fun r form => form.not_dangling dangling, ?_⟩
  have pair : LimitForm "07 , 5".toList (some (.literal 7), .literal 5) :=
    .both (s := "07 ".toList) (t := " 5".toList) (.literal seven (by decide)) (.literal five (by decide))
  obtain ⟨-, -, -, -, paged⟩ := limit_read_iff "07 , 5".toList
  exact ((paged "SELECT a FROM t".toList "5".toList "07".toList 7 5 (by decide +kernel) (by decide +kernel) (by decide)
    (by decide +kernel) (by decide +kernel) pair five seven).1 {}).1

end QueryChain
