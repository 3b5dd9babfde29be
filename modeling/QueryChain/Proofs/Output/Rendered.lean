import QueryChain.Proofs.Keyword.TopWord
import QueryChain.Report

namespace QueryChain

section Stops

variable {p : Char → Bool} {s t r u : Text}

theorem append_inj_of_stop (first : ∀ c ∈ s, p c) (second : ∀ c ∈ t, p c) (stop : r.head?.any p = false)
    (stop' : u.head?.any p = false) (same : s ++ r = t ++ u) : s = t ∧ r = u := by
  have taken := congrArg (List.takeWhile p) same
  rw [takeWhile_of_stop first stop, takeWhile_of_stop second stop'] at taken
  subst taken
  exact ⟨rfl, List.append_cancel_left same⟩

end Stops
section Escapes

variable {c d : Char} {s t r u : Text}

def isLineBreak (c : Char) : Bool :=
  let n := c.toNat
  (0x0a ≤ n && n ≤ 0x0d) || n == 0x85 || n == 0x2028 || n == 0x2029

def shortEscapes : List (Char × Char) :=
  [('\x00', '0'), ('\t', 't'), ('\r', 'r'), ('\n', 'n'), ('\\', '\\'), ('"', '"')]

theorem isPrintable_of_isLineBreak (breaks : isLineBreak c) : isPrintable c = false := by
  have codes : ∀ n ∈ [0x0a, 0x0b, 0x0c, 0x0d, 0x85, 0x2028, 0x2029], isPrintable (Char.ofNat n) = false := by decide +kernel
  rw [← Char.ofNat_toNat c]
  apply codes
  simp only [isLineBreak, Bool.or_eq_true, Bool.and_eq_true, decide_eq_true_eq, beq_iff_eq] at breaks
  simp only [List.mem_cons, List.not_mem_nil, or_false]
  omega

theorem escapeChar_cases (c : Char) :
    (escapeChar c = [c] ∧ c ≠ '\\' ∧ c ≠ '"' ∧ isLineBreak c = false) ∨
    (∃ x, escapeChar c = ['\\', x] ∧ (c, x) ∈ shortEscapes) ∨
    escapeChar c = '\\' :: 'u' :: '\x7b' :: (hexDigits c.toNat ++ ['\x7d']) := by
  by_cases short : c ∈ shortEscapes.map Prod.fst
  · right; left
    simp only [shortEscapes, List.map_cons, List.map_nil, List.mem_cons, List.not_mem_nil, or_false] at short
    rcases short with rfl | rfl | rfl | rfl | rfl | rfl
    · exact ⟨'0', rfl, by decide⟩
    · exact ⟨'t', rfl, by decide⟩
    · exact ⟨'r', rfl, by decide⟩
    · exact ⟨'n', rfl, by decide⟩
    · exact ⟨'\\', rfl, by decide⟩
    · exact ⟨'"', rfl, by decide⟩
  · simp only [shortEscapes, List.map_cons, List.map_nil, List.mem_cons, List.not_mem_nil, or_false, not_or] at short
    obtain ⟨zero, tab, return_, feed, backslash, quote⟩ := short
    rw [escapeChar, if_neg zero, if_neg tab, if_neg return_, if_neg feed, if_neg backslash, if_neg quote]
    by_cases hidden : isCombining c || !isPrintable c
    · right; right
      rw [if_pos hidden]
      rfl
    · left
      rw [if_neg hidden]
      refine ⟨rfl, backslash, quote, ?_⟩
      by_contra breaks
      simp [isPrintable_of_isLineBreak (by simpa using breaks)] at hidden

theorem hexDigits_eq (n : Nat) :
    hexDigits n = if n < 16 then [Nat.digitChar n] else hexDigits (n / 16) ++ [Nat.digitChar (n % 16)] :=
  Nat.toDigits_eq_if (by decide)

theorem digitChar_of_mem_hexDigits {n : Nat} (member : c ∈ hexDigits n) : ∃ d < 16, c = Nat.digitChar d := by
  induction n using Nat.strongRecOn with
  | ind n ih =>
    rw [hexDigits_eq] at member
    split at member
    · rename_i less
      exact ⟨n, less, List.mem_singleton.mp member⟩
    · rename_i more
      rcases List.mem_append.mp member with front | last
      · exact ih (n / 16) (by omega) front
      · exact ⟨n % 16, Nat.mod_lt _ (by decide), List.mem_singleton.mp last⟩

theorem digitChar_inj {m n : Nat} (first : m < 16) (second : n < 16) (same : Nat.digitChar m = Nat.digitChar n) : m = n := by
  have all : ∀ m < 16, ∀ n < 16, Nat.digitChar m = Nat.digitChar n → m = n := by decide
  exact all m first n second same

theorem hexDigits_inj {m n : Nat} (same : hexDigits m = hexDigits n) : m = n := by
  induction m using Nat.strongRecOn generalizing n with
  | ind m ih =>
    have full (k : Nat) (c d : Char) : hexDigits k ++ [c] ≠ [d] := fun one => by
      have length := congrArg List.length one
      have some_ : 0 < (hexDigits k).length := Nat.length_toDigits_pos ..
      rw [List.length_append, List.length_singleton, List.length_singleton] at length
      omega
    rw [hexDigits_eq m, hexDigits_eq n] at same
    split_ifs at same with less less' less'
    · exact digitChar_inj less less' (List.singleton_inj.mp same)
    · exact absurd same.symm (full _ _ _)
    · exact absurd same (full _ _ _)
    · obtain ⟨front, last⟩ := List.append_inj' same rfl
      have quotient := ih (m / 16) (by omega) front
      have remainder := digitChar_inj (Nat.mod_lt _ (by decide)) (Nat.mod_lt _ (by decide)) (List.singleton_inj.mp last)
      omega

/-- The end of a displayed character is seen from the text alone, and so is the character. -/
theorem escapeChar_append_inj (same : escapeChar c ++ r = escapeChar d ++ u) : c = d ∧ r = u := by
  have short : ∀ p ∈ shortEscapes, ∀ q ∈ shortEscapes, p.2 = q.2 → p.1 = q.1 := by decide
  have notCode : ∀ p ∈ shortEscapes, p.2 ≠ 'u' := by decide
  rcases escapeChar_cases c with ⟨here, bare, -, -⟩ | ⟨x, here, listed⟩ | here <;>
    rcases escapeChar_cases d with ⟨there, bare', -, -⟩ | ⟨y, there, listed'⟩ | there <;>
    rw [here, there] at same
  · exact ⟨(List.cons.inj same).1, (List.cons.inj same).2⟩
  · exact absurd (List.cons.inj same).1 bare
  · exact absurd (List.cons.inj same).1 bare
  · exact absurd (List.cons.inj same).1.symm bare'
  · obtain ⟨letter, rest⟩ := List.cons.inj (List.cons.inj same).2
    exact ⟨short _ listed _ listed' letter, rest⟩
  · exact absurd (List.cons.inj (List.cons.inj same).2).1 (notCode _ listed)
  · exact absurd (List.cons.inj same).1.symm bare'
  · exact absurd (List.cons.inj (List.cons.inj same).2).1.symm (notCode _ listed')
  · simp only [List.cons_append, List.append_assoc, List.cons.injEq, true_and] at same
    have digit : ∀ d < 16, Nat.digitChar d ≠ '\x7d' := by decide
    have inside (n : Nat) : ∀ c ∈ hexDigits n, (c != '\x7d') := fun c member => by
      obtain ⟨k, less, rfl⟩ := digitChar_of_mem_hexDigits member
      simp [digit k less]
    obtain ⟨number, rest⟩ := append_inj_of_stop (inside _) (inside _) (by simp) (by simp) same
    exact ⟨Char.toNat_inj.mp (hexDigits_inj number), (List.cons.inj rest).2⟩

theorem escapeChar_starts (c : Char) : ∃ x xs, escapeChar c = x :: xs ∧ x ≠ '"' := by
  rcases escapeChar_cases c with ⟨here, -, other, -⟩ | ⟨x, here, -⟩ | here
  · exact ⟨c, [], here, other⟩
  · exact ⟨'\\', [x], here, by decide⟩
  · exact ⟨_, _, here, by decide⟩

theorem isLineBreak_escapeChar (member : d ∈ escapeChar c) : isLineBreak d = false := by
  rcases escapeChar_cases c with ⟨here, -, -, other⟩ | ⟨x, here, listed⟩ | here <;> rw [here] at member
  · rwa [List.mem_singleton.mp member]
  · have letters : ∀ p ∈ shortEscapes, isLineBreak p.2 = false := by decide
    rcases List.mem_cons.mp member with rfl | member
    · decide
    · rw [List.mem_singleton.mp member]
      exact letters (c, x) listed
  · have digits : ∀ d < 16, isLineBreak (Nat.digitChar d) = false := by decide
    simp only [List.mem_cons, List.mem_append, List.not_mem_nil, or_false] at member
    rcases member with rfl | rfl | rfl | digit | rfl
    · decide
    · decide
    · decide
    · obtain ⟨k, less, rfl⟩ := digitChar_of_mem_hexDigits digit
      exact digits k less
    · decide

theorem quoted_append_inj (same : quoted s ++ r = quoted t ++ u) : s = t ∧ r = u := by
  have shape (s r : Text) : quoted s ++ r = '"' :: (escape s ++ '"' :: r) := by simp [quoted]
  rw [shape, shape] at same
  have inner := (List.cons.inj same).2
  clear same
  induction s generalizing t with
  | nil =>
    cases t with
    | nil => exact ⟨rfl, (List.cons.inj inner).2⟩
    | cons d t =>
      obtain ⟨x, xs, starts, other⟩ := escapeChar_starts d
      rw [escape, escape, List.flatMap_cons, starts] at inner
      exact absurd (List.cons.inj inner).1.symm other
  | cons c s ih =>
    cases t with
    | nil =>
      obtain ⟨x, xs, starts, other⟩ := escapeChar_starts c
      rw [escape, escape, List.flatMap_cons, starts] at inner
      exact absurd (List.cons.inj inner).1 other
    | cons d t =>
      rw [escape, escape, List.flatMap_cons, List.flatMap_cons, List.append_assoc, List.append_assoc] at inner
      obtain ⟨rfl, rest⟩ := escapeChar_append_inj inner
      obtain ⟨rfl, rfl⟩ := ih rest
      exact ⟨rfl, rfl⟩

end Escapes
section Calls

variable {a b : Arg} {as bs : List Arg} {c d : Call} {cs ds : List Call} {r u : Text}

theorem decimal_inj {m n : Nat} (same : decimal m = decimal n) : m = n := by
  have value := congrArg (Nat.ofDigitChars 10 · 0) same
  simpa [decimal, Nat.ofDigitChars_ten_toDigits] using value

theorem decimal_append_inj {m n : Nat} (stop : r.head?.any Char.isDigit = false) (stop' : u.head?.any Char.isDigit = false)
    (same : decimal m ++ r = decimal n ++ u) : m = n ∧ r = u := by
  obtain ⟨number, rest⟩ :=
    append_inj_of_stop (fun _ => isDigit_of_mem_decimal) (fun _ => isDigit_of_mem_decimal) stop stop' same
  exact ⟨decimal_inj number, rest⟩

theorem Arg.render_starts (a : Arg) : ∃ x xs, a.render = x :: xs ∧ match a with
    | .str _ => x = '"'
    | .int _ => x.isDigit
    | .param _ => x = ':' := by
  cases a with
  | str t => exact ⟨'"', escape t ++ ['"'], rfl, rfl⟩
  | int n =>
    obtain ⟨x, xs, digits⟩ := List.exists_cons_of_ne_nil
      (List.ne_nil_of_length_pos (Nat.length_toDigits_pos ..) : decimal n ≠ [])
    exact ⟨x, xs, digits, isDigit_of_mem_decimal (digits ▸ List.mem_cons_self)⟩
  | param n => exact ⟨':', "param".toList ++ decimal n, rfl, rfl⟩

theorem Arg.render_append_inj (stop : r.head?.any Char.isDigit = false) (stop' : u.head?.any Char.isDigit = false)
    (same : a.render ++ r = b.render ++ u) : a = b ∧ r = u := by
  have first := congrArg List.head? same
  obtain ⟨x, xs, here, kind⟩ := a.render_starts
  obtain ⟨y, ys, there, kind'⟩ := b.render_starts
  rw [here, there, List.cons_append, List.cons_append, List.head?_cons, List.head?_cons, Option.some.injEq] at first
  subst first
  have other : ('"').isDigit = false ∧ (':').isDigit = false := by decide
  cases a with
  | str s =>
    cases b with
    | str t =>
      obtain ⟨rfl, rest⟩ := quoted_append_inj same
      exact ⟨rfl, rest⟩
    | int n => simp [kind, other] at kind'
    | param n => simp [kind] at kind'
  | int m =>
    cases b with
    | str t => simp [kind', other] at kind
    | int n =>
      obtain ⟨rfl, rest⟩ := decimal_append_inj stop stop' same
      exact ⟨rfl, rest⟩
    | param n => simp [kind', other] at kind
  | param m =>
    cases b with
    | str t => simp [kind] at kind'
    | int n => simp [kind, other] at kind'
    | param n =>
      have numbers : decimal m ++ r = decimal n ++ u := by
        simpa [Arg.render, paramName] using same
      obtain ⟨rfl, rest⟩ := decimal_append_inj stop stop' numbers
      exact ⟨rfl, rest⟩

def argsText (as : List Arg) : Text := joinWith ", " (as.map Arg.render) ++ ")"

theorem argsText_cons (a : Arg) (as : List Arg) :
    ∃ rest, argsText (a :: as) = a.render ++ rest ∧
      (as = [] ∧ rest = ")".toList ∨ as ≠ [] ∧ rest = ',' :: ' ' :: argsText as) := by
  cases as with
  | nil => exact ⟨")".toList, by simp [argsText, joinWith], .inl ⟨rfl, rfl⟩⟩
  | cons b as => exact ⟨_, by simp [argsText, joinWith, List.intercalate], .inr ⟨by simp, rfl⟩⟩

theorem argsText_append_inj (same : argsText as ++ r = argsText bs ++ u) : as = bs ∧ r = u := by
  have open_ (a : Arg) (as : List Arg) (r u : Text) : argsText (a :: as) ++ r ≠ argsText [] ++ u := fun same => by
    obtain ⟨rest, shape, -⟩ := argsText_cons a as
    obtain ⟨x, xs, starts, kind⟩ := a.render_starts
    rw [shape, starts] at same
    obtain rfl : x = ')' := (List.cons.inj same).1
    cases a with
    | str t => exact absurd (show ')' = '"' from kind) (by decide)
    | int n => exact absurd (show (')').isDigit from kind) (by decide)
    | param n => exact absurd (show ')' = ':' from kind) (by decide)
  induction as generalizing bs with
  | nil =>
    cases bs with
    | nil => exact ⟨rfl, (List.cons.inj same).2⟩
    | cons b bs => exact absurd same.symm (open_ _ _ _ _)
  | cons a as ih =>
    cases bs with
    | nil => exact absurd same (open_ _ _ _ _)
    | cons b bs =>
      obtain ⟨rest, shape, more⟩ := argsText_cons a as
      obtain ⟨rest', shape', more'⟩ := argsText_cons b bs
      have stops {as : List Arg} {rest t : Text}
          (more : as = [] ∧ rest = ")".toList ∨ as ≠ [] ∧ rest = ',' :: ' ' :: argsText as) :
          (rest ++ t).head?.any Char.isDigit = false := by
        rcases more with ⟨-, rfl⟩ | ⟨-, rfl⟩ <;> rfl
      rw [shape, shape', List.append_assoc, List.append_assoc] at same
      obtain ⟨rfl, behind⟩ := Arg.render_append_inj (stops more) (stops more') same
      rcases more with ⟨rfl, rfl⟩ | ⟨-, rfl⟩ <;> rcases more' with ⟨rfl, rfl⟩ | ⟨-, rfl⟩
      · exact ⟨rfl, (List.cons.inj behind).2⟩
      · exact absurd (List.cons.inj behind).1 (by decide)
      · exact absurd (List.cons.inj behind).1 (by decide)
      · obtain ⟨rfl, rfl⟩ := ih (List.cons.inj (List.cons.inj behind).2).2
        exact ⟨rfl, rfl⟩

theorem Method.name_inj {m n : Method} (same : m.name = n.name) : m = n := by
  have nodup : (Method.all.map Method.name).Nodup := by decide +kernel
  exact List.inj_on_of_nodup_map nodup m.mem_all n.mem_all same

theorem Method.name_bare (m : Method) : ∀ c ∈ m.name, (c != '(') ∧ isLineBreak c = false := by
  have all : ∀ m ∈ Method.all, ∀ c ∈ m.name, (c != '(') ∧ isLineBreak c = false := by decide +kernel
  exact all m m.mem_all

theorem Call.render_eq (c : Call) : c.render = c.method.name ++ '(' :: argsText c.args := by
  simp [Call.render, argsText]

theorem Call.render_append_inj (same : c.render ++ r = d.render ++ u) : c = d ∧ r = u := by
  rw [c.render_eq, d.render_eq, List.append_assoc, List.append_assoc] at same
  obtain ⟨names, rest⟩ := append_inj_of_stop (fun x member => (c.method.name_bare x member).1)
    (fun x member => (d.method.name_bare x member).1) (by simp) (by simp) same
  obtain ⟨args, behind⟩ := argsText_append_inj (List.cons.inj rest).2
  obtain ⟨method, as⟩ := c
  obtain ⟨method', bs⟩ := d
  obtain rfl := Method.name_inj names
  obtain rfl : as = bs := args
  exact ⟨rfl, behind⟩

theorem isLineBreak_decimal {n : Nat} {x : Char} (member : x ∈ decimal n) : isLineBreak x = false := by
  have digit := isDigit_of_mem_decimal member
  rw [isDigit_iff] at digit
  simp only [isLineBreak, Bool.or_eq_false_iff, Bool.and_eq_false_iff, decide_eq_false_iff_not, beq_eq_false_iff_ne]
  omega

theorem isLineBreak_arg {x : Char} (member : x ∈ a.render) : isLineBreak x = false := by
  cases a with
  | str t =>
    simp only [Arg.render, quoted, escape, List.mem_append, List.mem_flatMap] at member
    rcases member with (quote | ⟨y, -, inside⟩) | quote
    · rw [List.mem_singleton.mp quote]
      decide
    · exact isLineBreak_escapeChar inside
    · rw [List.mem_singleton.mp quote]
      decide
  | int n => exact isLineBreak_decimal member
  | param n =>
    rcases List.mem_append.mp member with marker | digit
    · have letters : ∀ c ∈ paramMarker, isLineBreak c = false := by decide
      exact letters x marker
    · exact isLineBreak_decimal digit

theorem isLineBreak_args {x : Char} (member : x ∈ argsText as) : isLineBreak x = false := by
  induction as with
  | nil =>
    rw [show argsText [] = [')'] from rfl, List.mem_singleton] at member
    rw [member]
    decide
  | cons a as ih =>
    obtain ⟨rest, shape, more⟩ := argsText_cons a as
    rw [shape] at member
    rcases List.mem_append.mp member with inside | behind
    · exact isLineBreak_arg inside
    · rcases more with ⟨-, rfl⟩ | ⟨-, rfl⟩
      · rw [List.mem_singleton.mp behind]
        decide
      · simp only [List.mem_cons] at behind
        rcases behind with rfl | rfl | later
        · decide
        · decide
        · exact ih later

theorem isLineBreak_call {x : Char} (member : x ∈ c.render) : isLineBreak x = false := by
  rw [c.render_eq] at member
  rcases List.mem_append.mp member with name | rest
  · exact (c.method.name_bare x name).2
  · rcases List.mem_cons.mp rest with rfl | inside
    · decide
    · exact isLineBreak_args inside

theorem chainLine_eq (c : Call) : chainLine c = '\n' :: ("    ->".toList ++ c.render) := by
  have arrow : "\n    ->".toList = '\n' :: "    ->".toList := by decide
  have line : chainLine c = "\n    ->".toList ++ c.render := rfl
  rw [line, arrow, List.cons_append]

theorem chainLines_inj (same : cs.flatMap chainLine ++ [';'] = ds.flatMap chainLine ++ [';']) : cs = ds := by
  have line (c : Call) (u : Text) : chainLine c ++ u = '\n' :: ("    ->".toList ++ (c.render ++ u)) := by
    rw [chainLine_eq, List.cons_append, List.append_assoc]
  induction cs generalizing ds with
  | nil =>
    cases ds with
    | nil => rfl
    | cons d ds =>
      rw [List.flatMap_cons, List.append_assoc, line] at same
      exact absurd (List.cons.inj same).1 (by decide)
  | cons c cs ih =>
    cases ds with
    | nil =>
      rw [List.flatMap_cons, List.append_assoc, line] at same
      exact absurd (List.cons.inj same).1 (by decide)
    | cons d ds =>
      rw [List.flatMap_cons, List.flatMap_cons, List.append_assoc, List.append_assoc, line, line] at same
      obtain ⟨rfl, rest⟩ := Call.render_append_inj (List.append_cancel_left (List.cons.inj same).2)
      rw [ih rest]

theorem splitOn_lines {first : Text} {lines : List Text} (bare : ∀ l ∈ first :: lines, '\n' ∉ l) :
    (first ++ lines.flatMap ('\n' :: ·)).splitOn '\n' = first :: lines := by
  have joined : first ++ lines.flatMap ('\n' :: ·) = ['\n'].intercalate (first :: lines) := by
    clear bare
    induction lines generalizing first with
    | nil => simp
    | cons l lines ih =>
      rw [List.flatMap_cons, List.cons_append, ih]
      simp [List.intercalate]
  rw [joined, List.splitOn_intercalate _ bare (by simp)]

end Calls

/-- The text of a chain determines its calls: each of them has one line, and its text determines it wherever
    it stands. -/
theorem rendered_chain_determines_calls (mode : EmissionMode) :
    (∀ cs ds, renderChain mode cs = renderChain mode ds → cs = ds) ∧
    (∀ c d : Call, ∀ r u, c.render ++ r = d.render ++ u → c = d ∧ r = u) ∧
    (∀ cs, (renderChain mode cs).dropLast.splitOn '\n' = mode.builderRoot :: cs.map fun c => "    ->".toList ++ c.render) ∧
    ∀ c : Call, ∀ x ∈ c.render, isLineBreak x = false := by
  refine ⟨fun cs ds same => ?_, fun c d r u => Call.render_append_inj, fun cs => ?_, fun c x => isLineBreak_call⟩
  · rw [renderChain, renderChain, List.append_assoc, List.append_assoc] at same
    exact chainLines_inj (List.append_cancel_left same)
  · have parts : (renderChain mode cs).dropLast =
        mode.builderRoot ++ (cs.map fun c => "    ->".toList ++ c.render).flatMap ('\n' :: ·) := by
      rw [renderChain, List.flatMap_map]
      exact List.dropLast_concat
    rw [parts, splitOn_lines]
    intro l member inside
    have feed : isLineBreak '\n' := by decide
    rcases List.mem_cons.mp member with rfl | later
    · revert inside
      cases mode <;> decide
    · obtain ⟨c, -, rfl⟩ := List.mem_map.mp later
      rcases List.mem_append.mp inside with arrow | call
      · revert arrow
        decide
      · rw [isLineBreak_call call] at feed
        cases feed

def forgedCall : Call := ⟨.addFrom, [.str "a\", \"b\")\n    ->join(\"c\");"]⟩

theorem rendered_chain_determines_calls_forged :
    (∀ cs, renderChain .connection [forgedCall] = renderChain .connection cs → [forgedCall] = cs) ∧
    (renderChain .connection [forgedCall]).dropLast.splitOn '\n' =
      [EmissionMode.connection.builderRoot, "    ->from(\"a\\\", \\\"b\\\")\\n    ->join(\\\"c\\\");\")".toList] := by
  obtain ⟨inj, -, lines, -⟩ := rendered_chain_determines_calls .connection
  refine ⟨fun cs => inj _ cs, ?_⟩
  rw [lines]
  decide +kernel

end QueryChain
