import QueryChain.Builder.Call
import QueryChain.Proofs.Bytes.Clauses
import QueryChain.Proofs.Params.Clear
import QueryChain.Proofs.Keyword.Tail

namespace QueryChain

def bytes (t : Text) : List UInt8 := t.flatMap String.utf8EncodeChar

def byteOf (c : Char) : UInt8 := UInt8.ofNat c.toNat

namespace Bytewise

def isQuoteByte (b : UInt8) : Bool := b == byteOf '\'' || b == byteOf '"' || b == byteOf '`'

def isDigitByte (b : UInt8) : Bool := byteOf '0' ≤ b && b ≤ byteOf '9'

def paramsFrom? (t : Text) (quote : Option UInt8) (start : Nat) : List UInt8 → Option (List Nat)
  | [] => some []
  | b :: rest =>
    match quote with
    | some q =>
      if b = byteOf '\\' ∧ q ≠ byteOf '`' then paramsFrom? t quote (start + 2) (rest.drop 1)
      else paramsFrom? t (if b = q then none else quote) (start + 1) rest
    | none =>
      if isQuoteByte b then paramsFrom? t (some b) (start + 1) rest
      else
        let size := ((b :: rest).drop 6).takeWhile isDigitByte |>.length
        if (bytes paramMarker).isPrefixOf (b :: rest) ∧ 0 < size then do
          let number ← part? t (start + 6) (start + 6 + size)
          return (number? number).toList ++ (← paramsFrom? t none (start + 6 + size) (rest.drop (5 + size)))
        else paramsFrom? t none (start + 1) rest
termination_by bs => bs.length

def paramsIn? (t : Text) : Option (List Nat) := paramsFrom? t none 0 (bytes t)

def argParams? : Arg → Option (List Nat)
  | .str t => paramsIn? t
  | .int _ => some []
  | .param n => some [n]

def callParams? (c : Call) : Option (List Nat) := do return (← c.args.mapM argParams?).flatten

end Bytewise

section Bytes

variable {c d : Char} {t : Text}

theorem utf8Size_eq_one : c.utf8Size = 1 ↔ c.toNat ≤ 127 := by
  rw [Char.utf8Size_eq_one_iff, UInt32.le_iff_toNat_le]
  rfl

theorem utf8EncodeChar_small (small : c.utf8Size = 1) : String.utf8EncodeChar c = [byteOf c] := by
  have le := utf8Size_eq_one.mp small
  rw [String.utf8EncodeChar]
  exact if_pos le

theorem wide_utf8EncodeChar (wide : c.utf8Size ≠ 1) : ∀ b ∈ String.utf8EncodeChar c, 128 ≤ b.toNat := by
  have far := mt utf8Size_eq_one.mpr wide
  rw [Char.toNat] at far
  rw [String.utf8EncodeChar]
  simp only [if_neg far]
  intro b member
  split_ifs at member <;> simp only [List.mem_cons, List.not_mem_nil, or_false] at member <;>
    rcases member with rfl | rfl | rfl | rfl <;> simp only [UInt8.toNat_ofNat'] <;> omega

theorem toNat_byteOf (small : c.utf8Size = 1) : (byteOf c).toNat = c.toNat := by
  have le := utf8Size_eq_one.mp small
  rw [byteOf, UInt8.toNat_ofNat']
  omega

theorem byteOf_inj (small : c.utf8Size = 1) (small' : d.utf8Size = 1) : byteOf c = byteOf d ↔ c = d := by
  constructor
  · intro same
    have nat := congrArg UInt8.toNat same
    rw [toNat_byteOf small, toNat_byteOf small'] at nat
    exact Char.toNat_inj.mp nat
  · rintro rfl
    rfl

theorem bytes_cons (c : Char) (t : Text) : bytes (c :: t) = String.utf8EncodeChar c ++ bytes t := rfl

theorem length_bytes (t : Text) : (bytes t).length = byteSize t := by
  induction t with
  | nil => rfl
  | cons c t ih => rw [bytes_cons, List.length_append, String.length_utf8EncodeChar, ih, byteSize_cons]

/-- A text of single bytes stands at the start of the bytes of those texts that start with it. -/
theorem prefix_bytes {w : Text} (small : ∀ c ∈ w, c.utf8Size = 1) : bytes w <+: bytes t ↔ w <+: t := by
  induction w generalizing t with
  | nil => simp [bytes]
  | cons a w ih =>
    have one := small a (by simp)
    rw [bytes_cons, utf8EncodeChar_small one]
    cases t with
    | nil => simp [bytes]
    | cons c t =>
      have later := ih (t := t) fun c member => small c (by simp [member])
      rw [bytes_cons]
      by_cases same : c.utf8Size = 1
      · rw [utf8EncodeChar_small same, List.singleton_append, List.singleton_append, List.cons_prefix_cons,
          List.cons_prefix_cons, later, byteOf_inj one same]
      · obtain ⟨b, bs, code⟩ := List.exists_cons_of_ne_nil (String.utf8EncodeChar_ne_nil (c := c))
        have big := wide_utf8EncodeChar same b (by rw [code]; simp)
        have other : byteOf a ≠ b := by
          rintro rfl
          rw [toNat_byteOf one] at big
          have le := utf8Size_eq_one.mp one
          omega
        rw [code, List.singleton_append, List.cons_append, List.cons_prefix_cons, List.cons_prefix_cons]
        constructor
        · exact fun both => absurd both.1 other
        · rintro ⟨rfl, -⟩
          exact absurd one same

theorem bytes_append (s t : Text) : bytes (s ++ t) = bytes s ++ bytes t := by simp [bytes]

theorem byteSize_small {w : Text} (small : ∀ c ∈ w, c.utf8Size = 1) : byteSize w = w.length := by
  induction w with
  | nil => rfl
  | cons c w ih =>
    rw [byteSize_cons, small c (by simp), ih fun d member => small d (by simp [member]), List.length_cons, Nat.add_comm]

theorem drop_bytes {w : Text} (small : ∀ c ∈ w, c.utf8Size = 1) : (bytes (w ++ t)).drop w.length = bytes t := by
  rw [bytes_append, ← byteSize_small small, ← length_bytes, List.drop_left]

theorem utf8Size_of_isDigit (digit : c.isDigit) : c.utf8Size = 1 := by
  rw [isDigit_iff] at digit
  exact utf8Size_eq_one.mpr (by omega)

end Bytes

namespace Bytewise

section Params

variable {c : Char} {t : Text} {quote : Option UInt8} {start : Nat} {bs more : List UInt8}

theorem isDigitByte_byteOf (small : c.utf8Size = 1) : isDigitByte (byteOf c) = c.isDigit := by
  have zero : (byteOf '0').toNat = 48 := rfl
  have nine : (byteOf '9').toNat = 57 := rfl
  rw [Bool.eq_iff_iff, isDigit_iff, isDigitByte, Bool.and_eq_true, decide_eq_true_iff, decide_eq_true_iff,
    UInt8.le_iff_toNat_le, UInt8.le_iff_toNat_le, toNat_byteOf small, zero, nine]

theorem isDigitByte_of_wide {b : UInt8} (wide : 128 ≤ b.toNat) : isDigitByte b = false := by
  have nine : (byteOf '9').toNat = 57 := rfl
  rw [Bool.eq_false_iff, isDigitByte, ne_eq, Bool.and_eq_true, decide_eq_true_iff, decide_eq_true_iff,
    UInt8.le_iff_toNat_le, UInt8.le_iff_toNat_le, nine]
  omega

theorem isQuoteByte_byteOf (small : c.utf8Size = 1) : isQuoteByte (byteOf c) = isQuote c := by
  have same (d : Char) (one : d.utf8Size = 1) : (byteOf c == byteOf d) = (c == d) := by
    rw [Bool.eq_iff_iff, beq_iff_eq, beq_iff_eq, byteOf_inj small one]
  rw [isQuoteByte, isQuote, same _ rfl, same _ rfl, same _ rfl]

theorem isQuoteByte_of_wide {b : UInt8} (wide : 128 ≤ b.toNat) : isQuoteByte b = false := by
  rw [Bool.eq_false_iff]
  intro quote
  rw [isQuoteByte, Bool.or_eq_true, Bool.or_eq_true, beq_iff_eq, beq_iff_eq, beq_iff_eq] at quote
  rcases quote with (rfl | rfl) | rfl <;> exact absurd wide (by decide)

theorem length_takeWhile_bytes (t : Text) :
    ((bytes t).takeWhile isDigitByte).length = (t.takeWhile Char.isDigit).length := by
  induction t with
  | nil => rfl
  | cons c t ih =>
    rw [bytes_cons]
    by_cases small : c.utf8Size = 1
    · rw [utf8EncodeChar_small small, List.singleton_append, List.takeWhile_cons, List.takeWhile_cons,
        isDigitByte_byteOf small]
      by_cases digit : c.isDigit
      · rw [if_pos digit, if_pos digit, List.length_cons, List.length_cons, ih]
      · rw [if_neg digit, if_neg digit]
        rfl
    · obtain ⟨b, bs, code⟩ := List.exists_cons_of_ne_nil (String.utf8EncodeChar_ne_nil (c := c))
      have big := wide_utf8EncodeChar small b (by rw [code]; simp)
      have noDigit : c.isDigit = false := Bool.eq_false_iff.mpr fun digit => small (utf8Size_of_isDigit digit)
      rw [code, List.cons_append, List.takeWhile_cons, List.takeWhile_cons, isDigitByte_of_wide big, noDigit]
      rfl

theorem paramsFrom?_wide (wide : ∀ b ∈ bs, 128 ≤ b.toNat) (open_ : ∀ q ∈ quote, q.toNat < 128) :
    paramsFrom? t quote start (bs ++ more) = paramsFrom? t quote (start + bs.length) more := by
  induction bs generalizing start with
  | nil => rfl
  | cons b bs ih =>
    have big := wide b (by simp)
    have later := @ih (start + 1) fun b member => wide b (by simp [member])
    have same : start + (b :: bs).length = start + 1 + bs.length := by rw [List.length_cons]; omega
    rw [same, ← later, List.cons_append]
    cases quote with
    | none =>
      rw [paramsFrom?]
      have noMarker : (bytes paramMarker).isPrefixOf (b :: (bs ++ more)) = false := by
        rw [Bool.eq_false_iff]
        intro starts
        rw [List.isPrefixOf_iff_prefix] at starts
        obtain ⟨u, whole⟩ := starts
        have first : b = byteOf ':' := (List.cons.inj whole).1.symm
        rw [first] at big
        exact absurd big (by decide)
      simp [isQuoteByte_of_wide big, noMarker]
    | some q =>
      rw [paramsFrom?]
      have less := open_ q (by simp)
      have noEscape : b ≠ byteOf '\\' := by
        rintro rfl
        exact absurd big (by decide)
      have other : b ≠ q := by
        rintro rfl
        omega
      simp [noEscape, other]

theorem paramsFrom_plain {w : Text} (plain : ∀ c ∈ w, c ≠ ':' ∧ isQuote c = false) (t : Text) :
    paramsFrom none false (w ++ t) = paramsFrom none false t := by
  induction w with
  | nil => rfl
  | cons c w ih =>
    obtain ⟨other, noQuote⟩ := plain c (by simp)
    rw [List.cons_append, paramsFrom, paramAtStart?_other other, noQuote]
    exact ih fun d member => plain d (by simp [member])

theorem plain_of_isDigit (digit : c.isDigit) : c ≠ ':' ∧ isQuote c = false := by
  constructor
  · rintro rfl
    cases digit
  · rw [Bool.eq_false_iff, isQuote]
    intro quote
    rw [Bool.or_eq_true, Bool.or_eq_true, beq_iff_eq, beq_iff_eq, beq_iff_eq] at quote
    rcases quote with (rfl | rfl) | rfl <;> cases digit

theorem utf8Size_of_isQuote (quote : isQuote c) : c.utf8Size = 1 := by
  rw [isQuote, Bool.or_eq_true, Bool.or_eq_true, beq_iff_eq, beq_iff_eq, beq_iff_eq] at quote
  rcases quote with (rfl | rfl) | rfl <;> rfl

theorem marker_parts {u : Text} {n : Nat} (text : t.drop n = paramMarker ++ u) (k : Nat) :
    t.drop (n + 6 + k) = u.drop k ∧ place t (n + 6 + k) = place t n + 6 + place u k := by
  have size : paramMarker.length = 6 := rfl
  have six : t.drop (n + 6) = u := by rw [← List.drop_drop, text, ← size, List.drop_left]
  have wide : place (t.drop n) 6 = 6 := by
    rw [place, text, ← size, List.take_left]
    rfl
  exact ⟨by rw [← List.drop_drop, six], by rw [place_add, place_add, six, wide]⟩

theorem place_digits (u : Text) : place u (u.takeWhile Char.isDigit).length = (u.takeWhile Char.isDigit).length := by
  rw [place, ← List.prefix_iff_eq_take.mp (List.takeWhile_prefix _)]
  exact byteSize_small fun c member => utf8Size_of_isDigit (List.mem_takeWhile_imp member)

theorem drop_marker {u : Text} {b : UInt8} {rest : List UInt8} (code : b :: rest = bytes (paramMarker ++ u)) :
    (b :: rest).drop 6 = bytes u ∧
      rest.drop (5 + (u.takeWhile Char.isDigit).length) = bytes (u.drop (u.takeWhile Char.isDigit).length) := by
  have small : ∀ c ∈ paramMarker, c.utf8Size = 1 := by decide
  have six : (b :: rest).drop 6 = bytes u := by
    rw [code]
    exact drop_bytes small
  refine ⟨six, ?_⟩
  have digits : ∀ c ∈ u.takeWhile Char.isDigit, c.utf8Size = 1 := fun c member =>
    utf8Size_of_isDigit (List.mem_takeWhile_imp member)
  have parts := List.takeWhile_append_dropWhile (p := Char.isDigit) (l := u)
  have behind := drop_bytes (t := u.dropWhile Char.isDigit) digits
  rw [parts, ← six, List.drop_drop] at behind
  rw [drop_length_takeWhile, ← behind,
    show 6 + (u.takeWhile Char.isDigit).length = 5 + (u.takeWhile Char.isDigit).length + 1 by omega, List.drop_succ_cons]

theorem paramsFrom?_place (n : Nat) (quote : Option Char) (isQuote_ : ∀ q ∈ quote, isQuote q) :
    paramsFrom? t (quote.map byteOf) (place t n) (bytes (t.drop n)) = some (paramsFrom quote false (t.drop n)) := by
  by_cases bound : n < t.length
  · have size := place_succ bound
    have onward (quote : Option Char) (isQuote_ : ∀ q ∈ quote, isQuote q) :=
      paramsFrom?_place (n + 1) quote isQuote_
    rw [List.drop_eq_getElem_cons bound, bytes_cons]
    by_cases small : (t[n]).utf8Size = 1
    · rw [utf8EncodeChar_small small, List.singleton_append]
      rw [small] at size
      cases quote with
      | some q =>
        have one := utf8Size_of_isQuote (isQuote_ q (by simp))
        have escapes : (byteOf t[n] = byteOf '\\' ∧ byteOf q ≠ byteOf '`') ↔ t[n] = '\\' ∧ q ≠ '`' := by
          rw [byteOf_inj small rfl, ne_eq, byteOf_inj one rfl]
        rw [Option.map_some, paramsFrom?, paramsFrom]
        by_cases escape : t[n] = '\\' ∧ q ≠ '`'
        · rw [if_pos (escapes.mpr escape), if_neg Bool.false_ne_true, if_pos escape]
          by_cases more : n + 1 < t.length
          · obtain ⟨b, bs, code⟩ := List.exists_cons_of_ne_nil (String.utf8EncodeChar_ne_nil (c := t[n + 1]))
            have behind := place_succ more
            have wide : ∀ b ∈ bs, 128 ≤ b.toNat := by
              intro b' member
              by_cases small' : (t[n + 1]).utf8Size = 1
              · rw [utf8EncodeChar_small small'] at code
                rw [← (List.cons.inj code).2] at member
                cases member
              · exact wide_utf8EncodeChar small' b' (by rw [code]; exact List.mem_cons_of_mem _ member)
            have open_ : ∀ b ∈ some (byteOf q), b.toNat < 128 := by
              rintro _ ⟨⟩
              rw [toNat_byteOf one]
              have le := utf8Size_eq_one.mp one
              omega
            rw [← String.length_utf8EncodeChar, code, List.length_cons, size] at behind
            rw [List.drop_eq_getElem_cons more, bytes_cons, code, List.cons_append, List.drop_succ_cons, List.drop_zero,
              paramsFrom?_wide wide open_, show place t n + 2 + bs.length = place t (n + 1 + 1) by omega,
                paramsFrom, if_pos rfl]
            exact paramsFrom?_place (n + 1 + 1) (some q) isQuote_
          · have none_ : t.drop (n + 1) = [] := List.drop_eq_nil_of_le (by omega)
            rw [none_]
            simp [bytes, paramsFrom?, paramsFrom]
        · rw [if_neg (mt escapes.mp escape), if_neg Bool.false_ne_true, if_neg escape, ← size]
          by_cases close : t[n] = q
          · rw [if_pos close, if_pos (congrArg byteOf close)]
            exact onward none (by simp)
          · rw [if_neg close, if_neg (mt (byteOf_inj small one).mp close)]
            exact onward (some q) isQuote_
      | none =>
        rw [Option.map_none, paramsFrom?, paramsFrom, isQuoteByte_byteOf small]
        by_cases opens : isQuote t[n]
        · have other : t[n] ≠ ':' := by
            intro same
            rw [same] at opens
            cases opens
          rw [if_pos opens, if_pos opens, paramAtStart?_other other, ← size]
          exact onward (some t[n]) (by simpa using opens)
        · rw [if_neg opens, if_neg opens]
          have whole : t[n] :: t.drop (n + 1) = t.drop n := (List.drop_eq_getElem_cons bound).symm
          have code : byteOf t[n] :: bytes (t.drop (n + 1)) = bytes (t.drop n) := by
            rw [← whole, bytes_cons, utf8EncodeChar_small small, List.singleton_append]
          have letters : ∀ c ∈ paramMarker, c.utf8Size = 1 := by decide
          have starts : (bytes paramMarker).isPrefixOf (byteOf t[n] :: bytes (t.drop (n + 1))) = true ↔
              paramMarker <+: t.drop n := by rw [code, List.isPrefixOf_iff_prefix, prefix_bytes letters]
          have next := onward none (by simp)
          rw [Option.map_none, size] at next
          rw [whole]
          simp only [starts]
          by_cases marker : paramMarker <+: t.drop n
          · obtain ⟨u, text⟩ := marker
            obtain ⟨six, behind⟩ := drop_marker (u := u) (code.trans (by rw [text]))
            obtain ⟨-, front⟩ := marker_parts text.symm 0
            obtain ⟨rest, end_⟩ := marker_parts text.symm (u.takeWhile Char.isDigit).length
            rw [place_zero, Nat.add_zero, Nat.add_zero] at front
            rw [place_digits, ← front] at end_
            have named : paramAtStart? (t.drop n) = number? (u.takeWhile Char.isDigit) := by
              rw [paramAtStart?, after?, if_pos (by rw [List.isPrefixOf_iff_prefix]; exact ⟨u, text⟩),
                ← text, List.drop_left]
              rfl
            rw [named, six, length_takeWhile_bytes, behind, ← front, ← end_, ← rest]
            by_cases digits : 0 < (u.takeWhile Char.isDigit).length
            · have later := paramsFrom?_place (n + 6 + (u.takeWhile Char.isDigit).length) none (by simp)
              rw [Option.map_none] at later
              rw [if_pos ⟨⟨u, text⟩, digits⟩, part?_place (Nat.le_add_right _ _), later]
              have number : slice (n + 6) (n + 6 + (u.takeWhile Char.isDigit).length) t = u.takeWhile Char.isDigit := by
                rw [slice_eq_take_drop, Nat.add_sub_cancel_left, ← List.drop_drop, ← text]
                exact (List.prefix_iff_eq_take.mp (List.takeWhile_prefix _)).symm
              have letters : t.drop (n + 1) = "param".toList ++ u.takeWhile Char.isDigit ++
                  t.drop (n + 6 + (u.takeWhile Char.isDigit).length) := by
                rw [rest, drop_length_takeWhile, List.append_assoc, List.takeWhile_append_dropWhile]
                exact (List.cons.inj (whole.trans text.symm)).2
              have plain : ∀ c ∈ "param".toList ++ u.takeWhile Char.isDigit, c ≠ ':' ∧ isQuote c = false := by
                intro c member
                have word : ∀ c ∈ "param".toList, c ≠ ':' ∧ isQuote c = false := by decide
                rcases List.mem_append.mp member with letter | digit
                · exact word c letter
                · exact plain_of_isDigit (List.mem_takeWhile_imp digit)
              rw [number, letters, paramsFrom_plain plain]
              rfl
            · have none_ : u.takeWhile Char.isDigit = [] := List.length_eq_zero_iff.mp (by omega)
              rw [if_neg (fun both => digits both.2), next, none_]
              rfl
          · have none_ : paramAtStart? (t.drop n) = none := by
              rw [paramAtStart?, after?, if_neg (by rwa [List.isPrefixOf_iff_prefix])]
              rfl
            rw [if_neg (fun both => marker both.1), next, none_]
            rfl
    · have fits : place t n + (String.utf8EncodeChar t[n]).length = place t (n + 1) := by
        rw [String.length_utf8EncodeChar, size]
      have open_ : ∀ q ∈ quote.map byteOf, q.toNat < 128 := by
        intro b member
        obtain ⟨q, here, rfl⟩ := Option.mem_map.mp member
        have one := utf8Size_of_isQuote (isQuote_ q here)
        rw [toNat_byteOf one]
        have le := utf8Size_eq_one.mp one
        omega
      have passed : paramsFrom quote false (t[n] :: t.drop (n + 1)) = paramsFrom quote false (t.drop (n + 1)) := by
        have other (d : Char) (one : d.utf8Size = 1) : t[n] ≠ d := by
          intro same
          rw [same] at small
          exact small one
        have noQuote : isQuote t[n] = false := Bool.eq_false_iff.mpr fun opens => small (utf8Size_of_isQuote opens)
        cases quote with
        | none =>
          rw [paramsFrom, paramAtStart?_other (other ':' rfl), noQuote]
          rfl
        | some q =>
          rw [paramsFrom]
          have one := utf8Size_of_isQuote (isQuote_ q (by simp))
          simp [other '\\' rfl, other q one]
      rw [paramsFrom?_wide (wide_utf8EncodeChar small) open_, fits, passed]
      exact onward quote isQuote_
  · rw [List.drop_eq_nil_of_le (by omega)]
    cases quote <;> simp [bytes, paramsFrom?, paramsFrom]
termination_by t.length - n

theorem paramsIn?_eq (t : Text) : paramsIn? t = some (paramsIn t) := by
  have whole := paramsFrom?_place (t := t) 0 none (by simp)
  rwa [place_zero, List.drop_zero] at whole

theorem callParams?_eq (c : Call) : callParams? c = some c.params := by
  have each (a : Arg) : argParams? a = some a.params := by
    cases a with
    | str t => exact paramsIn?_eq t
    | int n => rfl
    | param n => rfl
  rw [callParams?, mapM_some fun a _ => each a]
  simp [Call.params, List.flatMap]

end Params
end Bytewise
end QueryChain
