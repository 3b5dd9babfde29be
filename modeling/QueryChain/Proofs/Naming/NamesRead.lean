import QueryChain.Proofs.Bytes.Params
import QueryChain.Proofs.Naming.Cuts
import QueryChain.Proofs.Params.Numbers

namespace QueryChain

section Loop

def nameStep : Text × Nat → Mark → Text × Nat
  | (out, issued), m => if m.isPlaceholder then (out ++ paramName (issued + 1), issued + 1) else (out ++ [m.char], issued)

theorem foldl_nameStep (out : Text) (issued : Nat) (ms : Marks) : ms.foldl nameStep (out, issued) =
    (out ++ numberMarks issued ms, issued + ms.countP Mark.isPlaceholder) := by
  induction ms generalizing out issued with
  | nil => simp [numberMarks]
  | cons m ms ih =>
    rw [List.foldl_cons, nameStep, numberMarks]
    by_cases placeholder : m.isPlaceholder
    · rw [if_pos placeholder, if_pos placeholder, ih, List.countP_cons_of_pos placeholder, List.append_assoc,
        Nat.add_right_comm, Nat.add_assoc]
    · rw [if_neg placeholder, if_neg placeholder, ih, List.countP_cons_of_neg placeholder, List.append_assoc]
      rfl

end Loop

section Read

variable {t : Text}

/-- The names given to the placeholders of a text are the parameters read in it, and naming changes nothing else. -/
theorem names_read_back (free : CommentFree t) (unnamed : ¬paramMarker <:+: t) (digitFree : DigitFree t) (p : Progress) :
    (scan t).foldl nameStep ([], p.issued) = ((nameParams t p).1, (nameParams t p).2.issued) ∧
    (nameParams t p).2.issued = p.issued + placeholders t ∧
    Bytewise.paramsIn? (nameParams t p).1 =
      some ((List.range' (p.issued + 1) (placeholders t)).filter (· ≤ largestNumber)) ∧
    (p.issued + placeholders t ≤ largestNumber →
      Bytewise.paramsIn? (nameParams t p).1 = some (List.range' (p.issued + 1) (placeholders t))) ∧
    scan (nameParams t p).1 = nameMarks p.issued (scan t) := by
  have loop := foldl_nameStep [] p.issued (scan t)
  have read : Bytewise.paramsIn? (numbered p.issued t) =
      some ((List.range' (p.issued + 1) (placeholders t)).filter (· ≤ largestNumber)) := by
    rw [Bytewise.paramsIn?_eq, (clear_numbered free.dashes unnamed).shown, numbered,
      names_eq_filter (by rwa [markText_scan]) digitFree]
    rfl
  refine ⟨loop, rfl, read, fun fits => ?_, scan_numbered p.issued t⟩
  rw [← filter_range_fits fits]
  exact read

def escapedQuotes : Text := "a=? AND b='é\\é?' AND f(c,?) AND d='\\'?\\é"

theorem names_read_back_escaped :
    (nameParams escapedQuotes { issued := 41 }).1 = "a=:param42 AND b='é\\é?' AND f(c,:param43) AND d='\\'?\\é" ∧
    Bytewise.paramsIn? (nameParams escapedQuotes { issued := 41 }).1 = some [42, 43] := by
  have chars : escapedQuotes = _ := String.toList_ofList
  have free : CommentFree escapedQuotes := by
    rw [chars, CommentFree]
    decide +kernel
  have digitFree : DigitFree escapedQuotes := by
    rw [chars, DigitFree]
    decide +kernel
  have count : placeholders escapedQuotes = 2 := by
    rw [chars]
    decide +kernel
  obtain ⟨-, -, -, read, -⟩ := names_read_back free (by decide +kernel) digitFree { issued := 41 }
  rw [count] at read
  exact ⟨by decide +kernel, read (by decide)⟩

end Read
end QueryChain
