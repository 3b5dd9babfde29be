import QueryChain.CommandLine
import QueryChain.Proofs.Scan.Ended

namespace QueryChain

/-- A statement that can stand in a script: nothing around it, nothing open at its end, and no
    semicolon that would cut it. -/
structure IsStatement (t : Text) : Prop where
  trimmed : trim t = t
  balanced : Balanced t
  noComment : (({} : ScanState).run t).mode ≠ .lineComment
  whole : hasTop ';' t = false
  full : normalize t ≠ []

structure ScriptPart where
  front : Text
  statement : Text
  back : Text
  blankFront : ∀ c ∈ front, isBlank c
  blankBack : ∀ c ∈ back, isBlank c
  isStatement : IsStatement statement

/-- Statements with semicolons between them. One more may stand behind the last of them, and blanks
    behind that. -/
structure ScriptText where
  parts : List ScriptPart
  last : Option Text
  blankLast : ∀ c ∈ last.getD [], isBlank c

def ScriptPart.text (p : ScriptPart) : Text := p.front ++ p.statement ++ p.back

namespace ScriptText

def statements (s : ScriptText) : List Text := s.parts.map ScriptPart.statement

def ending (s : ScriptText) : Text :=
  match s.last with
  | none => []
  | some blanks => ';' :: blanks

def text (s : ScriptText) : Text := joinWith ";" (s.parts.map ScriptPart.text) ++ s.ending

end ScriptText

section Pieces

variable {d : Char} {s : Text}

/-- A text is cut behind a part at whose end nothing is open as if that part stood alone. -/
theorem Ended.topPieces_delimiter (ended : Ended s) (plain : isPlain d) (other : d ≠ '*') (u : Text) :
    topPieces d (s ++ d :: u) = topPieces d s ++ topPieces d u := by
  have dash : d ≠ '-' := by
    rintro rfl
    cases plain
  have here : (⟨d, 0, .code⟩ : Mark).isTopOf d := by simp [Mark.isTopOf, Mark.isTop, Mark.isCode]
  rw [topPieces, ended.scan_append (loose_cons dash other u), scan_plain plain,
    List.splitOnP_append_cons _ _ here, List.map_append]
  rfl

end Pieces

namespace ScriptPart

variable (p : ScriptPart)

theorem full : p.statement ≠ [] := by
  intro empty
  refine p.isStatement.full ?_
  rw [empty]
  decide +kernel

end ScriptPart

namespace ScriptText

variable (s : ScriptText)

end ScriptText

def ScriptText.single (t : Text) (isStatement : IsStatement t) : ScriptText where
  parts := [⟨[], t, [], by simp, by simp, isStatement⟩]
  last := none
  blankLast := by simp

namespace Report

def heading (r : Report) : Text := "-- [" ++ decimal r.index ++ "] " ++ r.sql ++ "\n"

def status (r : Report) : Text :=
  match r.result with
  | .ok c => statusOf c
  | .error _ => "declined"

theorem render_eq (mode : EmissionMode) (r : Report) :
    ∃ (c : Char) (rest : Text), c.isAlpha = false ∧
      r.render mode = (r.heading ++ ("-- " : Text)) ++ (r.status ++ c :: rest) := by
  obtain ⟨index, sql, result⟩ := r
  cases result with
  | ok c =>
    have shown : resultText mode (.ok c) = "-- " ++ statusOf c ++ " " ++ c.kind.verb ++ ", " ++
        decimal c.paramCount ++ " parameter(s)\n" ++ c.issues.flatMap warningLine ++
        renderChain mode c.calls ++ "\n" := rfl
    have space (t : Text) : ((" " : String) : Text) ++ t = ' ' :: t := rfl
    have render : (⟨index, sql, .ok c⟩ : Report).render mode =
        (⟨index, sql, .ok c⟩ : Report).heading ++ resultText mode (.ok c) := rfl
    rw [render, shown]
    simp only [List.append_assoc]
    rw [space]
    exact ⟨' ', _, by decide, rfl⟩
  | error issue =>
    exact ⟨':', " " ++ issue.message ++ "\n", by decide, by rw [List.append_assoc]; rfl⟩

end Report

namespace Tally

structure Counts (t : Tally) (statuses : List Text) : Prop where
  total : t.total = statuses.length
  converted : t.converted = statuses.count ("converted" : Text)
  partially : t.partially = statuses.count ("partial" : Text)
  declined : t.declined = statuses.count ("declined" : Text)

theorem count_concat (statuses : List Text) (status counted : Text) :
    (statuses ++ [status]).count counted = statuses.count counted + if status = counted then 1 else 0 := by
  rw [List.count_append, List.count_singleton]
  simp

theorem total_record (t : Tally) (result : Except Issue Conversion) :
    (t.record result).total = t.total + 1 := by
  rw [record.eq_def]
  split
  · split <;> simp only [total] <;> omega
  · rfl

theorem record_status (t : Tally) (r : Report) : t.record r.result =
    { converted := t.converted + if r.status = ("converted" : Text) then 1 else 0
      partially := t.partially + if r.status = ("partial" : Text) then 1 else 0
      declined := t.declined + if r.status = ("declined" : Text) then 1 else 0 } := by
  obtain ⟨index, sql, result⟩ := r
  cases result with
  | ok c =>
    have status : (⟨index, sql, .ok c⟩ : Report).status = Report.statusOf c := rfl
    rw [status, record, Report.statusOf]
    cases c.isPartial <;> rfl
  | error issue => rfl

theorem Counts.record {t : Tally} {statuses : List Text} (counts : t.Counts statuses) (r : Report) :
    (t.record r.result).Counts (statuses ++ [r.status]) where
  total := by rw [total_record, counts.total, List.length_append, List.length_singleton]
  converted := by rw [record_status, count_concat, counts.converted]
  partially := by rw [record_status, count_concat, counts.partially]
  declined := by rw [record_status, count_concat, counts.declined]

end Tally

def ScriptText.reports (reserved : ReservedWords) (s : ScriptText) : List Report :=
  s.statements.mapIdx fun i sql => ⟨i + 1, sql, convert reserved sql⟩

end QueryChain
