import QueryChain.Proofs.Join.Reading
import QueryChain.Proofs.ReadBack.Sections

namespace QueryChain

def joinVocabulary : List Text :=
  ["JOIN", "STRAIGHT_JOIN", "INNER", "LEFT", "RIGHT", "OUTER", "FULL", "CROSS", "ON"]

structure Unjoined (ks : List Keyword) : Prop extends Avoids joinVocabulary ks where
  reserved : AllReserved ks
  noAs : ∀ k ∈ ks, k.headD [] ≠ "AS".toList

theorem Unjoined.table {reserved : ReservedWords} {ks : List Keyword} {table : TableText} (unjoined : Unjoined ks)
    (named : table.Named reserved) : Lacks ks table.text :=
  TableText.lacks named unjoined.reserved unjoined.noAs

theorem avoids_joins : Avoids joinVocabulary seamKeywords := ⟨by decide +kernel, by decide +kernel⟩

namespace JoinForm

variable {ks : List Keyword}

theorem neat (f : JoinForm) : Neat f.text := by
  have clean : cleanUp f.text = f.text ∧ Balanced f.text ∧ f.text ≠ [] := by cases f <;> decide +kernel
  exact .of_normal (by rw [normalize, if_pos clean.1]) clean.2.1 clean.2.2

theorem firstWord_mem (f : JoinForm) (u : Text) : firstWord (f.text ++ ' ' :: u) ∈ joinVocabulary := by
  rw [firstWord_glue]
  cases f <;> decide

theorem lastWord_mem (f : JoinForm) : lastWord f.text ∈ joinVocabulary := by cases f <;> decide

theorem lacks (f : JoinForm) (unjoined : Unjoined ks) : Lacks ks f.text :=
  unjoined.lacks (by cases f <;> decide +kernel)

theorem noMark (f : JoinForm) : '?' ∉ f.text := by cases f <;> decide

end JoinForm
namespace JoinClause

structure Fits (reserved : ReservedWords) (ks : List Keyword) (j : JoinClause) : Prop extends
    Readable reserved j where
  neat : ∀ c ∈ j.condition, Neat c
  lacks : ∀ c ∈ j.condition, Lacks ks c

variable {reserved : ReservedWords} {ks : List Keyword} {j : JoinClause} {js : List JoinClause} {front : Text}

theorem neat_on : Neat "ON" := .of_plain (by decide) (by decide)

theorem neat_body (fits : j.Fits reserved ks) : Neat j.body := by
  have table := TableText.neat fits.table
  rw [body]
  split
  · exact table
  · rename_i c condition
    have clause := neat_on.glue (fits.neat c condition) (avoids_joins.uncrossed_last (by decide) c)
    exact table.glue clause (avoids_joins.uncrossed_first _ (by rw [firstWord_glue]; decide))

theorem lacks_keywords (fits : j.Fits reserved ks) (unjoined : Unjoined ks) : Lacks ks j.body := by
  have table := TableText.neat fits.table
  rw [body]
  split
  · exact unjoined.table fits.table
  · rename_i c condition
    have neat := fits.neat c condition
    have clause := neat_on.glue neat (avoids_joins.uncrossed_last (by decide) c)
    have lacksClause := (unjoined.lacks (by decide)).glue (fits.lacks c condition) unjoined.keywords neat_on neat
      (unjoined.uncrossed_last (by decide) c)
    exact (unjoined.table fits.table).glue lacksClause unjoined.keywords table clause
      (unjoined.uncrossed_first _ (by rw [firstWord_glue]; decide))

theorem neat_restText (fits : ∀ j ∈ js, j.Fits reserved ks) (neat : Neat front) : Neat (front ++ restText js) := by
  induction js generalizing front with
  | nil => rwa [restText, List.append_nil]
  | cons j js ih =>
    have rest := ih (fun k member => fits k (List.mem_cons_of_mem _ member)) (neat_body (fits j (by simp)))
    have chunk := j.form.neat.glue rest (avoids_joins.uncrossed_last j.form.lastWord_mem _)
    exact neat.glue chunk (avoids_joins.uncrossed_first _ (j.form.firstWord_mem _))

theorem lacks_restText (fits : ∀ j ∈ js, j.Fits reserved ks) (unjoined : Unjoined ks) (neat : Neat front)
    (lacks : Lacks ks front) : Lacks ks (front ++ restText js) := by
  induction js generalizing front with
  | nil => rwa [restText, List.append_nil]
  | cons j js ih =>
    have here := fits j (by simp)
    have later : ∀ k ∈ js, k.Fits reserved ks := fun k member => fits k (List.mem_cons_of_mem _ member)
    have rest := ih later (neat_body here) (lacks_keywords here unjoined)
    have neatRest := neat_restText later (neat_body here)
    have neatChunk := j.form.neat.glue neatRest (avoids_joins.uncrossed_last j.form.lastWord_mem _)
    have chunk := (j.form.lacks unjoined).glue rest unjoined.keywords j.form.neat neatRest
      (unjoined.uncrossed_last j.form.lastWord_mem _)
    exact lacks.glue chunk unjoined.keywords neat neatChunk (unjoined.uncrossed_first _ (j.form.firstWord_mem _))

theorem numbered_body (fits : j.Readable reserved) (issued : Nat) :
    numbered issued j.body = { j with condition := j.condition.map (numbered issued) }.body := by
  have table := TableText.neat fits.table
  have named := TableText.numbered_eq fits.table issued
  have none := TableText.placeholders_eq fits.table
  rw [body, body]
  cases j.condition with
  | none => exact named
  | some c =>
    dsimp only [Option.map_some]
    rw [table.solid.numbered_glue, named, none, neat_on.solid.numbered_glue, numbered_of_free (by decide),
      placeholders_of_free (by decide)]
    rfl

theorem placeholders_body (fits : j.Readable reserved) : QueryChain.placeholders j.body = j.placeholders := by
  have table := TableText.neat fits.table
  have none := TableText.placeholders_eq fits.table
  rw [body, placeholders]
  cases j.condition with
  | none => exact none
  | some c =>
    dsimp only [Option.map_some]
    rw [table.solid.placeholders_glue, none, neat_on.solid.placeholders_glue, placeholders_of_free (by decide)]
    simp

theorem numbered_restText (readable : ∀ j ∈ js, j.Readable reserved) (solid : Solid front) (issued : Nat) :
    numbered issued (front ++ restText js) =
      numbered issued front ++ restText (namedAll (issued + QueryChain.placeholders front) js) := by
  induction js generalizing front issued with
  | nil => rw [restText, namedAll, restText, List.append_nil, List.append_nil]
  | cons j js ih =>
    have here := readable j (by simp)
    have rest := ih (fun k member => readable k (List.mem_cons_of_mem _ member)) (solid_body here)
    rw [restText, solid.numbered_glue, j.form.neat.solid.numbered_glue, numbered_of_free j.form.noMark,
      placeholders_of_free j.form.noMark, Nat.add_zero, rest, numbered_body here, placeholders_body here, namedAll,
      restText]

end JoinClause
end QueryChain
