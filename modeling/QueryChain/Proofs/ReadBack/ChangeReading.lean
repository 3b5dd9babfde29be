import QueryChain.Proofs.ReadBack.DeleteText
import QueryChain.Proofs.ReadBack.InsertText

namespace QueryChain

inductive ChangeText where
  | update (d : UpdateText)
  | delete (d : DeleteText)
  | insert (d : InsertText)

namespace ChangeText

def kind : ChangeText → StatementKind
  | .update _ => .update
  | .delete _ => .delete
  | .insert _ => .insert

def text : ChangeText → Text
  | .update d => d.text
  | .delete d => d.text
  | .insert d => d.text

def clauses : ChangeText → Clauses
  | .update d => d.clauses
  | .delete d => d.clauses
  | .insert d => d.clauses

/-- The parts of a statement that is read back. -/
def Fits (reserved : ReservedWords) : ChangeText → Prop
  | .update d => d.Fits reserved
  | .delete d => d.Fits reserved
  | .insert d => d.Fits reserved

variable {reserved : ReservedWords}

theorem neat (c : ChangeText) (fits : c.Fits reserved) : Neat c.text := by
  cases c with
  | update d => exact d.neat fits
  | delete d => exact d.neat fits
  | insert d => exact (d.body fits).neat

theorem classify_text (c : ChangeText) (fits : c.Fits reserved) : classify c.text = .ok c.kind := by
  cases c with
  | update d => exact d.classify_text fits
  | delete d => exact d.classify_text fits
  | insert d => exact classify_verb .insert ((d.body fits).lacks.mono (by decide))

theorem yields_readStatement (c : ChangeText) (fits : c.Fits reserved) :
    Yields (readStatement reserved c.kind c.text) 0 c.clauses (placeholders c.text) := by
  cases c with
  | update d =>
    have read := d.yields_readUpdate fits
    rwa [← d.placeholders_text fits] at read
  | delete d =>
    have read := d.yields_readDelete fits
    rwa [← d.placeholders_text fits] at read
  | insert d => exact d.yields_readInsert fits

/-- A written change of data is converted to just what it says, without an issue. -/
theorem change_read_back (reserved : ReservedWords) (c : ChangeText) (fits : c.Fits reserved) :
    convert reserved c.text = .ok {
      kind := c.kind
      clauses := c.clauses
      calls := c.clauses.calls
      paramCount := placeholders c.text
      outcome := .success } :=
  convert_of_yields (c.neat fits) (c.classify_text fits) (c.yields_readStatement fits)

def priceUpdate : UpdateText where
  target := {
    table := { name := "items", aliasName := some (false, "i") }
    joins := [{ form := .inner, table := { name := "prices", aliasName := some (true, "p") },
                condition := some "p.item = i.id AND p.region = ?" }] }
  assignments := [{ owner := some "i", column := "price", value := "GREATEST(p.net * ?, 'a, b = c')" },
    { owner := some "items", column := "seen", value := "?" }, { column := "state", value := "i.state = 2" }]
  rows := {
    conditions := some ⟨"i.id IN (SELECT id FROM open)", [(.and, "i.stock > ?"), (.or, "i.kind = 'x'")]⟩
    orderBy := [("i.id", .descending)]
    limit := some .placeholder }

theorem change_read_back_prices : convert default priceUpdate.text = .ok {
    kind := .update
    clauses := priceUpdate.clauses
    calls := priceUpdate.clauses.calls
    paramCount := placeholders priceUpdate.text
    outcome := .success } := by
  refine change_read_back default (.update priceUpdate) ?_
  have conditions : ∀ c ∈ priceUpdate.rows.conditions, ∀ a ∈ c.operands, WhereAtom rowKeywords a := by decide +kernel
  have orderBy : ∀ e ∈ priceUpdate.rows.orderBy, Atom rowKeywords e.1 := by decide +kernel
  exact {
    target := by decide +kernel
    start := by decide
    nonempty := by decide
    assignments := by decide +kernel
    rows := { conditions, orderBy, limit := by decide +kernel } }

end ChangeText
end QueryChain
