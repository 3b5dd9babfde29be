import QueryChain.Check.Calls
import QueryChain.Check.CaseFile
import QueryChain.Check.Samples
import QueryChain.Main
import QueryChain.Proofs.NormalForm.Basic
import QueryChain.Proofs.Keyword.Order
import QueryChain.Proofs.NormalForm.Region
import QueryChain.Proofs.Keyword.Layout
import QueryChain.Proofs.Statement.Reading
import QueryChain.Proofs.Statement.Clauses
import QueryChain.Proofs.Keyword.Skipping
import QueryChain.Proofs.Keyword.Tail
import QueryChain.Proofs.Params.Positional
import QueryChain.Proofs.Statement.Guarded
import QueryChain.Proofs.Scan.Tracker
import QueryChain.Proofs.Params.Clear
import QueryChain.Proofs.Params.Pieces
import QueryChain.Proofs.Params.Values
import QueryChain.Proofs.Keyword.Words
import QueryChain.Proofs.Params.Conditions
import QueryChain.Proofs.Params.Joins
import QueryChain.Proofs.Params.Names
import QueryChain.Proofs.Params.Naming
import QueryChain.Proofs.Params.Numbers
import QueryChain.Proofs.Params.Accounts
import QueryChain.Proofs.Params.Passing
import QueryChain.Proofs.Params.Passes
import QueryChain.Proofs.Params.Passed
import QueryChain.Proofs.Params.Conserved
import QueryChain.Proofs.Statement.Spelled
import QueryChain.Proofs.Keyword.Spans
import QueryChain.Proofs.Statement.Dropped
import QueryChain.Proofs.Condition.Formula
import QueryChain.Proofs.Condition.Truth
import QueryChain.Proofs.ReadBack.SelectReading
import QueryChain.Proofs.ReadBack.ChangeReading
import QueryChain.Proofs.Naming.Words
import QueryChain.Proofs.Naming.Structure
import QueryChain.Proofs.Output.Scripts
import QueryChain.Proofs.Statement.WellFormed
import QueryChain.Proofs.Scan.Grammar
import QueryChain.Proofs.NormalForm.CodeKept
import QueryChain.Proofs.Bytes.Conversion
import QueryChain.Proofs.Statement.Reserved
import QueryChain.Proofs.NormalForm.Tidy
import QueryChain.Proofs.Statement.Attribution
import QueryChain.Proofs.NormalForm.Stray
import QueryChain.Proofs.NormalForm.Collapse
import QueryChain.Proofs.NormalForm.Dashes
import QueryChain.Proofs.NormalForm.CodeLost
import QueryChain.Proofs.Range.Operands
import QueryChain.Proofs.Range.Kept
import QueryChain.Proofs.Range.Split
import QueryChain.Proofs.Statement.SetList
import QueryChain.Proofs.Statement.DerivedTables
import QueryChain.Proofs.Join.Qualifiers
import QueryChain.Proofs.Join.Conditions
import QueryChain.Proofs.Woven.LetterCase
import QueryChain.Proofs.Woven.Literals
import QueryChain.Proofs.Output.Leaves
import QueryChain.Proofs.Output.Rendered
import QueryChain.Proofs.Statement.Bounds
import QueryChain.Proofs.Join.TableTokens
import QueryChain.Proofs.Cut.OuterGroup
import QueryChain.Proofs.Join.Tiling
import QueryChain.Proofs.Naming.NamesRead
