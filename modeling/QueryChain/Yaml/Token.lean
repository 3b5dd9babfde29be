import QueryChain.Text.Basic

namespace QueryChain.Yaml

/-- The marks of a stream of documents. Where a collection is shown by indentation, its start and
    end are tokens as well. -/
inductive Token where
  | version (major minor : Nat)
  | tagShorthand (handle start : Text)
  | documentStart
  | documentEnd
  | streamEnd
  | blockSequenceStart
  | blockMappingStart
  | blockEnd
  | flowSequenceStart
  | flowSequenceEnd
  | flowMappingStart
  | flowMappingEnd
  | blockEntry
  | flowEntry
  | key
  | value
  | anchor (name : Text)
  | repeated (name : Text)
  | tag (handle suffix : Text)
  | scalar (isPlain : Bool) (text : Text)
  deriving DecidableEq, Repr

end QueryChain.Yaml
