import QueryChain.Config.ReservedWords

namespace QueryChain

inductive EmissionMode where
  | connection
  | entityManager
  deriving DecidableEq, Repr

namespace EmissionMode

def name : EmissionMode → Text
  | .connection => "connection"
  | .entityManager => "entity_manager"

def all : List EmissionMode := [.connection, .entityManager]

def ofName? (t : Text) : Option EmissionMode := all.find? (·.name == t)

def builderRoot : EmissionMode → Text
  | .connection => "$connection->createQueryBuilder()"
  | .entityManager => "$entityManager->getConnection()->createQueryBuilder()"

end EmissionMode

structure Config where
  reservedWords : ReservedWords := default
  emissionMode : EmissionMode := .connection
  deriving DecidableEq

instance : Inhabited Config := ⟨{}⟩

inductive ConfigError where
  | unreadable
  | malformedJson
  | malformedYaml
  | noReservedWords
  | unknownFormat (format : Text)
  deriving DecidableEq, Repr

/-- Faults of a library's reader or of the file system have no text of their own. -/
def ConfigError.message? : ConfigError → Option Text
  | .noReservedWords => some "Reserved word set must not be empty"
  | .unknownFormat format => some ("Unknown configuration format: " ++ format)
  | _ => none

end QueryChain
