import ProtoSchema.Name
import ProtoSchema.OrderedMap

/-! Enumerations of a schema: symbols with their numbers and comments, in declaration order. -/

namespace ProtoSchema.Schema

/-- An enumeration under its qualified name. -/
structure Enumeration where
  name : String
  values : OrderedMap Int := .empty
  comments : OrderedMap String := .empty
  comment : Option String := none
deriving DecidableEq

namespace Enumeration

/-- Gives a symbol a number; a symbol that has one keeps its place. -/
def withValue (enumeration : Enumeration) (symbol : String) (number : Int) : Enumeration :=
  { enumeration with values := enumeration.values.insert symbol number }

def withSymbolComment (enumeration : Enumeration) (symbol comment : String) : Enumeration :=
  { enumeration with comments := enumeration.comments.insert symbol comment }

def simpleName (enumeration : Enumeration) : String :=
  Name.simple enumeration.name

end Enumeration

end ProtoSchema.Schema
