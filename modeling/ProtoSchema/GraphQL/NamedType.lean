import ProtoSchema.GraphQL.TypeRef
import ProtoSchema.Name

/-! Named types of GraphQL. The fields of an object may be deferred, so that a type can be
referred to before its fields are known.
-/

namespace ProtoSchema.GraphQL

structure FieldDefinition where
  name : String
  type : TypeRef
  description : Option String := none
deriving DecidableEq, Repr

/-- The fields of an object, once they are known. -/
inductive Fields where
  | deferred
  | resolved (fields : List FieldDefinition)
deriving DecidableEq, Repr

def Fields.known? : Fields → Option (List FieldDefinition)
  | .deferred => none
  | .resolved fields => some fields

structure ObjectType where
  name : String
  description : Option String := none
  fields : Fields := .deferred
deriving DecidableEq, Repr

structure EnumValue where
  name : String
  number : Int
  description : Option String := none
deriving DecidableEq, Repr

structure EnumType where
  name : String
  description : Option String := none
  values : List EnumValue := []
deriving DecidableEq, Repr

structure UnionType where
  name : String
  description : Option String := none
  members : List TypeRef := []
deriving DecidableEq, Repr

inductive NamedType where
  | object (type : ObjectType)
  | inputObject (type : ObjectType)
  | enumeration (type : EnumType)
  | union (type : UnionType)
deriving DecidableEq, Repr

namespace NamedType

def name : NamedType → String
  | .object type => type.name
  | .inputObject type => type.name
  | .enumeration type => type.name
  | .union type => type.name

/-- The object, for output or for input, that the type is. -/
def object? : NamedType → Option ObjectType
  | .object type => some type
  | .inputObject type => some type
  | .enumeration _ => none
  | .union _ => none

def fields? (type : NamedType) : Option (List FieldDefinition) :=
  type.object?.bind fun object => object.fields.known?

/-- An object with these fields; other types stay as they are. -/
def withFields (fields : List FieldDefinition) : NamedType → NamedType
  | .object type => .object { type with fields := .resolved fields }
  | .inputObject type => .inputObject { type with fields := .resolved fields }
  | .enumeration type => .enumeration type
  | .union type => .union type

end NamedType

/-- The characters that may stand in a name. -/
def isNameChar (c : Char) : Bool :=
  c = '_' || ('0' ≤ c && c ≤ '9') || ('A' ≤ c && c ≤ 'Z') || ('a' ≤ c && c ≤ 'z')

/-- A name must not begin with a digit; an underscore before it helps. -/
def guardDigit : List Char → List Char
  | [] => []
  | c :: rest => if '0' ≤ c ∧ c ≤ '9' then '_' :: c :: rest else c :: rest

/-- The name in GraphQL of the type with a qualified name: what may not stand in a name becomes
an underscore, dots included.
-/
def typeName (qualified : String) : String :=
  .ofList (guardDigit ((Name.dropLeadingDots qualified).toList.map fun c =>
    if isNameChar c then c else '_'))

end ProtoSchema.GraphQL
