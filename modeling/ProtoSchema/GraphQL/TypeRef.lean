/-! References to GraphQL types, with the lists and the exclusions of null around a named type. -/

namespace ProtoSchema.GraphQL

inductive TypeRef where
  | named (name : String)
  | list (item : TypeRef)
  | nonNull (item : TypeRef)
deriving DecidableEq, Repr

namespace TypeRef

def asList (type : TypeRef) : TypeRef :=
  .list type

/-- The type without null; a type that excludes null already stays as it is. -/
def asNonNull : TypeRef → TypeRef
  | .nonNull item => .nonNull item
  | type => .nonNull type

/-- The name of the innermost type. -/
def baseName : TypeRef → String
  | .named name => name
  | .list item => item.baseName
  | .nonNull item => item.baseName

def text : TypeRef → String
  | .named name => name
  | .list item => "[" ++ item.text ++ "]"
  | .nonNull item => item.text ++ "!"

end TypeRef

end ProtoSchema.GraphQL
