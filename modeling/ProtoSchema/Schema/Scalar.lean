/-! The scalar types of protobuf and the built-in types that stand for them in GraphQL and in
TypeScript. A target number cannot hold every 64-bit integer, so these are text unless numbers
are asked for.
-/

namespace ProtoSchema.Schema

/-- The scalar types of protobuf. -/
inductive Scalar where
  | double | float
  | int32 | int64 | uint32 | uint64 | sint32 | sint64
  | fixed32 | fixed64 | sfixed32 | sfixed64
  | bool | string | bytes
deriving DecidableEq, Repr

namespace Scalar

def all : List Scalar :=
  [.double, .float, .int32, .int64, .uint32, .uint64, .sint32, .sint64,
    .fixed32, .fixed64, .sfixed32, .sfixed64, .bool, .string, .bytes]

/-- The keyword that names a scalar type. -/
def keyword : Scalar → String
  | .double => "double"
  | .float => "float"
  | .int32 => "int32"
  | .int64 => "int64"
  | .uint32 => "uint32"
  | .uint64 => "uint64"
  | .sint32 => "sint32"
  | .sint64 => "sint64"
  | .fixed32 => "fixed32"
  | .fixed64 => "fixed64"
  | .sfixed32 => "sfixed32"
  | .sfixed64 => "sfixed64"
  | .bool => "bool"
  | .string => "string"
  | .bytes => "bytes"

/-- The scalar type that a keyword names. -/
def ofKeyword? (name : String) : Option Scalar :=
  all.find? fun scalar => scalar.keyword = name

def isInteger64 : Scalar → Bool
  | .int64 | .uint64 | .sint64 | .fixed64 | .sfixed64 => true
  | _ => false

/-- The types that may be the key of a map: all but the floating-point types and bytes. -/
def isMapKey : Scalar → Bool
  | .double | .float | .bytes => false
  | _ => true

end Scalar

/-- What stands for a 64-bit integer in a target language. -/
inductive Integer64 where
  | text
  | number
deriving DecidableEq, Repr, Inhabited

inductive GraphQLScalar where
  | int | float | string | boolean
deriving DecidableEq, Repr

def GraphQLScalar.name : GraphQLScalar → String
  | .int => "Int"
  | .float => "Float"
  | .string => "String"
  | .boolean => "Boolean"

inductive Primitive where
  | number | string | boolean
deriving DecidableEq, Repr

def Primitive.name : Primitive → String
  | .number => "number"
  | .string => "string"
  | .boolean => "boolean"

/-- The GraphQL type of a scalar; an `Int` has 32 bits, so a 64-bit number is a `Float`. -/
def Scalar.graphQL (int64 : Integer64) (scalar : Scalar) : GraphQLScalar :=
  if scalar.isInteger64 then
    match int64 with
    | .text => .string
    | .number => .float
  else
    match scalar with
    | .double | .float => .float
    | .bool => .boolean
    | .string | .bytes => .string
    | _ => .int

def Scalar.typeScript (int64 : Integer64) (scalar : Scalar) : Primitive :=
  if scalar.isInteger64 then
    match int64 with
    | .text => .string
    | .number => .number
  else
    match scalar with
    | .bool => .boolean
    | .string | .bytes => .string
    | _ => .number

/-- Finding a keyword gives back the scalar type that it names, by cases. -/
theorem Scalar.ofKeyword?_keyword (scalar : Scalar) : ofKeyword? scalar.keyword = some scalar := by
  cases scalar <;> decide

end ProtoSchema.Schema
