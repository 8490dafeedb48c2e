import ProtoSchema.OrderedMap

/-! JSON values. The members of an object stand in the order of their first occurrence. -/

namespace ProtoSchema

/-- A JSON value. A number is an integer if it is written without a fraction and an exponent and
fits in 64 bits; other numbers have a significand and a power of ten.
-/
inductive Json where
  | null
  | bool (value : Bool)
  | integer (value : Int)
  | decimal (negative : Bool) (significand : Nat) (exponent : Int)
  | text (value : String)
  | array (items : List Json)
  | object (members : List (String × Json))
deriving Inhabited

namespace Json

def members? : Json → Option (Entries Json)
  | .object members => some members
  | _ => none

def items? : Json → Option (List Json)
  | .array items => some items
  | _ => none

def text? : Json → Option String
  | .text value => some value
  | _ => none

def bool? : Json → Option Bool
  | .bool value => some value
  | _ => none

/-- The value of an integer of at most 32 bits, sign included. -/
def integer32? : Json → Option Int
  | .integer value => if -0x80000000 ≤ value ∧ value ≤ 0x7FFFFFFF then some value else none
  | _ => none

/-- The member of this name, if the value is an object that has one. -/
def member? (key : String) (value : Json) : Option Json :=
  value.members?.bind fun members => members.get? key

end Json

end ProtoSchema
