import ProtoSchema.Name
import ProtoSchema.Schema.Scalar

/-! Messages of a schema: fields in declaration order, and the groups of which at most one
member is set. A group may be declared apart from the fields that name it.
-/

namespace ProtoSchema.Schema

/-- What the values of a field are: of a scalar type, or of a type that is referred to by name. -/
inductive FieldType where
  | scalar (kind : Scalar)
  | named (reference : String)
deriving DecidableEq, Repr

/-- A written type: a scalar type if it is a keyword, a reference otherwise. -/
def FieldType.ofName (name : String) : FieldType :=
  match Scalar.ofKeyword? name with
  | some kind => .scalar kind
  | none => .named name

/-- The keyword of a scalar type or the last segment of a reference. -/
def FieldType.simpleName : FieldType → String
  | .scalar kind => kind.keyword
  | .named reference => Name.simple reference

/-- A field of a message. A field is required when it does not track presence. A field with a
key type is a map, and `type` is then the type of its values.
-/
structure Field where
  name : String
  type : FieldType
  repeated : Bool := false
  required : Bool := true
  oneof : Option String := none
  mapKey : Option Scalar := none
  comment : Option String := none
deriving DecidableEq, Repr

namespace Field

def asRepeated (field : Field) : Field :=
  { field with repeated := true }

/-- The field that tracks presence. -/
def asOptional (field : Field) : Field :=
  { field with required := false }

/-- The field as a member of a group; members track presence. -/
def inGroup (field : Field) (group : String) : Field :=
  { field with oneof := some group, required := false }

def withKey (field : Field) (key : Scalar) : Field :=
  { field with mapKey := some key }

def withComment (field : Field) (comment : String) : Field :=
  { field with comment := some comment }

def isScalar (field : Field) : Bool :=
  match field.type with
  | .scalar _ => true
  | .named _ => false

def isMap (field : Field) : Bool :=
  field.mapKey.isSome

end Field

/-- A group of fields of which at most one is set, with its members in declaration order. -/
structure OneOf where
  name : String
  members : List String
  comment : Option String := none
deriving DecidableEq, Repr

/-- A message under its qualified name. An input message becomes an input object in GraphQL. -/
structure Message where
  name : String
  fields : List Field := []
  oneofs : List OneOf := []
  isInput : Bool := false
  comment : Option String := none
deriving DecidableEq, Repr

namespace Message

/-- Adds a member to the group of this name, or starts the group with it. -/
def addMember (group member : String) : List OneOf → List OneOf
  | [] => [{ name := group, members := [member] }]
  | oneof :: rest =>
      if oneof.name = group then { oneof with members := oneof.members ++ [member] } :: rest
      else oneof :: addMember group member rest

/-- Adds a field at the end, and to its group if it names one. -/
def addField (message : Message) (field : Field) : Message :=
  { message with
    fields := message.fields ++ [field]
    oneofs :=
      match field.oneof with
      | some group => addMember group field.name message.oneofs
      | none => message.oneofs }

def asInput (message : Message) : Message :=
  { message with isInput := true }

def withComment (message : Message) (comment : String) : Message :=
  { message with comment := some comment }

def simpleName (message : Message) : String :=
  Name.simple message.name

/-- The first declared group of this name. -/
def oneof? (message : Message) (group : String) : Option OneOf :=
  message.oneofs.find? fun oneof => oneof.name = group

/-- The first field of this name. -/
def field? (message : Message) (name : String) : Option Field :=
  message.fields.find? fun field => field.name = name

/-- The names of a group's members: those it declares, or, where it is not declared, those of
the fields that name it.
-/
def memberNames (message : Message) (group : String) : List String :=
  match message.oneof? group with
  | some oneof => oneof.members
  | none => (message.fields.filter fun field => field.oneof = some group).map Field.name

/-- The members of a group as fields. Fails with the first declared member that is no field. -/
def members (message : Message) (group : String) : Except String (List Field) :=
  match message.oneof? group with
  | some oneof =>
      oneof.members.mapM fun member =>
        match message.field? member with
        | some field => .ok field
        | none => .error member
  | none => .ok (message.fields.filter fun field => field.oneof = some group)

/-- One entry of a message's list of properties. -/
inductive Slot where
  | single (field : Field)
  | group (name : String)
deriving DecidableEq, Repr

/-- The fields in order, with each group in the place of its first member and its later members
left out; `seen` are the groups that already have a place.
-/
def slotsAfter (seen : List String) : List Field → List Slot
  | [] => []
  | field :: rest =>
      match field.oneof with
      | none => .single field :: slotsAfter seen rest
      | some group =>
          if group ∈ seen then slotsAfter seen rest
          else .group group :: slotsAfter (group :: seen) rest

/-- The properties of a message: its fields, with each group collapsed into one. -/
def slots (message : Message) : List Slot :=
  slotsAfter [] message.fields

end Message

end ProtoSchema.Schema
