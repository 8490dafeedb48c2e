import ProtoSchema.Diagnostic
import ProtoSchema.Json.Value
import ProtoSchema.Schema.Enumeration
import ProtoSchema.Schema.Message
import ProtoSchema.Text.Blank

/-! Declarations of a descriptor document: the messages and enumerations of its nested namespaces,
with references as they are written. Services and extensions are passed over.
-/

namespace ProtoSchema.Descriptor

open Schema

/-- The rule that a field is declared with. -/
inductive Rule where
  | unspecified
  | optional
  | required
  | repeated
deriving DecidableEq, Repr

/-- The rule that a keyword names; other words leave it unspecified. -/
def Rule.ofKeyword : String → Rule
  | "optional" => .optional
  | "required" => .required
  | "repeated" => .repeated
  | _ => .unspecified

/-- A field as it is declared. -/
structure FieldDeclaration where
  name : String
  typeName : String
  rule : Rule := .unspecified
  mapKey : Option Scalar := none
  tracksPresence : Bool := false
  oneof : Option String := none
  comment : Option String := none
deriving DecidableEq, Repr

/-- A message as it is declared, under its qualified name. -/
structure MessageDeclaration where
  name : String
  fields : List FieldDeclaration
  oneofs : List OneOf
  comment : Option String
deriving DecidableEq, Repr

inductive Declaration where
  | message (content : MessageDeclaration)
  | enumeration (content : Enumeration)
deriving DecidableEq

def Declaration.name : Declaration → String
  | .message content => content.name
  | .enumeration content => content.name

/-- The comment of an object, unless it is blank. -/
def commentOf (members : Entries Json) : Option String :=
  ((members.get? "comment").bind Json.text?).filter fun comment => !Text.isBlankText comment

/-- The key type of a map field, if one is written as a text. -/
def keyTypeOf (message field : String) (members : Entries Json)
    : Except Malformation (Option Scalar) :=
  match (members.get? "keyType").bind Json.text? with
  | none => .ok none
  | some keyword =>
      match (Scalar.ofKeyword? keyword).filter Scalar.isMapKey with
      | some key => .ok (some key)
      | none => .error (.invalidKeyType message field keyword)

def fieldOf (message name : String) (value : Json) : Except Malformation FieldDeclaration :=
  match value.members? with
  | none => .error (.fieldNotObject message name)
  | some members =>
      match (members.get? "type").bind Json.text? with
      | none => .error (.fieldWithoutType message name)
      | some typeName => do
          let mapKey ← keyTypeOf message name members
          .ok {
            name, typeName, mapKey
            rule := (((members.get? "rule").bind Json.text?).map Rule.ofKeyword).getD .unspecified
            tracksPresence :=
              (((members.get? "options").bind (Json.member? "proto3_optional")).bind
                Json.bool?).getD false
            comment := commentOf members }

def groupMembersOf (message group : String) (value : Json)
    : Except Malformation (List String) :=
  match (value.member? "oneof").bind Json.items? with
  | none => .error (.groupWithoutMembers message group)
  | some items =>
      items.mapM fun item =>
        match item.text? with
        | some member => .ok member
        | none => .error (.memberNotText message group)

/-- A group that only marks its single member as optional is not a group of the message: its name
starts with an underscore and its member tracks presence.
-/
def isPresenceMark (fields : List FieldDeclaration) (group : String) (members : List String)
    : Bool :=
  group.toList.head? = some '_'
    && match members with
      | [member] => fields.any fun field => field.name = member && field.tracksPresence
      | _ => false

/-- Makes a field a member of a group. -/
def joinGroup (message group : String) (fields : List FieldDeclaration) (member : String)
    : Except Malformation (List FieldDeclaration) :=
  if fields.any fun field => field.name = member then
    .ok (fields.map fun field =>
      if field.name = member then { field with oneof := some group } else field)
  else .error (.unknownMember message group member)

/-- Reads the groups of a message one after the other; a member of several groups stays with the
last one.
-/
def groupsOf (message : String) (fields : List FieldDeclaration)
    : Entries Json → Except Malformation (List FieldDeclaration × List OneOf)
  | [] => .ok (fields, [])
  | (group, value) :: rest => do
      let members ← groupMembersOf message group value
      if isPresenceMark fields group members then groupsOf message fields rest
      else
        let fields ← members.foldlM (joinGroup message group) fields
        let (fields, oneofs) ← groupsOf message fields rest
        .ok (fields,
          { name := group, members, comment := value.members?.bind commentOf } :: oneofs)

/-- The declaration of a message from the members of its object. -/
def messageOf (name : String) (members : Entries Json)
    : Except Malformation MessageDeclaration :=
  match (members.get? "fields").bind Json.members? with
  | none => .error (.fieldsNotObject name)
  | some entries => do
      let fields ← entries.mapM fun entry => fieldOf name entry.1 entry.2
      let groups := ((members.get? "oneofs").bind Json.members?).getD []
      let (fields, oneofs) ← groupsOf name fields groups
      .ok { name, fields, oneofs, comment := commentOf members }

def addValue (enumeration : Enumeration) (entry : String × Json)
    : Except Malformation Enumeration :=
  match entry.2.integer32? with
  | some number => .ok (enumeration.withValue entry.1 number)
  | none => .error (.valueNotInteger32 enumeration.name entry.1)

/-- Adds the comment of a symbol, unless it is blank. -/
def addSymbolComment (enumeration : Enumeration) (entry : String × Json) : Enumeration :=
  match entry.2.text?.filter fun comment => !Text.isBlankText comment with
  | some comment => enumeration.withSymbolComment entry.1 comment
  | none => enumeration

/-- The declaration of an enumeration from the members of its object. -/
def enumerationOf (name : String) (members : Entries Json) : Except Malformation Enumeration :=
  match (members.get? "values").bind Json.members? with
  | none => .error (.valuesNotObject name)
  | some values => do
      let enumeration ← values.foldlM addValue { name, comment := commentOf members }
      let comments := ((members.get? "comments").bind Json.members?).getD []
      .ok (comments.foldl addSymbolComment enumeration)

mutual

/-- The declarations nested in an object of the given scope. -/
def nestedDeclarations (scope : String) : List (String × Json)
    → Except Malformation (List Declaration)
  | [] => .ok []
  | (key, value) :: rest =>
      if key = "nested" then scopeDeclarations scope value else nestedDeclarations scope rest

/-- The declarations of a scope, from the value that lists its entries. -/
def scopeDeclarations (scope : String) : Json → Except Malformation (List Declaration)
  | .object entries => entryDeclarations scope entries
  | _ => .error (.nestedNotObject scope)

/-- The declarations of the entries of a scope: a message and then what is nested in it, an
enumeration, or what is nested in a namespace.
-/
def entryDeclarations (scope : String) : List (String × Json)
    → Except Malformation (List Declaration)
  | [] => .ok []
  | (name, value) :: rest => do
      let declared ← typeDeclarations (Name.qualify scope name) value
      let others ← entryDeclarations scope rest
      .ok (declared ++ others)

/-- The declarations of one entry under its qualified name. -/
def typeDeclarations (name : String) : Json → Except Malformation (List Declaration)
  | .object members =>
      if (Entries.get? "fields" members).isSome then do
        let message ← messageOf name members
        let nested ← nestedDeclarations name members
        .ok (.message message :: nested)
      else if (Entries.get? "values" members).isSome then do
        let enumeration ← enumerationOf name members
        .ok [.enumeration enumeration]
      else nestedDeclarations name members
  | _ => .error (.entryNotObject name)

end

/-- The declarations of a document, in pre-order. -/
def declarations (document : Json) : Except Malformation (List Declaration) :=
  match document with
  | .object members => nestedDeclarations "" members
  | _ => .error .rootNotObject

end ProtoSchema.Descriptor
