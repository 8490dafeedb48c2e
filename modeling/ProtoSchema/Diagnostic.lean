/-! Errors and warnings. A conversion fails because a type is unknown or because the schema has
a shape that the conversion cannot use; a report adds what was being done when it failed.
-/

namespace ProtoSchema

/-- The ways in which a schema can be malformed. -/
inductive Malformation where
  | rootNotObject
  | nestedNotObject (scope : String)
  | entryNotObject (name : String)
  | fieldsNotObject (message : String)
  | fieldNotObject (message field : String)
  | fieldWithoutType (message field : String)
  | invalidKeyType (message field key : String)
  | groupWithoutMembers (message group : String)
  | memberNotText (message group : String)
  | unknownMember (message group member : String)
  | valuesNotObject (enumeration : String)
  | valueNotInteger32 (enumeration symbol : String)
  | repeatedMap (message field : String)
  | duplicateName (name : String)
  | sharedTypeName (owner rival typeName : String)
  | alreadyRegistered (name : String)
  | notRegisteredMessage (name : String)
  | other (description : String)
deriving DecidableEq, Repr

def Malformation.description : Malformation → String
  | .rootNotObject => "descriptor root must be a JSON object"
  | .nestedNotObject scope => s!"`nested` of `{scope}` is not an object"
  | .entryNotObject name => s!"`{name}` is not an object"
  | .fieldsNotObject message => s!"`fields` of `{message}` is not an object"
  | .fieldNotObject message field => s!"field `{message}.{field}` is not an object"
  | .fieldWithoutType message field => s!"field `{message}.{field}` has no type"
  | .invalidKeyType message field key =>
      s!"map field `{message}.{field}` has invalid key type `{key}`"
  | .groupWithoutMembers message group => s!"oneof `{message}.{group}` has no members"
  | .memberNotText message group => s!"oneof `{message}.{group}` has a non-string member"
  | .unknownMember message group member =>
      s!"oneof `{message}.{group}` names unknown field `{member}`"
  | .valuesNotObject enumeration => s!"`values` of `{enumeration}` is not an object"
  | .valueNotInteger32 enumeration symbol =>
      s!"enum value `{enumeration}.{symbol}` is not a 32-bit integer"
  | .repeatedMap message field => s!"map field `{message}.{field}` cannot be repeated"
  | .duplicateName name => s!"duplicate type name: {name}"
  | .sharedTypeName owner rival typeName =>
      s!"`{owner}` and `{rival}` both map to GraphQL type `{typeName}`"
  | .alreadyRegistered name => s!"type `{name}` is already registered"
  | .notRegisteredMessage name => s!"`{name}` is not a registered message type"
  | .other description => description

/-- The reasons for which a conversion gives no result. -/
inductive ConversionError where
  | typeNotFound (name : String) (help : Option String)
  | malformed (malformation : Malformation)
deriving DecidableEq, Repr

namespace ConversionError

def message : ConversionError → String
  | .typeNotFound name _ => s!"can't find type `{name}` in the schema"
  | .malformed malformation => "malformed schema: " ++ malformation.description

/-- The code under which the error is documented. -/
def code : ConversionError → String
  | .typeNotFound .. => "protoshape::type_not_found"
  | .malformed _ => "protoshape::malformed"

/-- The hint that comes with the error. -/
def help? : ConversionError → Option String
  | .typeNotFound _ help => help
  | .malformed _ => none

end ConversionError

/-- A problem at a place of a source text, given by the byte where it starts and the number of
bytes it covers.
-/
structure SourceDiagnostic where
  sourceName : String
  offset : Nat
  length : Nat
  message : String
  label : Option String
  help : Option String
deriving DecidableEq, Repr

/-- The text shown at the place: the label, or the message where there is none. -/
def SourceDiagnostic.labelText (diagnostic : SourceDiagnostic) : String :=
  diagnostic.label.getD diagnostic.message

/-- A condition that does not stop a conversion. -/
structure Warning where
  message : String
  help : Option String
deriving DecidableEq, Repr

/-- What went wrong, without its context. -/
inductive Problem where
  | conversion (error : ConversionError)
  | invalidSource (diagnostic : SourceDiagnostic)
  | failure (message : String)
deriving DecidableEq, Repr

def Problem.message : Problem → String
  | .conversion error => error.message
  | .invalidSource diagnostic => diagnostic.message
  | .failure message => message

/-- A problem with the activities during which it arose, outermost first. -/
structure Report where
  context : List String
  problem : Problem
deriving DecidableEq, Repr

/-- A report of a conversion error, made during the given activities. -/
def Report.ofConversion (context : List String) (error : ConversionError) : Report :=
  ⟨context, .conversion error⟩

/-- The context and then the problem itself, as texts. -/
def Report.chain (report : Report) : List String :=
  report.context ++ [report.problem.message]

end ProtoSchema
