import ProtoSchema.GraphQL.NamedType
import ProtoSchema.Text.Blank
import ProtoSchema.Text.Lines

/-! Type definitions as they are written in the schema definition language: two spaces of
indentation, descriptions as block strings, and no braces around an empty body. A type whose
fields are still deferred is written as if it had none.
-/

namespace ProtoSchema.GraphQL

/-- Three quotes in a row would close a block string; a backslash before them prevents it. -/
def escapeQuotes : List Char → List Char
  | '"' :: '"' :: '"' :: rest => '\\' :: '"' :: '"' :: '"' :: escapeQuotes rest
  | c :: rest => c :: escapeQuotes rest
  | [] => []

/-- A text fits on the line of its quotes unless it has several lines or would run into the
closing quotes.
-/
def fitsOneLine (text : List Char) : Bool :=
  !text.contains '\n' && text.getLast? ≠ some '"' && text.getLast? ≠ some '\\'

def blockQuotes : List Char :=
  ['"', '"', '"']

/-- A line of a block string; an empty one is not indented. -/
def blockLine (indent line : List Char) : List Char :=
  if line.isEmpty then ['\n'] else indent ++ line ++ ['\n']

/-- A text that is not blank, as an indented block string. -/
def blockString (indent text : List Char) : List Char :=
  let escaped := escapeQuotes text
  if fitsOneLine escaped then indent ++ blockQuotes ++ escaped ++ blockQuotes ++ ['\n']
  else
    indent ++ blockQuotes ++ ['\n']
      ++ (Text.lines escaped).flatMap (blockLine indent)
      ++ indent ++ blockQuotes ++ ['\n']

/-- A description on lines of its own; nothing if it is blank. -/
def describe (indent text : List Char) : List Char :=
  let trimmed := Text.trim text
  if trimmed.isEmpty then [] else blockString indent trimmed

/-- An optional description before an indented line. -/
def printDescription (indent : String) (description : Option String) : String :=
  match description with
  | some text => .ofList (describe indent.toList text.toList)
  | none => ""

/-- A body in braces; nothing for a body without lines. -/
def printBody (lines : List String) : String :=
  if lines.isEmpty then "" else " \x7b\n" ++ String.join lines ++ "\x7d"

def FieldDefinition.print (field : FieldDefinition) : String :=
  printDescription "  " field.description ++ "  " ++ field.name ++ ": " ++ field.type.text ++ "\n"

def EnumValue.print (value : EnumValue) : String :=
  printDescription "  " value.description ++ "  " ++ value.name ++ "\n"

/-- An object under the keyword of its kind. -/
def ObjectType.print (keyword : String) (type : ObjectType) : String :=
  printDescription "" type.description ++ keyword ++ " " ++ type.name
    ++ printBody ((type.fields.known?.getD []).map FieldDefinition.print)

/-- An enumeration, its values by name. -/
def EnumType.print (type : EnumType) : String :=
  printDescription "" type.description ++ "enum " ++ type.name
    ++ printBody (type.values.map EnumValue.print)

/-- A union, its members with their lists and exclusions of null. -/
def UnionType.print (type : UnionType) : String :=
  printDescription "" type.description ++ "union " ++ type.name
    ++ if type.members.isEmpty then ""
      else " = " ++ " | ".intercalate (type.members.map TypeRef.text)

def NamedType.print : NamedType → String
  | .object type => type.print "type"
  | .inputObject type => type.print "input"
  | .enumeration type => type.print
  | .union type => type.print

end ProtoSchema.GraphQL
