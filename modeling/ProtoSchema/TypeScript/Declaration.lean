import ProtoSchema.Schema.Enumeration
import ProtoSchema.Schema.Message
import ProtoSchema.TypeScript.Comment

/-! The text of TypeScript declarations: an interface for a message and an enumeration whose
values are their own names, both under the simple name of the type.
-/

namespace ProtoSchema.TypeScript

open Schema

/-- A body in braces, its lines indented. -/
def printBody (lines : List String) : String :=
  if lines.isEmpty then " \x7b\x7d"
  else " \x7b\n" ++ String.join (lines.map fun line => "  " ++ line ++ "\n") ++ "\x7d"

/-- An array of values where the field is repeated. -/
def arrayType (field : Field) (base : String) : String :=
  if field.repeated then base ++ "[]" else base

/-- The mark of a property that may be missing: one that tracks presence, or a list, which is left
out when it is empty.
-/
def optionalMark (field : Field) : String :=
  if !field.required || field.repeated then "?" else ""

/-- The property for a field whose values have the given type. -/
def printProperty (style : CommentStyle) (field : Field) (type : String) : String :=
  style field.comment .inline ++ field.name ++ optionalMark field ++ ": " ++ type

/-- The property for a group whose members have the given types; equal types appear once. -/
def printGroup (style : CommentStyle) (message : Message) (group : String) (types : List String)
    : String :=
  style ((message.oneof? group).bind OneOf.comment) .inline ++ group ++ ": "
    ++ " | ".intercalate types.eraseDups

/-- The interface for a message with the given properties. -/
def printInterface (style : CommentStyle) (message : Message) (properties : List String)
    : String :=
  style message.comment .block ++ "export interface " ++ message.simpleName
    ++ printBody (properties.map (· ++ ";"))

def printSymbol (style : CommentStyle) (enumeration : Enumeration) (symbol : String) : String :=
  style (enumeration.comments.get? symbol) .inline ++ symbol ++ " = \"" ++ symbol ++ "\","

def printEnumeration (style : CommentStyle) (enumeration : Enumeration) : String :=
  style enumeration.comment .block ++ "export enum " ++ enumeration.simpleName
    ++ printBody (enumeration.values.keys.map (printSymbol style enumeration))

/-- Declarations separated by blank lines. -/
def printSource (declarations : List String) : String :=
  if declarations.isEmpty then "" else "\n\n".intercalate declarations ++ "\n"

end ProtoSchema.TypeScript
