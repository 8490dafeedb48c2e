import ProtoSchema.Diagnostic
import ProtoSchema.Registry
import ProtoSchema.Schema.Catalog
import ProtoSchema.Schema.MapEntry
import ProtoSchema.Schema.Suggestion
import ProtoSchema.TypeScript.Declaration

/-! The conversion to TypeScript declares the listed types in their order, and the entries of a
map before the message that has it. A type that is referred to but not listed is not declared;
there is one warning for each.
-/

namespace ProtoSchema.TypeScript

open Schema

/-- The declarations so far under the qualified names of their types, and the names that were
warned about, both in order.
-/
structure Progress where
  registry : Registry String := .empty
  warned : List String := []
deriving DecidableEq

/-- A computation that advances the conversion and may fail. -/
abbrev Pass :=
  ExceptT ConversionError (StateM Progress)

def register (qualified declaration : String) : Pass Unit := do
  match (← get).registry.register qualified declaration with
  | .ok registry => modify fun progress => { progress with registry }
  | .error failure => throw (.malformed (.alreadyRegistered failure.name))

/-- Remembers a type that is not declared. -/
def Progress.warn (progress : Progress) (qualified : String) : Progress :=
  if progress.warned.contains qualified then progress
  else { progress with warned := progress.warned ++ [qualified] }

/-- The identifier of the type that a reference denotes, which is not declared unless it is listed.
-/
def referenceName (scope : Scope) (reference : String) : Pass String := do
  match scope.find? reference with
  | none =>
      throw (.typeNotFound (Name.dropLeadingDots reference)
        (Suggestion.hint? reference scope.knownNames))
  | some node =>
      if scope.listed.any fun listed => listed.name = node.name then pure node.simpleName
      else
        modify fun progress => progress.warn node.name
        pure node.simpleName

/-- The type of a single value. -/
def baseType (int64 : Integer64) (scope : Scope) : FieldType → Pass String
  | .scalar kind => pure (kind.typeScript int64).name
  | .named reference => referenceName scope reference

/-- The property for a field that is no map. -/
def plainProperty (style : CommentStyle) (int64 : Integer64) (scope : Scope) (field : Field)
    : Pass String := do
  pure (printProperty style field (arrayType field (← baseType int64 scope field.type)))

/-- Declares the entries of a map unless they are declared already. -/
def declareEntry (style : CommentStyle) (int64 : Integer64) (scope : Scope) (entry : Message)
    : Pass Unit := do
  if (← get).registry.contains entry.name then pure ()
  else
    let properties ← entry.fields.mapM (plainProperty style int64 scope)
    register entry.name (printInterface style entry properties)

/-- The type of a field. The entries of a map are declared first, and are what the map has for a
type.
-/
def fieldType (style : CommentStyle) (int64 : Integer64) (scope : Scope) (message : Message)
    (field : Field)
    : Pass String :=
  match field.mapKey with
  | some key => do
      let entry := MapEntry.message message field key
      declareEntry style int64 scope entry
      pure (arrayType field entry.simpleName)
  | none => do
      pure (arrayType field (← baseType int64 scope field.type))

/-- The property for a field or for a group. -/
def slotProperty (style : CommentStyle) (int64 : Integer64) (scope : Scope) (message : Message)
    : Message.Slot → Pass String
  | .single field => do
      pure (printProperty style field (← fieldType style int64 scope message field))
  | .group group => do
      match message.members group with
      | .error member => throw (.malformed (.unknownMember message.name group member))
      | .ok members =>
          let types ← members.mapM (fieldType style int64 scope message)
          pure (printGroup style message group types)

def declaration (style : CommentStyle) (int64 : Integer64) (scope : Scope) : Node → Pass String
  | .enumeration content => pure (printEnumeration style content)
  | .message content => do
      let properties ← content.slots.mapM (slotProperty style int64 scope content)
      pure (printInterface style content properties)

/-- Declares a type unless it is declared already. -/
def declare (style : CommentStyle) (int64 : Integer64) (scope : Scope) (node : Node)
    : Pass Unit := do
  if (← get).registry.contains node.name then pure ()
  else register node.name (← declaration style int64 scope node)

def build (style : CommentStyle) (int64 : Integer64) (scope : Scope) : Pass Unit :=
  scope.listed.forM (declare style int64 scope)

/-- The warning about a type that is not declared. -/
def undeclared (qualified : String) : Warning where
  message := s!"type `{qualified}` is referenced but not declared in the output"
  help := some "include it in the converted types to emit its declaration"

/-- The source text of the declarations so far. -/
def Progress.source (progress : Progress) : String :=
  printSource progress.registry.values

structure Output where
  source : String
  warnings : List Warning
deriving DecidableEq, Repr

/-- The declarations so far, with the warnings about them. -/
def Progress.output (progress : Progress) : Output where
  source := progress.source
  warnings := progress.warned.map undeclared

def convert (style : CommentStyle) (int64 : Integer64) (scope : Scope)
    : Except ConversionError Output :=
  match (build style int64 scope).run.run {} with
  | (.ok _, progress) => .ok progress.output
  | (.error error, _) => .error error

end ProtoSchema.TypeScript
