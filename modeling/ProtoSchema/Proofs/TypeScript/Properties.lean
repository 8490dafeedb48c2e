import ProtoSchema.Proofs.TypeScript.Sources

/-! The properties of an interface as data: what is known of each before it is written. The text of
a message is that of its properties, one for each field or group that has a place.
-/

namespace ProtoSchema.TypeScript

open Schema
open Execution

/-- A property of an interface. -/
structure Property where
  comment : Option String
  name : String
  optional : Bool
  type : String
deriving DecidableEq, Repr

def Property.print (style : CommentStyle) (property : Property) : String :=
  style property.comment .inline ++ property.name ++ (if property.optional then "?" else "") ++ ": "
    ++ property.type

section Properties

variable (int64 : Integer64) (scope : Scope) (message : Message)

/-- The type of a field before arrays: that of its values, or that of the entries of a map. -/
def fieldBase (field : Field) : String :=
  match field.mapKey with
  | some key => (MapEntry.message message field key).simpleName
  | none => baseText int64 scope field.type

/-- The types that a group may have, each once. -/
def alternatives (group : String) : List String :=
  ((groupFields message group).map (fieldText int64 scope message)).eraseDups

/-- The property for a field or for a group. -/
def propertyOf : Message.Slot → Property
  | .single field => {
      comment := field.comment
      name := field.name
      optional := !field.required || field.repeated
      type := fieldText int64 scope message field }
  | .group group => {
      comment := (message.oneof? group).bind OneOf.comment
      name := group
      optional := false
      type := " | ".intercalate (alternatives int64 scope message group) }

end Properties

variable {style : CommentStyle} {int64 : Integer64} {scope : Scope} {message : Message}
  {progress last : Progress}

theorem fieldText_eq_arrayType (field : Field)
    : fieldText int64 scope message field
      = arrayType field (fieldBase int64 scope message field) := by
  unfold fieldText fieldBase
  cases field.mapKey <;> rfl

@[simp] theorem name_propertyOf (slot : Message.Slot)
    : (propertyOf int64 scope message slot).name = slot.title := by
  cases slot <;> rfl

/-- A property shows fields of the message: one by its own type, or those that the member names of a
group stand for, by the alternatives that the group has.
-/
inductive Shows (int64 : Integer64) (scope : Scope) (message : Message)
    : Message.Slot → Property → List Field → Prop
  | single {field : Field} {property : Property} (titled : property.name = field.name)
    (typed : property.type = fieldText int64 scope message field)
    : Shows int64 scope message (.single field) property [field]
  | group {group : String} {property : Property} (titled : property.name = group)
    (typed
      : property.type
        = " | ".intercalate
            ((message.namedFields group).map (fieldText int64 scope message)).eraseDups)
    : Shows int64 scope message (.group group) property (message.namedFields group)

theorem Shows.fields_eq {slot : Message.Slot} {property : Property} {fields : List Field}
    (shows_ : Shows int64 scope message slot property fields)
    : fields = message.slotFields slot := by
  cases shows_ <;> rfl

/-- The property for a place shows the fields of the place, if a group consists of the fields that its
member names stand for; by cases on the place.
-/
theorem shows_propertyOf {slot : Message.Slot}
    (groups : ∀ group, slot = .group group → groupFields message group = message.namedFields group)
    : Shows int64 scope message slot (propertyOf int64 scope message slot)
        (message.slotFields slot) := by
  cases slot with
  | single field => exact .single rfl rfl
  | group group =>
      refine .group rfl ?_
      rw [← groups group rfl]
      rfl

/-- What is written in a place is the property for it, by cases on whether it is a group. -/
theorem slotText_eq_print (slot : Message.Slot)
    : slotText style int64 scope message slot
      = (propertyOf int64 scope message slot).print style := by
  cases slot with
  | single field => rfl
  | group group => simp [slotText, propertyOf, printGroup, Property.print, alternatives]

/-- A message that is declared has the properties for its fields and groups, and the members of its
groups are fields.
-/
theorem properties_of_declaration {text : String}
    (declared
      : exec (declaration style int64 scope (.message message)) progress = (.ok text, last))
    : text
        = printInterface style message
            ((message.slots.map (propertyOf int64 scope message)).map (Property.print style))
      ∧ ∀ group, message.HasGroup group → ∃ members, message.members group = .ok members := by
  obtain ⟨accepted, rfl, _⟩ := exec_declaration_ok.mp declared
  refine ⟨?_, (acceptsContent_message.mp accepted).1⟩
  rw [nodeText, messageText, List.map_map]
  exact congrArg _ (List.map_congr_left fun slot _ => slotText_eq_print slot)

end ProtoSchema.TypeScript
