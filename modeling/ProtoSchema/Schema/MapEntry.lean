import ProtoSchema.Schema.Message

/-! A map field is converted as a message with a key and a value. The message is named after the
field, the key type and the value type within the scope of the enclosing message, so that equal
maps of sibling messages share one entry type.
-/

namespace ProtoSchema.Schema.MapEntry

/-- The part of an entry's name that tells value types apart: a keyword, or a reference with its
dots turned into underscores.
-/
def valueName : FieldType → String
  | .scalar kind => kind.keyword
  | .named reference =>
      .ofList ((Name.dropLeadingDots reference).toList.map fun c => if c = '.' then '_' else c)

/-- The qualified name of the entry message for a map field with the given key type. -/
def name (enclosing : Message) (field : Field) (key : Scalar) : String :=
  Name.qualify (Name.enclosing enclosing.name)
    (Name.pascalCase field.name ++ (if enclosing.isInput then "Input" else "") ++ "Entry_"
      ++ key.keyword ++ "_" ++ valueName field.type)

/-- The entry message for a map field with the given key type: a required key and a required
value, for input where the enclosing message is.
-/
def message (enclosing : Message) (field : Field) (key : Scalar) : Message where
  name := name enclosing field key
  fields := [{ name := "key", type := .scalar key }, { name := "value", type := field.type }]
  isInput := enclosing.isInput

@[simp] theorem name_message (enclosing : Message) (field : Field) (key : Scalar)
    : (message enclosing field key).name = name enclosing field key := by
  rw [message]

def name? (enclosing : Message) (field : Field) : Option String :=
  field.mapKey.map (name enclosing field)

def message? (enclosing : Message) (field : Field) : Option Message :=
  field.mapKey.map (message enclosing field)

theorem mem_fields {enclosing : Message} {field inner : Field} {key : Scalar}
    : inner ∈ (message enclosing field key).fields
      ↔ inner = { name := "key", type := .scalar key }
        ∨ inner = { name := "value", type := field.type } := by
  simp only [message, List.mem_cons, List.not_mem_nil, or_false]

/-- The fields of an entry are neither maps nor members of a group. -/
theorem plain_of_mem {enclosing : Message} {field inner : Field} {key : Scalar}
    (member : inner ∈ (message enclosing field key).fields)
    : inner.mapKey = none ∧ inner.oneof = none := by
  rcases mem_fields.mp member with rfl | rfl <;> exact ⟨rfl, rfl⟩

end ProtoSchema.Schema.MapEntry
