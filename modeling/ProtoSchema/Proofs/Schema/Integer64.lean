import ProtoSchema.Schema.Message

/-! Fields that hold 64-bit integers. What stands for these in a target is a setting, so such a
field has one type if they are text and another one if they are numbers.
-/

namespace ProtoSchema.Schema

/-- The values of the field are 64-bit integers; a map has entries for values. -/
def Field.HoldsInteger64 (field : Field) : Prop :=
  field.mapKey = none ∧ ∃ kind, field.type = .scalar kind ∧ kind.isInteger64 = true

/-- The types of a field under both settings: `text` and `number` if it holds 64-bit integers, and
otherwise the same type.
-/
inductive Field.Retyped {α : Type} (field : Field) (text number : α) : α → α → Prop
  | integer64 (holds : field.HoldsInteger64) : Retyped field text number text number
  | other (different : ¬ field.HoldsInteger64) (type : α) : Retyped field text number type type

variable {field : Field}

/-- What is made of the type of a field is made of both of its types. -/
theorem Field.Retyped.map {α β : Type} {text number first second : α} (change : α → β)
    (types : field.Retyped text number first second)
    : field.Retyped (change text) (change number) (change first) (change second) := by
  cases types with
  | integer64 holds => exact .integer64 holds
  | other different _ => exact .other different _

theorem Field.not_holdsInteger64_of_map {key : Scalar} (keyed : field.mapKey = some key)
    : ¬ field.HoldsInteger64 := by
  rintro ⟨keyless, -⟩
  cases keyless.symm.trans keyed

theorem Field.not_holdsInteger64_of_named {reference : String}
    (named : field.type = .named reference)
    : ¬ field.HoldsInteger64 := by
  rintro ⟨-, kind, scalar, -⟩
  cases scalar.symm.trans named

theorem Field.holdsInteger64_iff {kind : Scalar} (keyless : field.mapKey = none)
    (scalar : field.type = .scalar kind)
    : field.HoldsInteger64 ↔ kind.isInteger64 = true := by
  simp [Field.HoldsInteger64, keyless, scalar]

/-- A scalar that is no 64-bit integer has the same GraphQL type under both settings. -/
theorem Scalar.graphQL_eq {kind : Scalar} (other : kind.isInteger64 = false)
    : kind.graphQL .text = kind.graphQL .number := by
  simp [Scalar.graphQL, other]

theorem Scalar.typeScript_eq {kind : Scalar} (other : kind.isInteger64 = false)
    : kind.typeScript .text = kind.typeScript .number := by
  simp [Scalar.typeScript, other]

end ProtoSchema.Schema
