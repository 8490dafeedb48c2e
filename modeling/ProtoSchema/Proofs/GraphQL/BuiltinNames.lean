import ProtoSchema.Proofs.GraphQL.Closure
import ProtoSchema.Proofs.GraphQL.Success
import ProtoSchema.Proofs.Schema.EntryNames

/-! Types with the names of built-in ones. The names of built-in types are never claimed, so that
nothing keeps a type of the schema from having one of them; fields that hold scalars then refer to
that type. The name of a type is that of a built-in one exactly if its qualified name is, apart
from leading dots.
-/

namespace ProtoSchema

/-- What is no dot stays when leading dots are dropped. -/
theorem Name.mem_dropLeadingDots {name : String} {c : Char} (other : c ≠ '.')
    (member : c ∈ name.toList)
    : c ∈ (dropLeadingDots name).toList := by
  rw [← @List.takeWhile_append_dropWhile _ (fun c => decide (c = '.')) name.toList] at member
  rw [dropLeadingDots, String.toList_ofList]
  rcases List.mem_append.mp member with dots | rest
  · have dot := List.mem_takeWhile_imp dots
    exact absurd (of_decide_eq_true dot) other
  · exact rest

/-- The values of the field are scalars; a map has entries for values. -/
def Schema.Field.HoldsScalar (field : Schema.Field) : Prop :=
  field.mapKey = none ∧ ∃ kind, field.type = .scalar kind

namespace GraphQL

open Schema
open Execution

variable {int64 : Integer64} {scope : Scope} {progress : Progress} {message : Message}

-----------------------------------------------------------------------------------------
-- Names of types that are those of built-in ones
-----------------------------------------------------------------------------------------

/-- A guard against a digit is an underscore. -/
theorem guardDigit_eq_self {chars : List Char} (plain : '_' ∉ guardDigit chars)
    : guardDigit chars = chars := by
  cases chars with
  | nil => rfl
  | cons first rest =>
      rw [guardDigit] at plain ⊢
      split
      · next digit =>
          rw [if_pos digit] at plain
          exact absurd List.mem_cons_self plain
      · rfl

/-- Characters are replaced by underscores only. -/
theorem map_isNameChar_eq_self {chars : List Char}
    (plain : '_' ∉ chars.map fun c => if isNameChar c then c else '_')
    : (chars.map fun c => if isNameChar c then c else '_') = chars := by
  refine (List.map_congr_left fun c member => ?_).trans (List.map_id chars)
  split
  · rfl
  · next replaced =>
      refine absurd ?_ plain
      exact List.mem_map.mpr ⟨c, member, if_neg replaced⟩

/-- Without underscores, the name of a type is the qualified name without its leading dots. -/
theorem typeName_eq_dropLeadingDots {qualified : String}
    (plain : '_' ∉ (typeName qualified).toList)
    : typeName qualified = Name.dropLeadingDots qualified := by
  rw [typeName, String.toList_ofList] at plain
  have guarded := guardDigit_eq_self plain
  rw [guarded] at plain
  rw [typeName, guarded, map_isNameChar_eq_self plain, String.ofList_toList]

theorem underscore_notMem_builtinNames {name : String} (builtin : name ∈ builtinNames)
    : '_' ∉ name.toList := by
  have all : ∀ name ∈ builtinNames, '_' ∉ name.toList := by decide
  exact all name builtin

theorem dot_notMem_builtinNames {name : String} (builtin : name ∈ builtinNames)
    : '.' ∉ name.toList := by
  have all : ∀ name ∈ builtinNames, '.' ∉ name.toList := by decide
  exact all name builtin

/-- The name of a type is that of a built-in one exactly if the qualified name is, apart from
leading dots.
-/
theorem typeName_mem_builtinNames_iff {qualified : String}
    : typeName qualified ∈ builtinNames ↔ Name.dropLeadingDots qualified ∈ builtinNames := by
  constructor
  · intro builtin
    rw [← typeName_eq_dropLeadingDots (underscore_notMem_builtinNames builtin)]
    exact builtin
  · intro builtin
    have kept : ∀ name ∈ builtinNames,
        String.ofList (guardDigit (name.toList.map fun c => if isNameChar c then c else '_'))
          = name := by
      decide
    rw [typeName, kept _ builtin]
    exact builtin

/-- The entries of a map never have the name of a built-in type: their names have underscores. -/
theorem name_entry_ne_builtin (enclosing : Message) (field : Field) (key : Scalar)
    : Name.dropLeadingDots (MapEntry.name enclosing field key) ∉ builtinNames := by
  intro builtin
  refine underscore_notMem_builtinNames builtin (Name.mem_dropLeadingDots (by decide) ?_)
  rw [MapEntry.name_eq_append, String.toList_append, MapEntry.toList_ending]
  simp

/-- A group has the name of a built-in type only if that of its message consists of dots. -/
theorem dots_of_group_builtin {group : String}
    (builtin : Name.dropLeadingDots (groupName message group) ∈ builtinNames)
    : ∀ c ∈ message.name.toList, c = '.' := by
  have plain := dot_notMem_builtinNames builtin
  rw [groupName, Name.dropLeadingDots, String.toList_ofList, String.toList_append,
    String.toList_append, List.append_assoc, List.dropWhile_append] at plain
  split at plain
  · next empty =>
      intro c member
      exact of_decide_eq_true (List.dropWhile_eq_nil_iff.mp (List.isEmpty_iff.mp empty) c member)
  · exact absurd (List.mem_append_right _ List.mem_cons_self) plain

-----------------------------------------------------------------------------------------
-- What scalars denote
-----------------------------------------------------------------------------------------

/-- The name is that of a built-in type, and of no registered one. -/
def Progress.OnlyBuiltin (progress : Progress) (name : String) : Prop :=
  name ∈ builtinNames
    ∧ ∀ owner type, progress.registry.get? owner = some type → type.name ≠ name

/-- The scalars in a type are of built-in types: the type of each field or member that holds scalars
has the innermost name of a built-in type, which no registered type shares.
-/
inductive Progress.ScalarsBuiltin (progress : Progress) : Origin → NamedType → Prop
  | enumeration (content : Enumeration)
    : ScalarsBuiltin progress (.node (.enumeration content)) (.enumeration (enumType content))
  | message {content : Message} {fields : List FieldDefinition}
    (builtin
      : List.Forall₂
          (fun slot definition =>
            ∀ field,
              slot = .single field
              → field.HoldsScalar
              → progress.OnlyBuiltin definition.type.baseName)
          content.slots fields)
    : ScalarsBuiltin progress (.node (.message content)) ((objectType content).withFields fields)
  | group {content : Message} {group : String} {members : List TypeRef}
    (builtin
      : List.Forall₂
          (fun member type =>
            ∀ field,
              content.field? member = some field
              → field.HoldsScalar
              → progress.OnlyBuiltin type.baseName)
          (content.memberNames group) members)
    : ScalarsBuiltin progress (.group content group)
        (.union {
          name := typeName (groupName content group)
          description := (content.oneof? group).bind OneOf.comment
          members })

/-- No registered type has the name of a built-in one. -/
def Progress.LeavesBuiltin (progress : Progress) : Prop :=
  ∀ owner type, progress.registry.get? owner = some type → type.name ∉ builtinNames

/-- A field that holds scalars has a built-in type, by cases on its base type. -/
theorem Progress.TypesField.onlyBuiltin {field : Field} {type : TypeRef}
    (typed : progress.TypesField int64 scope message field type) (holds : field.HoldsScalar)
    (leaves : progress.LeavesBuiltin)
    : progress.OnlyBuiltin type.baseName := by
  obtain ⟨keyless, kind, scalar⟩ := holds
  have builtin : type.baseName ∈ builtinNames := by
    cases typed with
    | wrapped based =>
        rw [baseName_wrapType]
        cases based with
        | @scalar kind _ _ => cases kind.graphQL int64 <;> decide
        | entry keyed _ => cases keyless.symm.trans keyed
        | reference _ named _ => cases scalar.symm.trans named
  refine ⟨builtin, fun owner other found same => ?_⟩
  exact leaves owner other found (same ▸ builtin)

/-- The scalars in a registered type are of built-in types if no type is named like these, by cases
on what the type was made from.
-/
theorem Progress.Complete.scalarsBuiltin {origin : Origin} {type : NamedType}
    (complete : progress.Complete int64 scope) (leaves : progress.LeavesBuiltin)
    (found : progress.registry.get? origin.name = some type)
    (comes : progress.Comes int64 scope origin type)
    : progress.ScalarsBuiltin origin type := by
  cases comes with
  | filled typed =>
      refine .message (typed.imp fun slot definition typed field same holds => ?_)
      cases typed with
      | single typed =>
          cases same
          exact typed.onlyBuiltin holds leaves
      | group _ => cases same
  | made made =>
      cases made with
      | enumeration content => exact .enumeration content
      | message content =>
          exact absurd ⟨_, found, objectType_isDeferred content⟩ (complete.settled content.name)
      | group typed =>
          refine .group (typed.imp fun member type typed field named holds => ?_)
          obtain ⟨other, same, typed⟩ := typed
          cases named.symm.trans same
          exact typed.onlyBuiltin holds leaves

/-- Scalars denote built-in types in the output of a conversion that succeeds unless a type of the
schema is named like one of these. No registered type has the name of a built-in type exactly if
the qualified name of none is such a name, apart from leading dots. In that case, whatever holds
scalars has a built-in type that no definition of the output redefines. A name that spoils this is
never that of an entry, and that of a group only if the name of its message consists of dots.
-/
theorem scalars_builtin_iff {definitions : List String}
    (success : convert int64 scope = .ok definitions)
    : ((finalProgress int64 scope).LeavesBuiltin
        ↔ ∀ name ∈ (finalProgress int64 scope).registry.keys,
            Name.dropLeadingDots name ∉ builtinNames)
      ∧ ((finalProgress int64 scope).LeavesBuiltin
        → ∀ name type,
            (finalProgress int64 scope).registry.get? name = some type
            → ∃ origin,
                Needed scope origin
                ∧ origin.name = name
                ∧ (finalProgress int64 scope).ScalarsBuiltin origin type)
      ∧ ∀ name ∈ (finalProgress int64 scope).registry.keys,
          Name.dropLeadingDots name ∈ builtinNames
          → (∀ enclosing field key, name ≠ MapEntry.name enclosing field key)
            ∧ ∃ origin,
                Needed scope origin
                ∧ origin.name = name
                ∧ ∀ message group,
                    origin = .group message group → ∀ c ∈ message.name.toList, c = '.' := by
  have complete := convert_complete success
  refine ⟨?names, ?scalars, ?spoilt⟩
  case names =>
    constructor
    · intro leaves name registered builtin
      obtain ⟨type, found⟩ := OrderedMap.mem_keys_iff.mp registered
      obtain ⟨origin, _, rfl, comes⟩ := complete.consistent.sound found
      refine leaves _ _ found ?_
      rw [comes.name]
      exact typeName_mem_builtinNames_iff.mpr builtin
    · intro plain owner type found builtin
      obtain ⟨origin, _, rfl, comes⟩ := complete.consistent.sound found
      rw [comes.name] at builtin
      exact plain _ (OrderedMap.mem_keys_iff.mpr ⟨type, found⟩)
        (typeName_mem_builtinNames_iff.mp builtin)
  case scalars =>
    intro leaves name type found
    obtain ⟨origin, needed, rfl, comes⟩ := complete.consistent.sound found
    exact ⟨origin, needed, rfl, complete.scalarsBuiltin leaves found comes⟩
  case spoilt =>
    intro name registered builtin
    obtain ⟨type, found⟩ := OrderedMap.mem_keys_iff.mp registered
    obtain ⟨origin, needed, rfl, _⟩ := complete.consistent.sound found
    refine ⟨fun enclosing field key same => ?_, origin, needed, rfl, ?_⟩
    · rw [same] at builtin
      exact name_entry_ne_builtin enclosing field key builtin
    · rintro message group rfl
      exact dots_of_group_builtin builtin

/-- The scalars of a message that refers to itself denote built-in types. -/
theorem selfReference_scalars
    : (∃ definitions, convert .text selfReference = .ok definitions)
      ∧ (finalProgress .text selfReference).LeavesBuiltin := by
  obtain ⟨definitions, success⟩ := selfReference_converts
  refine ⟨⟨definitions, success⟩, (scalars_builtin_iff success).1.mpr ?_⟩
  decide +kernel

/-- A message with the name of a built-in type, and a field that holds text. -/
def textMessage : Message where
  name := "String"
  fields := [{ name := "x", type := .scalar .string, required := true }]

/-- The schema of that message, which is listed. -/
def textSchema : Scope where
  catalog := { types := .ofEntries [("String", .message textMessage)] }
  listed := [.message textMessage]

/-- A message named like a built-in type is defined under that name, and the type of its field that
holds text refers to this definition.
-/
theorem text_redefined
    : convert .text textSchema = .ok ["type String \x7b\n  x: String!\n\x7d"]
      ∧ (∀ field ∈ textMessage.fields, field.HoldsScalar)
      ∧ (finalProgress .text textSchema).registry.get? "String"
        = some
            (.object {
              name := "String"
              fields := .resolved [{ name := "x", type := .nonNull (.named "String") }] })
      ∧ ¬ (finalProgress .text textSchema).LeavesBuiltin := by
  have defined
      : (finalProgress .text textSchema).registry.get? "String"
        = some
            (.object {
              name := "String"
              fields := .resolved [{ name := "x", type := .nonNull (.named "String") }] }) := by
    decide +kernel
  refine ⟨by decide +kernel, ?scalars, defined, ?taken⟩
  case scalars =>
    intro field member
    rw [List.mem_singleton.mp member]
    exact ⟨rfl, .string, rfl⟩
  case taken => exact fun leaves => leaves _ _ defined (by decide)

end GraphQL

end ProtoSchema
