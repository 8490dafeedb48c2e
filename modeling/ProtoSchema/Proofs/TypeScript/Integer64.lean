import ProtoSchema.Proofs.Lockstep
import ProtoSchema.Proofs.Schema.Integer64
import ProtoSchema.Proofs.TypeScript.Sources

/-! Conversions with 64-bit integers as text and as numbers run in lockstep. At each point they have
declared the same names and warned about the same types; only the properties that hold 64-bit
integers are written differently.
-/

namespace ProtoSchema.TypeScript

open Schema
open Execution

-----------------------------------------------------------------------------------------
-- Declarations under both settings
-----------------------------------------------------------------------------------------

/-- The types of a field under both settings: text or numbers if it holds 64-bit integers, and
otherwise the same.
-/
abbrev FieldTwins (field : Field) : String → String → Prop :=
  field.Retyped (arrayType field "string") (arrayType field "number")

/-- A property of a message under both settings: it differs in the type of its field, or in those of
the members of its group.
-/
inductive PropertyTwins (style : CommentStyle) (message : Message)
    : Message.Slot → String → String → Prop
  | single {field : Field} {left right : String} (types : FieldTwins field left right)
    : PropertyTwins style message (.single field) (printProperty style field left)
        (printProperty style field right)
  | group {group : String} {members : List Field} {lefts rights : List String}
    (found : message.members group = .ok members)
    (types : SideBySide FieldTwins members lefts rights)
    : PropertyTwins style message (.group group) (printGroup style message group lefts)
        (printGroup style message group rights)

/-- The declaration of a type under both settings: it differs in the properties of a message. -/
inductive DeclarationTwins (style : CommentStyle) : Node → String → String → Prop
  | enumeration (content : Enumeration)
    : DeclarationTwins style (.enumeration content) (printEnumeration style content)
        (printEnumeration style content)
  | message {content : Message} {lefts rights : List String}
    (properties : SideBySide (PropertyTwins style content) content.slots lefts rights)
    : DeclarationTwins style (.message content) (printInterface style content lefts)
        (printInterface style content rights)

/-- The declarations under a name under both settings are those of one type, which is listed or an
entry of a map in a listed message.
-/
def DeclaredTwins (style : CommentStyle) (scope : Scope) (name left right : String) : Prop :=
  ∃ node, Source scope node ∧ node.name = name ∧ DeclarationTwins style node left right

/-- The progress under both settings: the same names are declared in the same order with matching
declarations, and there are the same warnings.
-/
structure Progress.Twins (style : CommentStyle) (scope : Scope) (left right : Progress)
    : Prop where
  registry : left.registry.Matches (DeclaredTwins style scope) right.registry
  warned : left.warned = right.warned

/-- The progress in which a conversion ends. -/
def finalProgress (style : CommentStyle) (int64 : Integer64) (scope : Scope) : Progress :=
  (exec (build style int64 scope) {}).2

variable {style : CommentStyle} {scope : Scope} {left right : Progress} {message : Message}

theorem Progress.twins_start : Progress.Twins style scope {} {} where
  registry := .nil
  warned := rfl

theorem Progress.Twins.warn (twins : left.Twins style scope right) (name : String)
    : (left.warn name).Twins style scope (right.warn name) := by
  unfold Progress.warn
  rw [← twins.warned]
  split
  · exact twins
  · exact ⟨twins.registry, rfl⟩

theorem Progress.Twins.contains_eq (twins : left.Twins style scope right) (name : String)
    : left.registry.contains name = right.registry.contains name := by
  have both := twins.registry.get? name
  rw [OrderedMap.contains, OrderedMap.contains]
  generalize left.registry.get? name = first at both
  generalize right.registry.get? name = second at both
  cases both <;> rfl

-----------------------------------------------------------------------------------------
-- Steps in lockstep
-----------------------------------------------------------------------------------------

theorem register_lockstep {name first second : String}
    (related : DeclaredTwins style scope name first second)
    : Lockstep (Progress.Twins style scope) Eq (register name first) (register name second) := by
  refine .of_get fun left right twins => ?_
  simp only [Registry.register, OrderedMap.insertNew?, ← twins.contains_eq name]
  cases left.registry.contains name with
  | true => exact .error _ twins
  | false => exact .ok rfl ⟨twins.registry.insert related, twins.warned⟩

theorem referenceName_lockstep (reference : String)
    : Lockstep (Progress.Twins style scope) Eq (referenceName scope reference)
        (referenceName scope reference) := by
  unfold referenceName
  cases scope.find? reference with
  | none => exact .of_throw _
  | some node =>
      simp only
      split
      · exact .of_pure rfl
      · refine Lockstep.bind (.of_modify fun left right twins => ?_) fun _ _ _ => .of_pure rfl
        exact twins.warn node.name

/-- Fields without entries have the same type under both settings unless they hold 64-bit integers,
by cases on what they hold.
-/
theorem baseType_lockstep {field : Field} (keyless : field.mapKey = none)
    : Lockstep (Progress.Twins style scope) (field.Retyped "string" "number")
        (baseType .text scope field.type) (baseType .number scope field.type) := by
  cases type : field.type with
  | named reference =>
      intro left right twins
      refine (referenceName_lockstep reference left right twins).imp fun text _ same => ?_
      exact same ▸ .other (Field.not_holdsInteger64_of_named type) text
  | scalar kind =>
      refine .of_pure ?_
      have holds := Field.holdsInteger64_iff keyless type
      cases integer : kind.isInteger64 with
      | true =>
          have text : kind.typeScript .text = .string := by simp [Scalar.typeScript, integer]
          have number : kind.typeScript .number = .number := by simp [Scalar.typeScript, integer]
          rw [text, number]
          exact .integer64 (holds.mpr integer)
      | false =>
          rw [Scalar.typeScript_eq integer]
          exact .other (fun held => by simp [holds.mp held] at integer) _

theorem plainProperty_lockstep (message : Message) {field : Field}
    (keyless : field.mapKey = none)
    : Lockstep (Progress.Twins style scope) (PropertyTwins style message (.single field))
        (plainProperty style .text scope field) (plainProperty style .number scope field) :=
  (baseType_lockstep keyless).map fun _ _ types => .single (types.map (arrayType field))

/-- The entries of shown maps are declared alike: their fields stand by themselves. -/
theorem declareEntry_lockstep {enclosing : Message} {field : Field} {key : Scalar}
    (listed : .message enclosing ∈ scope.listed) (shown : field ∈ shownFields enclosing)
    (keyed : field.mapKey = some key)
    : Lockstep (Progress.Twins style scope) Eq
        (declareEntry style .text scope (MapEntry.message enclosing field key))
        (declareEntry style .number scope (MapEntry.message enclosing field key)) := by
  refine .of_get fun left right twins => ?_
  rw [← twins.contains_eq]
  cases left.registry.contains (MapEntry.message enclosing field key).name with
  | true => exact .ok rfl twins
  | false =>
      have properties := @Lockstep.mapM _ _ _ _ _ _ _ _ (MapEntry.message enclosing field key).fields
        fun inner member => @plainProperty_lockstep style scope
          (MapEntry.message enclosing field key) inner (MapEntry.plain_of_mem member).1
      refine properties.bind (fun lefts rights all => ?_) left right twins
      have slots : (MapEntry.message enclosing field key).slots
          = (MapEntry.message enclosing field key).fields.map .single := rfl
      refine register_lockstep ⟨_, .entry listed shown keyed, rfl, .message ?_⟩
      rw [slots]
      exact all.of_change

theorem fieldType_lockstep {field : Field} (listed : .message message ∈ scope.listed)
    (shown : field ∈ shownFields message)
    : Lockstep (Progress.Twins style scope) (FieldTwins field)
        (fieldType style .text scope message field)
        (fieldType style .number scope message field) := by
  unfold fieldType
  cases keyed : field.mapKey with
  | some key =>
      refine (declareEntry_lockstep listed shown keyed).map fun _ _ _ => ?_
      exact .other (Field.not_holdsInteger64_of_map keyed) _
  | none => exact (baseType_lockstep keyed).map fun _ _ types => types.map (arrayType field)

/-- Each property is written alike under both settings, by cases on whether it is a group. -/
theorem slotProperty_lockstep (listed : .message message ∈ scope.listed) {slot : Message.Slot}
    (shown : ∀ field ∈ slotFields message slot, field ∈ shownFields message)
    : Lockstep (Progress.Twins style scope) (PropertyTwins style message slot)
        (slotProperty style .text scope message slot)
        (slotProperty style .number scope message slot) := by
  unfold slotProperty
  cases slot with
  | single field =>
      have type := @fieldType_lockstep style scope message field listed
        (shown field (List.mem_singleton_self field))
      exact type.map fun _ _ types => .single types
  | group group =>
      simp only
      cases found : message.members group with
      | error member => exact .of_throw _
      | ok members =>
          have all : slotFields message (.group group) = members := by
            rw [slotFields, groupFields, found]
          rw [all] at shown
          have types := @Lockstep.mapM _ _ _ _ _ _ _ _ members
            fun field member => @fieldType_lockstep style scope message field listed
              (shown field member)
          exact types.map fun _ _ all => .group found all

theorem declaration_lockstep {node : Node} (listed : node ∈ scope.listed)
    : Lockstep (Progress.Twins style scope) (DeclarationTwins style node)
        (declaration style .text scope node) (declaration style .number scope node) := by
  cases node with
  | enumeration content => exact .of_pure (.enumeration content)
  | message content =>
      have properties := @Lockstep.mapM _ _ _ _ _ _ _ _ content.slots
        fun slot member => @slotProperty_lockstep style scope content listed slot
          fun field inside => List.mem_flatMap.mpr ⟨slot, member, inside⟩
      exact properties.map fun _ _ all => .message all

theorem declare_lockstep {node : Node} (listed : node ∈ scope.listed)
    : Lockstep (Progress.Twins style scope) Eq (declare style .text scope node)
        (declare style .number scope node) := by
  refine .of_get fun left right twins => ?_
  rw [← twins.contains_eq]
  cases left.registry.contains node.name with
  | true => exact .ok rfl twins
  | false =>
      refine (declaration_lockstep listed).bind (fun _ _ types => ?_) left right twins
      exact register_lockstep ⟨node, .listed listed, rfl, types⟩

theorem build_lockstep
    : Lockstep (Progress.Twins style scope) Eq (build style .text scope)
        (build style .number scope) :=
  .forM fun _ listed => declare_lockstep listed

/-- The conversions under both settings agree: they fail with the same error, or both succeed with
the same warnings and have declared the same names in the same order, with matching declarations.
-/
theorem convert_agrees (style : CommentStyle) (scope : Scope)
    : (∃ error,
        convert style .text scope = .error error ∧ convert style .number scope = .error error)
      ∨ (∃ left right,
          convert style .text scope = .ok left
          ∧ convert style .number scope = .ok right
          ∧ left.warnings = right.warnings)
        ∧ (finalProgress style .text scope).registry.Matches (DeclaredTwins style scope)
            (finalProgress style .number scope).registry := by
  have agree : Agree (Progress.Twins style scope) Eq (exec (build style .text scope) {})
      (exec (build style .number scope) {}) :=
    build_lockstep _ _ Progress.twins_start
  rw [exec, exec] at agree
  rw [convert, convert, finalProgress, finalProgress, exec, exec]
  generalize (build style .text scope).run.run {} = one at agree ⊢
  generalize (build style .number scope).run.run {} = other at agree ⊢
  cases agree with
  | error error twins => exact .inl ⟨error, rfl, rfl⟩
  | ok _ twins =>
      have warnings := congrArg (List.map undeclared) twins.warned
      exact .inr ⟨⟨_, _, rfl, rfl, warnings⟩, twins.registry⟩

end ProtoSchema.TypeScript
