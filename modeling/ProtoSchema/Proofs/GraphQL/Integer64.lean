import ProtoSchema.Proofs.GraphQL.Success
import ProtoSchema.Proofs.Lockstep
import ProtoSchema.Proofs.Schema.Integer64

/-! Conversions with 64-bit integers as text and as numbers run in lockstep. At each point they have
registered the same names for the same origins, and deferred and claimed the same; only the fields
and members that hold 64-bit integers have different types.
-/

namespace ProtoSchema.GraphQL

open Schema
open Execution

-----------------------------------------------------------------------------------------
-- Types under both settings
-----------------------------------------------------------------------------------------

/-- The types of a field under both settings: the innermost name is `String` or `Float` if it holds
64-bit integers, and nothing differs otherwise.
-/
abbrev FieldTwins (field : Field) : TypeRef → TypeRef → Prop :=
  field.Retyped (wrapType field (.named "String")) (wrapType field (.named "Float"))

/-- The types of a member of a group under both settings: those of the field that it names. -/
def MemberTwins (message : Message) (member : String) (left right : TypeRef) : Prop :=
  ∃ field, message.field? member = some field ∧ FieldTwins field left right

/-- The fields for a property of a message under both settings. The union for a group has the same
name under both.
-/
inductive SlotTwins (message : Message) : Message.Slot → FieldDefinition → FieldDefinition → Prop
  | single {field : Field} {left right : TypeRef} (types : FieldTwins field left right)
    : SlotTwins message (.single field)
        { name := field.name, type := left, description := field.comment }
        { name := field.name, type := right, description := field.comment }
  | group (group : String) (type : TypeRef)
    : SlotTwins message (.group group)
        { name := group, type, description := (message.oneof? group).bind OneOf.comment }
        { name := group, type, description := (message.oneof? group).bind OneOf.comment }

/-- The types that are made from an origin under both settings. They differ only in the types of the
fields of a message, if it has them already, or of the members of a group.
-/
inductive TypeTwins : Origin → NamedType → NamedType → Prop
  | enumeration (content : Enumeration)
    : TypeTwins (.node (.enumeration content)) (.enumeration (enumType content))
        (.enumeration (enumType content))
  | deferred (content : Message)
    : TypeTwins (.node (.message content)) (objectType content) (objectType content)
  | message {content : Message} {lefts rights : List FieldDefinition}
    (fields : SideBySide (SlotTwins content) content.slots lefts rights)
    : TypeTwins (.node (.message content)) ((objectType content).withFields lefts)
        ((objectType content).withFields rights)
  | group {message : Message} {group : String} {lefts rights : List TypeRef}
    (members : SideBySide (MemberTwins message) (message.memberNames group) lefts rights)
    : TypeTwins (.group message group)
        (.union {
          name := typeName (groupName message group)
          description := (message.oneof? group).bind OneOf.comment
          members := lefts })
        (.union {
          name := typeName (groupName message group)
          description := (message.oneof? group).bind OneOf.comment
          members := rights })

/-- The types that are registered under a name under both settings are made from one origin, to
which the listed types lead.
-/
def RegisteredTwins (scope : Scope) (name : String) (left right : NamedType) : Prop :=
  ∃ origin, Needed scope origin ∧ origin.name = name ∧ TypeTwins origin left right

/-- The progress under both settings: the same names are registered in the same order with matching
types, and the same messages are deferred and the same names of types claimed.
-/
structure Progress.Twins (scope : Scope) (left right : Progress) : Prop where
  registry : left.registry.Matches (RegisteredTwins scope) right.registry
  deferred : left.deferred = right.deferred
  claimed : left.claimed = right.claimed

variable {scope : Scope} {left right : Progress} {message : Message}

theorem RegisteredTwins.name_eq {name : String} {left right : NamedType}
    (related : RegisteredTwins scope name left right)
    : left.name = right.name := by
  obtain ⟨_, _, _, types⟩ := related
  cases types with
  | enumeration content => rfl
  | deferred content => rfl
  | message fields => rw [NamedType.name_withFields, NamedType.name_withFields]
  | group members => rfl

theorem Progress.twins_start : Progress.Twins scope {} {} where
  registry := .nil
  deferred := rfl
  claimed := rfl

/-- References have the same types under both settings. -/
theorem Progress.Twins.reference?_eq (twins : left.Twins scope right) (name : String)
    : left.reference? name = right.reference? name := by
  rw [Progress.reference?, Progress.reference?]
  have both := twins.registry.get? name
  generalize left.registry.get? name = first at both
  generalize right.registry.get? name = second at both
  cases both with
  | absent => rfl
  | present related => rw [Option.map_some, Option.map_some, related.name_eq]

theorem Progress.Twins.unqueue (twins : left.Twins scope right) (name : String)
    : (left.unqueue name).Twins scope (right.unqueue name) where
  registry := twins.registry
  deferred := congrArg (OrderedMap.erase · name) twins.deferred
  claimed := twins.claimed

-----------------------------------------------------------------------------------------
-- Steps in lockstep
-----------------------------------------------------------------------------------------

/-- Twins are registered alike: the conditions on the name and on that of the type are the same. -/
theorem register_lockstep {name : String} {first second : NamedType}
    (related : RegisteredTwins scope name first second)
    : Lockstep (Progress.Twins scope) Eq (register name first) (register name second) := by
  refine .of_get fun left right twins => ?_
  have both := twins.registry.get? name
  simp only [Progress.register, ← related.name_eq, ← twins.claimed, Registry.register,
    OrderedMap.insertNew?_eq]
  generalize left.registry.get? name = one at both
  generalize right.registry.get? name = other at both
  cases (left.claimed.get? first.name).filter fun owner => owner ≠ name with
  | some owner => exact .error _ twins
  | none =>
      cases both with
      | present _ => exact .error _ twins
      | absent => exact .ok rfl ⟨twins.registry.insert related, twins.deferred, rfl⟩

theorem resolveNode_lockstep {node : Node} (needed : Needed scope (.node node))
    : Lockstep (Progress.Twins scope) Eq (resolveNode node) (resolveNode node) := by
  refine .of_get fun left right twins => ?_
  rw [← twins.reference?_eq]
  cases left.reference? node.name with
  | some reference => exact .ok rfl twins
  | none =>
      cases node with
      | enumeration content =>
          exact register_lockstep ⟨_, needed, rfl, .enumeration content⟩ left right twins
      | message content =>
          have registered := register_lockstep ⟨_, needed, rfl, .deferred content⟩
          refine (registered.bind fun one other same => ?_) left right twins
          refine Lockstep.bind (.of_modify fun left right twins => ?_) fun _ _ _ => .of_pure same
          exact ⟨twins.registry, by rw [twins.deferred], twins.claimed⟩

theorem resolve_lockstep {reference : String}
    (needed : ∀ node, scope.find? reference = some node → Needed scope (.node node))
    : Lockstep (Progress.Twins scope) Eq (resolve scope reference) (resolve scope reference) := by
  refine .of_get fun left right twins => ?_
  rw [← twins.reference?_eq]
  cases left.reference? (Name.dropLeadingDots reference) with
  | some type => exact .ok rfl twins
  | none =>
      rw [Scope.find?_dropLeadingDots]
      cases found : scope.find? reference with
      | some node => exact resolveNode_lockstep (needed node found) left right twins
      | none => exact .error _ twins

/-- Fields have the same base type under both settings unless they hold 64-bit integers, by cases on
what they hold.
-/
theorem baseType_lockstep (needed : Needed scope (.node (.message message))) {field : Field}
    (shown : message.Shows field)
    : Lockstep (Progress.Twins scope) (field.Retyped (.named "String") (.named "Float"))
        (baseType .text scope message field) (baseType .number scope message field) := by
  unfold baseType
  cases keyed : field.mapKey with
  | some key =>
      intro left right twins
      have entry : Needed scope (.node (.message (MapEntry.message message field key))) :=
        .shown needed (.value (.entry shown keyed))
      refine (resolveNode_lockstep entry left right twins).imp fun type _ same => ?_
      exact same ▸ .other (Field.not_holdsInteger64_of_map keyed) type
  | none =>
      cases type : field.type with
      | named reference =>
          intro left right twins
          have refers : (Request.values message).Refers reference := .value shown keyed type
          have denoted := @resolve_lockstep scope reference fun node found =>
            .shown needed (.value (.found refers found))
          refine (denoted left right twins).imp fun base _ same => ?_
          exact same ▸ .other (Field.not_holdsInteger64_of_named type) base
      | scalar kind =>
          refine .of_pure ?_
          have holds := Field.holdsInteger64_iff keyed type
          cases integer : kind.isInteger64 with
          | true =>
              have text : kind.graphQL .text = .string := by simp [Scalar.graphQL, integer]
              have number : kind.graphQL .number = .float := by simp [Scalar.graphQL, integer]
              rw [text, number]
              exact .integer64 (holds.mpr integer)
          | false =>
              rw [Scalar.graphQL_eq integer]
              exact .other (fun held => by simp [holds.mp held] at integer) _

theorem fieldType_lockstep (needed : Needed scope (.node (.message message))) {field : Field}
    (shown : message.Shows field)
    : Lockstep (Progress.Twins scope) (FieldTwins field) (fieldType .text scope message field)
        (fieldType .number scope message field) :=
  (baseType_lockstep needed shown).map fun _ _ types => types.map (wrapType field)

theorem memberType_lockstep (needed : Needed scope (.node (.message message)))
    {group member : String} (present : message.HasGroup group)
    (named : member ∈ message.memberNames group)
    : Lockstep (Progress.Twins scope) (MemberTwins message member)
        (memberType .text scope message group member)
        (memberType .number scope message group member) := by
  unfold memberType
  cases found : message.field? member with
  | none => exact .of_throw _
  | some field =>
      intro left right twins
      have types := fieldType_lockstep needed (.grouped present named found) left right twins
      exact types.imp fun _ _ types => ⟨field, found, types⟩

theorem groupType_lockstep (needed : Needed scope (.node (.message message))) {group : String}
    (present : message.HasGroup group)
    : Lockstep (Progress.Twins scope) Eq (groupType .text scope message group)
        (groupType .number scope message group) := by
  refine .of_get fun left right twins => ?_
  rw [← twins.reference?_eq]
  cases left.reference? (groupName message group) with
  | some reference => exact .ok rfl twins
  | none =>
      have members := @Lockstep.mapM _ _ _ _ _ _ _ _ (message.memberNames group)
        fun member named => memberType_lockstep needed present named
      refine members.bind (fun lefts rights all => ?_) left right twins
      have union : Needed scope (.group message group) := .shown needed (.group present)
      exact register_lockstep ⟨_, union, rfl, .group all⟩

/-- Each property has matching fields under both settings, by cases on whether it is a group. -/
theorem slotField_lockstep (needed : Needed scope (.node (.message message)))
    {slot : Message.Slot} (member : slot ∈ message.slots)
    : Lockstep (Progress.Twins scope) (SlotTwins message slot) (slotField .text scope message slot)
        (slotField .number scope message slot) := by
  cases slot with
  | single field =>
      obtain ⟨inside, alone⟩ := Message.single_mem_slots.mp member
      exact (fieldType_lockstep needed (.single inside alone)).map fun _ _ types => .single types
  | group group =>
      have type := groupType_lockstep needed (Message.group_mem_slots.mp member)
      exact type.map fun reference _ same => same ▸ .group group reference

theorem messageFields_lockstep (needed : Needed scope (.node (.message message)))
    : Lockstep (Progress.Twins scope) (SideBySide (SlotTwins message) message.slots)
        (messageFields .text scope message) (messageFields .number scope message) :=
  .mapM fun _ member => slotField_lockstep needed member

-----------------------------------------------------------------------------------------
-- Whole conversions in lockstep
-----------------------------------------------------------------------------------------

/-- A type without fields is the same under both settings, by cases on its origin. -/
theorem TypeTwins.eq_of_isDeferred {origin : Origin} {first second : NamedType}
    (types : TypeTwins origin first second) (deferred : first.IsDeferred)
    : second = first := by
  cases types with
  | enumeration content => rfl
  | deferred content => rfl
  | message fields => exact absurd deferred (withFields_not_isDeferred _ _)
  | group members => cases deferred

/-- Filling in matching fields of a message keeps the progress matching, provided that the message
is registered without fields.
-/
theorem Progress.Twins.fill (twins : left.Twins scope right)
    (needed : Needed scope (.node (.message message))) {lefts rights : List FieldDefinition}
    (registered : left.registry.get? message.name = some (objectType message))
    (fields : SideBySide (SlotTwins message) message.slots lefts rights)
    : (left.fill message.name lefts).Twins scope (right.fill message.name rights) where
  deferred := twins.deferred
  claimed := twins.claimed
  registry := by
    refine twins.registry.modify fun first second found related => ?_
    cases registered.symm.trans found
    obtain ⟨_, _, _, types⟩ := related
    rw [types.eq_of_isDeferred (objectType_isDeferred message)]
    exact ⟨_, needed, rfl, .message fields⟩

/-- Deferred fields are converted alike under both settings. The progress is consistent under one
of them, so that the message is registered without its fields until these are filled in.
-/
theorem force_agrees (twins : left.Twins scope right)
    (consistent : left.Consistent .text scope onlyListed) (name : String)
    : Agree (Progress.Twins scope) Eq (exec (force .text scope name) left)
        (exec (force .number scope name) right) := by
  unfold force
  rw [exec_get_bind, exec_get_bind, ← twins.deferred]
  cases queued : left.deferred.get? name with
  | none => exact .ok rfl twins
  | some message =>
      obtain ⟨rfl, needed, registered⟩ := consistent.queued queued
      simp only
      rw [exec_bind_ok (exec_modify _ _), exec_bind_ok (exec_modify _ _)]
      have converted := messageFields_lockstep needed _ _ (twins.unqueue message.name)
      refine converted.andThen fun run fields twins => ?_
      have serves := @messageFields_serves .text scope message (left.unqueue message.name)
      rw [show exec _ _ = _ from run] at serves
      cases serves with
      | ok steps _ => exact .ok rfl (twins.fill needed (Registers.retains steps registered) fields)

/-- Deferred fields are converted alike one message after the other, by induction on their number.
-/
theorem forceFirst_agrees (count : Nat) (twins : left.Twins scope right)
    (consistent : left.Consistent .text scope onlyListed)
    : Agree (Progress.Twins scope) Eq (exec (forceFirst .text scope count) left)
        (exec (forceFirst .number scope count) right) := by
  induction count generalizing left right with
  | zero => exact .ok rfl twins
  | succ count ih =>
      unfold forceFirst
      rw [exec_get_bind, exec_get_bind, ← twins.deferred]
      cases left.deferred.keys.head? with
      | none => exact .ok rfl twins
      | some name =>
          refine (force_agrees twins consistent name).andThen fun run _ twins => ?_
          exact ih twins ((forced_of_run run).consistent consistent)

theorem materialize_agrees (twins : left.Twins scope right)
    (consistent : left.Consistent .text scope onlyListed)
    : Agree (Progress.Twins scope) Eq (exec (materialize .text scope) left)
        (exec (materialize .number scope) right) := by
  have bounds : workBound scope left = workBound scope right := by
    rw [workBound, workBound, twins.deferred]
  unfold materialize
  rw [exec_get_bind, exec_get_bind, ← bounds]
  exact forceFirst_agrees _ twins consistent

theorem build_lockstep : Lockstep (Progress.Twins scope) Eq (build scope) (build scope) := by
  refine .forM fun node member => ?_
  have needed : Needed scope (.node node) := .asked rfl (.listed member)
  have same : discard (resolveNode node) = resolveNode node >>= fun _ => pure PUnit.unit := by
    simp [discard, map_const]
  rw [same]
  exact (resolveNode_lockstep needed).map fun _ _ _ => rfl

/-- The conversions under both settings agree: they fail with the same error, or both succeed and
have registered the same names in the same order with matching types.
-/
theorem conversion_agrees (scope : Scope)
    : Agree (Progress.Twins scope) (fun _ _ => True) (exec (conversion .text scope) {})
        (exec (conversion .number scope) {}) := by
  have built : Agree (Progress.Twins scope) Eq (exec (build scope) {}) (exec (build scope) {}) :=
    build_lockstep _ _ Progress.twins_start
  refine built.andThen fun builds _ twins => ?_
  have underway := @build_underway .text _ _ builds
  exact (materialize_agrees twins underway.consistent).andThen fun _ _ twins => .ok trivial twins

/-- The results of the conversions under both settings. -/
theorem convert_agrees (scope : Scope)
    : (∃ error, convert .text scope = .error error ∧ convert .number scope = .error error)
      ∨ (∃ left right, convert .text scope = .ok left ∧ convert .number scope = .ok right)
        ∧ (finalProgress .text scope).registry.Matches (RegisteredTwins scope)
            (finalProgress .number scope).registry := by
  have agree := conversion_agrees scope
  rw [convert_eq, convert_eq, finalProgress, finalProgress]
  generalize exec (conversion .text scope) {} = one at agree ⊢
  generalize exec (conversion .number scope) {} = other at agree ⊢
  cases agree with
  | error error twins => exact .inl ⟨error, rfl, rfl⟩
  | ok _ twins => exact .inr ⟨⟨_, _, rfl, rfl⟩, twins.registry⟩

end ProtoSchema.GraphQL
