import ProtoSchema.Proofs.GraphQL.Reachability

/-! How each part of the conversion serves a request: by registrations that the request allows,
and either with a result that the registry bears out or with an error that says what blocks it.
-/

namespace ProtoSchema.GraphQL

open Schema
open Execution

variable {α β : Type} {int64 : Integer64} {scope : Scope} {request : Request}

/-- The outcome of serving a request: registrations on its behalf, and then either a result with
the given property or an error that blocks the request.
-/
inductive Serves (int64 : Integer64) (scope : Scope) (request : Request) (before : Progress)
    (holds : α → Progress → Prop)
    : Except ConversionError α × Progress → Prop
  | ok {value : α} {after : Progress} (steps : Registers int64 scope request before after)
    (result : holds value after)
    : Serves int64 scope request before holds (.ok value, after)
  | error {error : ConversionError} {after : Progress}
    (steps : Registers int64 scope request before after)
    (blocked : Blocked scope request after error)
    : Serves int64 scope request before holds (.error error, after)

theorem Serves.registers {before : Progress} {holds : α → Progress → Prop}
    {outcome : Except ConversionError α × Progress}
    (serves : Serves int64 scope request before holds outcome)
    : Registers int64 scope request before outcome.2 := by
  cases serves with
  | ok steps _ => exact steps
  | error steps _ => exact steps

/-- A result may be described by what follows from its properties. -/
theorem Serves.imp {before : Progress} {holds more : α → Progress → Prop}
    {outcome : Except ConversionError α × Progress}
    (serves : Serves int64 scope request before holds outcome)
    (weaken
      : ∀ value after,
          Registers int64 scope request before after → holds value after → more value after)
    : Serves int64 scope request before more outcome := by
  cases serves with
  | ok steps result => exact .ok steps (weaken _ _ steps result)
  | error steps blocked => exact .error steps blocked

/-- Two parts serve a request one after the other, by cases on the outcome of the first. -/
theorem Serves.bind {before : Progress} {pass : Pass α} {next : α → Pass β}
    {first : α → Progress → Prop} {second : β → Progress → Prop}
    (head : Serves int64 scope request before first (exec pass before))
    (tail
      : ∀ value middle,
          Registers int64 scope request before middle
          → first value middle
          → Serves int64 scope request middle second (exec (next value) middle))
    : Serves int64 scope request before second (exec (pass >>= next) before) := by
  cases outcome : exec pass before with
  | mk result middle =>
      rw [outcome] at head
      cases head with
      | error steps blocked =>
          rw [exec_bind_error outcome]
          exact .error steps blocked
      | ok steps result =>
          rw [exec_bind_ok outcome]
          cases rest : exec (next _) middle with
          | mk final after =>
              have served := tail _ middle steps result
              rw [rest] at served
              cases served with
              | ok more result => exact .ok (steps.trans more) result
              | error more blocked => exact .error (steps.trans more) blocked

theorem Serves.map {before : Progress} {pass : Pass α} {holds : α → Progress → Prop}
    {more : β → Progress → Prop} {change : α → β}
    (serves : Serves int64 scope request before holds (exec pass before))
    (weaken : ∀ value after, holds value after → more (change value) after)
    : Serves int64 scope request before more
        (exec (pass >>= fun value => pure (change value)) before) :=
  serves.bind fun value _ _ result => .ok .refl (weaken value _ result)

/-- Serving the values of a message serves all its fields as well. -/
theorem Serves.values_fields {message : Message} {before : Progress}
    {holds : α → Progress → Prop} {outcome : Except ConversionError α × Progress}
    (serves : Serves int64 scope (.values message) before holds outcome)
    : Serves int64 scope (.fields message) before holds outcome := by
  cases serves with
  | ok steps result => exact .ok (Registers.values_fields steps) result
  | error steps blocked =>
      refine .error (Registers.values_fields steps) ?_
      cases blocked with
      | unknownType refers unregistered undeclared =>
          exact .unknownType (.shown refers) unregistered undeclared
      | unknownMember owner present named absent => exact .unknownMember owner present named absent
      | sharedTypeName allowed claimed rival => exact .sharedTypeName (.value allowed) claimed rival
      | takenByMember owner present allowed taken =>
          exact .takenByMember owner present allowed taken

/-- Serving a list of items in order keeps what each of them was given, by induction on the list.
-/
theorem Serves.mapM {pass : α → Pass β} (Typed : Progress → α → β → Prop)
    (target : β → TypeRef)
    (keep
      : ∀ before after item value,
          Typed before item value → before.Keeps after → Typed after item value)
    (items : List α)
    (each
      : ∀ item ∈ items,
        ∀ before,
          Serves int64 scope request before
            (fun value after => Typed after item value ∧ Explains before after [target value])
            (exec (pass item) before))
    (before : Progress)
    : Serves int64 scope request before
        (fun values after =>
          List.Forall₂ (Typed after) items values
          ∧ Explains before after (values.map target))
        (exec (items.mapM pass) before) := by
  induction items generalizing before with
  | nil => exact .ok .refl ⟨.nil, .refl before _⟩
  | cons item rest ih =>
      rw [List.mapM_cons]
      apply (each item List.mem_cons_self before).bind
      intro value middle _ typed
      have tail := ih (fun item member => each item (List.mem_cons_of_mem _ member)) middle
      refine (tail.imp fun values after steps result => ?_).map fun values after result => result
      exact ⟨.cons (keep _ _ _ _ typed.1 (Registers.keeps steps)) result.1,
        typed.2.append result.2 steps⟩

/-- The outcomes of registering a type under a name: it is accepted, or the name of the type is
claimed by another name, or the name has a type already.
-/
inductive Registered (progress : Progress) (name : String) (type : NamedType)
    : Except ConversionError TypeRef × Progress → Prop
  | accepted (free : ∀ owner, progress.claimed.get? type.name = some owner → owner = name)
    (fresh : progress.registry.get? name = none)
    : Registered progress name type
        (.ok (.named type.name),
          { progress with
            registry := progress.registry.insert name type
            claimed := progress.claimed.insert type.name name })
  | claimed {owner : String} (claimed : progress.claimed.get? type.name = some owner)
    (rival : owner ≠ name)
    : Registered progress name type
        (.error (.malformed (.sharedTypeName owner name type.name)), progress)
  | taken {old : NamedType} (found : progress.registry.get? name = some old)
    : Registered progress name type (.error (.malformed (.alreadyRegistered name)), progress)

/-- Registration has one of its outcomes, by cases on the claim and on the name. -/
theorem exec_register (name : String) (type : NamedType) (progress : Progress)
    : Registered progress name type (exec (register name type) progress) := by
  rw [register, exec_get_bind]
  cases claim : (progress.claimed.get? type.name).filter fun owner => owner ≠ name with
  | some owner =>
      obtain ⟨claimed, rival⟩ := Option.filter_eq_some_iff.mp claim
      simp only [Progress.register, claim]
      exact .claimed claimed (of_decide_eq_true rival)
  | none =>
      have free (owner : String) (claimed : progress.claimed.get? type.name = some owner)
          : owner = name := by
        simpa using Option.filter_eq_none_iff.mp claim owner claimed
      cases found : progress.registry.get? name with
      | some old =>
          simp only [Progress.register, claim, Registry.register, OrderedMap.insertNew?_eq, found]
          exact .taken found
      | none =>
          simp only [Progress.register, claim, Registry.register, OrderedMap.insertNew?_eq, found]
          exact .accepted free found

theorem Progress.reference?_enter (progress : Progress) (origin : Origin) (type : NamedType)
    : (progress.enter origin type).reference? origin.name = some (.named type.name) := by
  rw [Progress.reference?, Progress.registry_enter, if_pos rfl]
  rfl

/-- A type that was just entered is reached from its own name. -/
theorem Explains.enter (progress : Progress) (origin : Origin) (type : NamedType)
    : Explains progress (progress.enter origin type) [.named type.name] := by
  intro name other found
  rw [Progress.registry_enter] at found
  split at found
  · cases found
    exact .inr (.root (by simp [TypeRef.baseName]))
  · exact .inl found

/-- What was entered for an origin serves the request that allows it. -/
theorem Serves.enter {origin : Origin} {type : NamedType} {before : Progress}
    (allowed : request.Allows scope origin) (made : before.Makes int64 scope origin type)
    (fresh : before.registry.get? origin.name = none)
    (free : ∀ owner, before.claimed.get? type.name = some owner → owner = origin.name)
    : Serves int64 scope request before
        (fun reference after =>
          after.reference? origin.name = some reference ∧ Explains before after [reference])
        (.ok (.named type.name), before.enter origin type) :=
  .ok (.single (.enter allowed made fresh free))
    ⟨before.reference?_enter origin type, .enter before origin type⟩

/-- A node that may be registered is registered afterwards, under its own name; the cases are
those of the registration.
-/
theorem resolveNode_serves {node : Node} (allowed : request.Allows scope (.node node))
    (before : Progress)
    : Serves int64 scope request before
        (fun type after =>
          after.reference? node.name = some type ∧ Explains before after [type])
        (exec (resolveNode node) before) := by
  unfold resolveNode
  rw [exec_get_bind]
  cases known : before.reference? node.name with
  | some reference => exact .ok .refl ⟨known, .refl before _⟩
  | none =>
      have absent : before.registry.get? node.name = none := Option.map_eq_none_iff.mp known
      cases node with
      | enumeration content =>
          have outcome := exec_register content.name (.enumeration (enumType content)) before
          simp only
          cases run : exec (register content.name (.enumeration (enumType content))) before
          rw [run] at outcome
          cases outcome with
          | accepted free fresh => exact .enter allowed (.enumeration content) fresh free
          | claimed claimed rival => exact .error .refl (.sharedTypeName allowed claimed rival)
          | taken found => cases absent.symm.trans found
      | message content =>
          have outcome := exec_register content.name (objectType content) before
          have made : before.Makes int64 scope (.node (.message content)) (objectType content) :=
            .message content
          have named : (objectType content).name = typeName content.name := made.name
          simp only
          cases run : exec (register content.name (objectType content)) before
          rw [run] at outcome
          cases outcome with
          | accepted free fresh =>
              rw [exec_bind_ok run, exec_bind_ok (exec_modify _ _), exec_pure]
              exact .enter allowed made fresh free
          | claimed claimed rival =>
              rw [exec_bind_error run, named]
              rw [named] at claimed
              exact .error .refl (.sharedTypeName allowed claimed rival)
          | taken found => cases absent.symm.trans found

/-- A reference is resolved through the registry or by what it denotes. -/
theorem resolve_serves {reference : String} (refers : request.Refers reference)
    (before : Progress)
    : Serves int64 scope request before
        (fun type after => after.Resolves scope reference type ∧ Explains before after [type])
        (exec (resolve scope reference) before) := by
  unfold resolve
  rw [exec_get_bind]
  cases known : before.reference? (Name.dropLeadingDots reference) with
  | some type => exact .ok .refl ⟨.registered known, .refl before _⟩
  | none =>
      rw [Scope.find?_dropLeadingDots]
      cases denotes : scope.find? reference with
      | some node =>
          apply (resolveNode_serves (.found refers denotes) before).imp
          intro _ _ _ result
          exact ⟨.declared denotes result.1, result.2⟩
      | none =>
          have absent : before.registry.get? (Name.dropLeadingDots reference) = none :=
            Option.map_eq_none_iff.mp known
          exact .error .refl (.unknownType refers absent denotes)

-----------------------------------------------------------------------------------------
-- Converting the fields of a message
-----------------------------------------------------------------------------------------

/-- A shown field gets a base type, by cases on what it holds. -/
theorem baseType_serves {message : Message} {field : Field} (shown : message.Shows field)
    (before : Progress)
    : Serves int64 scope (.values message) before
        (fun type after =>
          after.TypesBase int64 scope message field type ∧ Explains before after [type])
        (exec (baseType int64 scope message field) before) := by
  unfold baseType
  cases keyed : field.mapKey with
  | some key =>
      apply (resolveNode_serves (.entry shown keyed) before).imp
      intro type after _ result
      have found := result.1
      simp only [Node.name, MapEntry.message] at found
      exact ⟨.entry keyed found, result.2⟩
  | none =>
      cases type : field.type with
      | scalar kind => exact .ok .refl ⟨.scalar keyed type, .refl before _⟩
      | named reference =>
          apply (resolve_serves (.value shown keyed type) before).imp
          intro _ after _ result
          exact ⟨.reference keyed type result.1, result.2⟩

/-- Lists and exclusions of null do not change the innermost name. -/
@[simp] theorem baseName_wrapType (field : Field) (base : TypeRef)
    : (wrapType field base).baseName = base.baseName := by
  unfold wrapType
  cases field.repeated <;> cases field.required <;> cases base <;> rfl

theorem fieldType_serves {message : Message} {field : Field} (shown : message.Shows field)
    (before : Progress)
    : Serves int64 scope (.values message) before
        (fun type after =>
          after.TypesField int64 scope message field type ∧ Explains before after [type])
        (exec (fieldType int64 scope message field) before) := by
  unfold fieldType
  refine (baseType_serves shown before).map fun base after result => ⟨.wrapped result.1, ?_⟩
  intro name type found
  simpa using result.2 name type found

/-- A member of a group that the message has gets the type of the field that it names. -/
theorem memberType_serves {message : Message} {group member : String}
    (present : message.HasGroup group) (named : member ∈ message.memberNames group)
    (before : Progress)
    : Serves int64 scope (.values message) before
        (fun type after =>
          after.TypesMember int64 scope message member type ∧ Explains before after [type])
        (exec (memberType int64 scope message group member) before) := by
  unfold memberType
  cases found : message.field? member with
  | none => exact .error .refl (.unknownMember rfl present named found)
  | some field =>
      apply (fieldType_serves (.grouped present named found) before).imp
      intro _ after _ result
      exact ⟨⟨field, found, result.1⟩, result.2⟩

/-- Only types of the schema are registered while the members of a group get their types. -/
theorem Request.Allows.node_of_values {message : Message} {origin : Origin}
    (allowed : (Request.values message).Allows scope origin)
    : ∃ node, origin = .node node := by
  cases allowed with
  | found _ _ => exact ⟨_, rfl⟩
  | entry _ _ => exact ⟨_, rfl⟩

/-- What the members of a union explain is explained by the union. -/
theorem Explains.union {before middle : Progress} {message : Message} {group : String}
    {type : UnionType} (explains : Explains before middle type.members)
    (fresh : middle.registry.get? (groupName message group) = none)
    : Explains before (middle.enter (.group message group) (.union type)) [.named type.name] := by
  intro name other found
  rcases Explains.enter middle (.group message group) (.union type) name other found with
    earlier | path
  · refine (explains name other earlier).imp_right fun path => path.mono ?_ ?_
    · intro name type found
      refine ⟨type, ?_, rfl, List.Subset.refl _⟩
      rw [Progress.registry_enter, if_neg]
      · exact found
      · rintro rfl
        exact absurd (fresh.symm.trans found) (by simp)
    · intro root member
      have found : (middle.enter (.group message group) (.union type)).registry.get?
          (groupName message group) = some (.union type) := by
        rw [Progress.registry_enter, if_pos]
        rfl
      have root : (middle.enter (.group message group) (.union type)).Leads
          ([TypeRef.named type.name].map TypeRef.baseName) type.name :=
        .root (by simp [TypeRef.baseName])
      exact .follow root found rfl member
  · exact .inr path

/-- A group that the message has gets the union that is registered for it. While the members get
their types, nothing but one of the types of the schema can have taken the name of the union.
-/
theorem groupType_serves {message : Message} {group : String}
    (present : message.HasGroup group) (before : Progress)
    : Serves int64 scope (.fields message) before
        (fun type after =>
          after.reference? (groupName message group) = some type
          ∧ Explains before after [type])
        (exec (groupType int64 scope message group) before) := by
  unfold groupType
  rw [exec_get_bind]
  cases known : before.reference? (groupName message group) with
  | some type => exact .ok .refl ⟨known, .refl before _⟩
  | none =>
      have absent : before.registry.get? (groupName message group) = none :=
        Option.map_eq_none_iff.mp known
      have members := Serves.mapM
        (fun progress => progress.TypesMember int64 scope message) id
        (fun _ _ _ _ typed keeps => typed.keep keeps) (message.memberNames group)
        (fun _ named before => memberType_serves present named before) before
      refine Serves.bind
        (members.imp fun _ _ steps result => And.intro steps result).values_fields ?_
      intro values middle _ result
      rcases result with ⟨steps, typed, explains⟩
      rw [List.map_id] at explains
      have outcome := exec_register (groupName message group)
        (.union {
          name := typeName (groupName message group)
          description := (message.oneof? group).bind OneOf.comment
          members := values }) middle
      revert outcome
      generalize exec (register _ _) middle = run
      intro outcome
      cases outcome with
      | accepted free fresh =>
          refine .ok (.single (.enter (.group present) (.group typed) fresh free)) ⟨?_, ?_⟩
          · exact middle.reference?_enter (.group message group) _
          · exact Explains.union explains fresh
      | claimed claimed rival => exact .error .refl (.sharedTypeName (.group present) claimed rival)
      | taken found =>
          -- The name was free when the group was met, so the type of a member has taken it.
          rcases steps.made_of_new found with earlier | ⟨_, origin, allowed, named, _⟩
          · cases absent.symm.trans earlier
          · obtain ⟨node, rfl⟩ := allowed.node_of_values
            exact .error .refl (.takenByMember rfl present allowed named)

/-- Each property of a message gets its field, by cases on whether it is a group. -/
theorem slotField_serves {message : Message} {slot : Message.Slot}
    (member : slot ∈ message.slots) (before : Progress)
    : Serves int64 scope (.fields message) before
        (fun field after =>
          after.TypesSlot int64 scope message slot field ∧ Explains before after [field.type])
        (exec (slotField int64 scope message slot) before) := by
  cases slot with
  | single field =>
      obtain ⟨present, alone⟩ := Message.single_mem_slots.mp member
      apply (fieldType_serves (.single present alone) before).values_fields.map
      exact fun type after result => ⟨.single result.1, result.2⟩
  | group group =>
      apply (groupType_serves (Message.group_mem_slots.mp member) before).map
      exact fun type after result => ⟨.group result.1, result.2⟩

/-- The fields of a message match its properties one by one, by the rule for lists. -/
theorem messageFields_serves (message : Message) (before : Progress)
    : Serves int64 scope (.fields message) before
        (fun fields after =>
          List.Forall₂ (after.TypesSlot int64 scope message) message.slots fields
          ∧ Explains before after (fields.map FieldDefinition.type))
        (exec (messageFields int64 scope message) before) :=
  Serves.mapM (fun progress => progress.TypesSlot int64 scope message) FieldDefinition.type
    (fun _ _ _ _ typed keeps => typed.keep keeps) message.slots
    (fun _ member before => slotField_serves member before) before

end ProtoSchema.GraphQL
