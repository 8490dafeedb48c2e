import ProtoSchema.Proofs.GraphQL.Sources

/-! The translation of each source on its own, without a registry: what a type is by its
declaration and by what references denote. Where names do not collide, every registered type is
the translation of its source, whatever was registered before it.
-/

namespace ProtoSchema.GraphQL

open Schema

variable {int64 : Integer64} {scope : Scope} {asked : Request → Prop} {progress : Progress}

/-- The name of the type of a field's values: that of its map entries, of its scalar type, or of
what its reference denotes.
-/
def baseNameOf? (int64 : Integer64) (scope : Scope) (message : Message) (field : Field)
    : Option String :=
  match field.mapKey, field.type with
  | some key, _ => some (typeName (MapEntry.name message field key))
  | none, .scalar kind => some (kind.graphQL int64).name
  | none, .named reference => (scope.find? reference).map fun node => typeName node.name

/-- A list if the field is repeated, and without null if it is required. -/
def shapeOf (field : Field) (base : String) : TypeRef :=
  match field.repeated, field.required with
  | false, false => .named base
  | true, false => .list (.named base)
  | false, true => .nonNull (.named base)
  | true, true => .nonNull (.list (.named base))

/-- The type of a field. -/
def typeOf? (int64 : Integer64) (scope : Scope) (message : Message) (field : Field)
    : Option TypeRef :=
  (baseNameOf? int64 scope message field).map (shapeOf field)

/-- What stands in the place of a field: the field itself, or its group, which may be null. -/
def definitionOf? (int64 : Integer64) (scope : Scope) (message : Message) (field : Field)
    : Option FieldDefinition :=
  match field.oneof with
  | none =>
      (typeOf? int64 scope message field).map fun type =>
        { name := field.name, type, description := field.comment }
  | some group =>
      some {
        name := group
        type := .named (typeName (message.name ++ "." ++ group))
        description := (message.oneof? group).bind OneOf.comment }

/-- The fields of a message: those that have a place, in order. -/
def definitionsOf? (int64 : Integer64) (scope : Scope) (message : Message)
    : Option (List FieldDefinition) :=
  (Message.placed message.fields).mapM (definitionOf? int64 scope message)

/-- The types of the members of a group, in the order of its members. -/
def membersOf? (int64 : Integer64) (scope : Scope) (message : Message) (group : String)
    : Option (List TypeRef) :=
  (message.memberNames group).mapM fun member =>
    (message.field? member).bind (typeOf? int64 scope message)

/-- The symbols of an enumeration in order, with their numbers and comments. -/
def valuesOf (enumeration : Enumeration) : List EnumValue :=
  enumeration.values.keys.map fun symbol =>
    { name := symbol
      number := (enumeration.values.get? symbol).getD 0
      description := enumeration.comments.get? symbol }

/-- A type is the translation of a source. A message is an input object exactly if it is an input
message; its fields may be deferred, and are its translated fields otherwise.
-/
inductive Translates (int64 : Integer64) (scope : Scope) : Origin → NamedType → Prop
  | enumeration (content : Enumeration)
    : Translates int64 scope (.node (.enumeration content))
        (.enumeration {
          name := typeName content.name
          description := content.comment
          values := valuesOf content })
  | output {message : Message} {fields : Fields} (kind : message.isInput = false)
    (resolved
      : ∀ known, fields = .resolved known → definitionsOf? int64 scope message = some known)
    : Translates int64 scope (.node (.message message))
        (.object { name := typeName message.name, description := message.comment, fields })
  | input {message : Message} {fields : Fields} (kind : message.isInput = true)
    (resolved
      : ∀ known, fields = .resolved known → definitionsOf? int64 scope message = some known)
    : Translates int64 scope (.node (.message message))
        (.inputObject { name := typeName message.name, description := message.comment, fields })
  | group {message : Message} {group : String} {members : List TypeRef}
    (typed : membersOf? int64 scope message group = some members)
    : Translates int64 scope (.group message group)
        (.union {
          name := typeName (message.name ++ "." ++ group)
          description := (message.oneof? group).bind OneOf.comment
          members })

/-- Lists and exclusions of null around a named type come to its shape. -/
theorem wrapType_named (field : Field) (base : String)
    : wrapType field (.named base) = shapeOf field base := by
  unfold wrapType shapeOf
  cases field.repeated <;> cases field.required <;> rfl

/-- The registered names have sources. -/
def Progress.Sourced (progress : Progress) (scope : Scope) : Prop :=
  ∀ name type,
    progress.registry.get? name = some type
    → ∃ origin, Source scope origin ∧ origin.name = name

/-- A list whose elements are computed from those of another is its image, by induction on the
lists.
-/
theorem mapM_of_forall₂ {α β : Type} {Related : α → β → Prop} {compute : α → Option β}
    {items : List α} {values : List β} (all : List.Forall₂ Related items values)
    (each : ∀ item ∈ items, ∀ value, Related item value → compute item = some value)
    : items.mapM compute = some values := by
  induction all with
  | nil => rfl
  | cons head tail ih =>
      have first := each _ List.mem_cons_self _ head
      have rest := ih fun item member => each item (List.mem_cons_of_mem _ member)
      simp [List.mapM_cons, first, rest]

/-- What a reference in a source resolves to is registered for what it denotes, by cases on how it
was resolved.
-/
theorem Progress.Resolves.denotes {message : Message} {field : Field} {reference : String}
    {type : TypeRef} (resolves : progress.Resolves scope reference type)
    (free : CollisionFree scope) (sourced : progress.Sourced scope)
    (source : Source scope (.node (.message message))) (member : field ∈ message.fields)
    (named : field.type = .named reference)
    : ∃ node, scope.find? reference = some node ∧ progress.reference? node.name = some type := by
  cases resolves with
  | declared denotes found => exact ⟨_, denotes, found⟩
  | registered found =>
      -- The registry answers for the written name. That name is mentioned, so what is registered
      -- under it is a declared type, and the reference denotes the same one.
      obtain ⟨stored, registered, _⟩ := Progress.reference?_eq_some.mp found
      obtain ⟨origin, known, sameName⟩ := sourced _ stored registered
      obtain ⟨node, rfl, denotes⟩ :=
        find?_of_source free known sameName (.referenced (source.referenced member named))
      rw [← sameName] at found
      exact ⟨node, denotes, found⟩

section

variable {message : Message} (free : CollisionFree scope)
  (consistent : progress.Consistent int64 scope asked) (sourced : progress.Sourced scope)
  (source : Source scope (.node (.message message)))

include free consistent sourced source

/-- What a reference in a source resolves to is named after what it denotes. -/
theorem Progress.Resolves.translated {field : Field} {reference : String} {type : TypeRef}
    (resolves : progress.Resolves scope reference type) (member : field ∈ message.fields)
    (named : field.type = .named reference)
    : ∃ node, scope.find? reference = some node ∧ type = .named (typeName node.name) := by
  obtain ⟨node, denotes, found⟩ := resolves.denotes free sourced source member named
  exact ⟨node, denotes, consistent.reference_eq found⟩

/-- The base type of a field in a source is the one that its declaration names. -/
theorem Progress.TypesBase.translated {field : Field} {type : TypeRef}
    (based : progress.TypesBase int64 scope message field type) (member : field ∈ message.fields)
    : ∃ base, baseNameOf? int64 scope message field = some base ∧ type = .named base := by
  cases based with
  | scalar keyless kind =>
      refine ⟨_, ?_, rfl⟩
      rw [baseNameOf?, keyless, kind]
  | entry keyed found =>
      refine ⟨_, ?_, consistent.reference_eq found⟩
      rw [baseNameOf?, keyed]
  | reference keyless named resolves =>
      obtain ⟨node, denotes, same⟩ :=
        resolves.translated free consistent sourced source member named
      refine ⟨typeName node.name, ?_, same⟩
      simp only [baseNameOf?, keyless, named, denotes, Option.map_some]

theorem Progress.TypesField.translated {field : Field} {type : TypeRef}
    (typed : progress.TypesField int64 scope message field type)
    (member : field ∈ message.fields)
    : typeOf? int64 scope message field = some type := by
  cases typed with
  | wrapped based =>
      obtain ⟨base, named, rfl⟩ := based.translated free consistent sourced source member
      rw [typeOf?, named, Option.map_some, wrapType_named]

/-- The members of a group in a source have their translated types. -/
theorem Progress.TypesMember.translated {member : String} {type : TypeRef}
    (typed : progress.TypesMember int64 scope message member type)
    : ((message.field? member).bind (typeOf? int64 scope message)) = some type := by
  rcases typed with ⟨field, found, typed⟩
  rw [found]
  exact typed.translated free consistent sourced source (List.mem_of_find?_eq_some found)

/-- What stands in the place of a field in a source is translated from the field. -/
theorem Progress.TypesSlot.translated {field : Field} {definition : FieldDefinition}
    (typed : progress.TypesSlot int64 scope message (Message.slotOf field) definition)
    (member : field ∈ message.fields)
    : definitionOf? int64 scope message field = some definition := by
  cases grouped : field.oneof with
  | none =>
      simp only [Message.slotOf, grouped] at typed
      cases typed with
      | single typed =>
          have type := typed.translated free consistent sourced source member
          simp only [definitionOf?, grouped, type, Option.map_some]
  | some group =>
      simp only [Message.slotOf, grouped] at typed
      cases typed with
      | group found =>
          rw [consistent.reference_eq found]
          simp only [definitionOf?, grouped, groupName]

/-- The fields of a source are its translated fields. -/
theorem definitionsOf?_of_typed {fields : List FieldDefinition}
    (typed : List.Forall₂ (progress.TypesSlot int64 scope message) message.slots fields)
    : definitionsOf? int64 scope message = some fields := by
  rw [Message.slots_eq_placed, List.forall₂_map_left_iff] at typed
  apply mapM_of_forall₂ typed
  intro field member definition typed
  exact typed.translated free consistent sourced source (Message.mem_of_mem_placed member)

end

-----------------------------------------------------------------------------------------
-- Registered types
-----------------------------------------------------------------------------------------

/-- The type of an enumeration has its symbols with their numbers, since no symbol occurs twice.
-/
theorem enumType_eq (content : Enumeration)
    : enumType content
      = { name := typeName content.name
          description := content.comment
          values := valuesOf content } := by
  rw [enumType, valuesOf, OrderedMap.keys, Entries.keys, List.map_map]
  congr 1
  apply List.map_congr_left
  intro entry member
  have found : content.values.get? entry.1 = some entry.2 := OrderedMap.mem_entries_iff.mp member
  simp only [Function.comp_apply, found, Option.getD_some]

/-- A type that comes from a source is its translation, by cases on the source. -/
theorem Progress.Comes.translates {origin : Origin} {type : NamedType} (free : CollisionFree scope)
    (consistent : progress.Consistent int64 scope asked) (sourced : progress.Sourced scope)
    (source : Source scope origin) (comes : progress.Comes int64 scope origin type)
    : Translates int64 scope origin type := by
  cases comes with
  | @filled message fields typed =>
      have translated := definitionsOf?_of_typed free consistent sourced source typed
      have resolved (known : List FieldDefinition)
          (same : Fields.resolved fields = .resolved known)
          : definitionsOf? int64 scope message = some known := by
        rw [translated, Fields.resolved.inj same]
      unfold objectType
      cases kind : message.isInput with
      | false => exact .output kind resolved
      | true => exact .input kind resolved
  | made made =>
      cases made with
      | enumeration content =>
          rw [enumType_eq]
          exact .enumeration content
      | message content =>
          unfold objectType
          cases kind : content.isInput with
          | false => exact .output kind fun known impossible => by cases impossible
          | true => exact .input kind fun known impossible => by cases impossible
      | @group message group members typed =>
          cases source with
          | group owner present =>
              refine .group (mapM_of_forall₂ typed fun member _ type typed => ?_)
              exact typed.translated free consistent sourced owner

/-- In consistent progress every registered name has a source. -/
theorem Progress.Consistent.sourced (consistent : progress.Consistent int64 scope asked)
    (free : CollisionFree scope)
    (closed : ∀ request, asked request → request.message? = none)
    : progress.Sourced scope := by
  intro name stored registered
  obtain ⟨origin, known, named, _⟩ := consistent.sound registered
  exact ⟨origin, known.source free closed, named⟩

/-- In consistent progress every registered type is the translation of what it was made from. -/
theorem Progress.Consistent.translates {name : String} {type : NamedType}
    (consistent : progress.Consistent int64 scope asked) (free : CollisionFree scope)
    (closed : ∀ request, asked request → request.message? = none)
    (found : progress.registry.get? name = some type)
    : ∃ origin,
        Known scope asked origin ∧ origin.name = name ∧ Translates int64 scope origin type := by
  have sourced := consistent.sourced free closed
  obtain ⟨origin, known, named, comes⟩ := consistent.sound found
  exact ⟨origin, known, named,
    comes.translates free consistent sourced (known.source free closed)⟩

/-- The request is about no message, like those that calls make. -/
def IsOpen (request : Request) : Prop :=
  request.message? = none

theorem Call.request?_isOpen {call : Call} {request : Request}
    (asks : call.request? = some request)
    : IsOpen request := by
  cases call <;> cases asks <;> rfl

/-- Calls preserve the invariant of a conversion, and lead to nothing but what they ask for. -/
theorem Progress.afterCalls_consistent (int64 : Integer64) (scope : Scope) (calls : List Call)
    : (Progress.afterCalls int64 scope {} calls).Consistent int64 scope IsOpen :=
  Steps.consistent
    (Progress.afterCalls_steps calls (fun _ _ _ asks => Call.request?_isOpen asks) {})
    Progress.consistent_start

/-- Where names do not collide, a registered type is exactly the translation of its source, after
any calls in any order, also after calls that failed: its name has one source, and the type is
what that source is translated to on its own.
-/
theorem registered_translates {int64 : Integer64} {scope : Scope} (free : CollisionFree scope)
    (calls : List Call) {name : String} {type : NamedType}
    (found : (Progress.afterCalls int64 scope {} calls).registry.get? name = some type)
    : ∃ origin,
        Source scope origin
        ∧ origin.name = name
        ∧ (∀ other, Source scope other → other.name = name → other = origin)
        ∧ Translates int64 scope origin type := by
  have steps : Steps int64 scope IsOpen {} (Progress.afterCalls int64 scope {} calls) :=
    Progress.afterCalls_steps calls (fun _ _ _ asks => Call.request?_isOpen asks) {}
  have consistent := Steps.consistent steps Progress.consistent_start
  obtain ⟨origin, known, named, translates⟩ :=
    consistent.translates free (fun _ apart => apart) found
  have source := known.source free fun _ apart => apart
  refine ⟨origin, source, named, fun other otherSource otherNamed => ?_, translates⟩
  exact otherSource.unique free source (otherNamed.trans named.symm)

/-- The group of a message that refers to itself is translated on its own, also after a call that
failed.
-/
theorem selfReference_translates
    : ∃ origin,
        Source selfReference origin
        ∧ origin.name = "Person.contact"
        ∧ Translates .text selfReference origin
            (.union {
              name := "Person_contact"
              members := [.named "String", .named "Person"] }) := by
  let calls : List Call := [.resolve "Missing", .build, .schemas]
  have found
      : (Progress.afterCalls .text selfReference {} calls).registry.get? "Person.contact"
        = some
            (.union {
              name := "Person_contact"
              members := [.named "String", .named "Person"] }) := by
    decide +kernel
  obtain ⟨origin, source, named, _, translates⟩ :=
    registered_translates selfReference_collisionFree calls found
  exact ⟨origin, source, named, translates⟩

end ProtoSchema.GraphQL
