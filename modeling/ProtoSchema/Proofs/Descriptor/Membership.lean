import Mathlib.Data.List.Lattice
import Mathlib.Data.List.Pairwise
import ProtoSchema.Proofs.Descriptor.DocumentOrder
import ProtoSchema.Proofs.GraphQL.Shapes
import ProtoSchema.Proofs.Lockstep
import ProtoSchema.Proofs.TypeScript.Properties

/-! Fields and the groups that list them. Groups are read one after the other, and a field is a member
of the last one that lists it, while the groups before it still list it as well. So the two views of
membership agree exactly if no field is listed by two groups, and the fields and properties that the
conversions of the message give show each of its fields once exactly if none is listed twice by one
group either.
-/

namespace ProtoSchema.Descriptor

open Schema
open Execution
open Json (DistinctMembers)

variable {before after : List FieldDeclaration} {oneofs : List OneOf} {owner : String}

-----------------------------------------------------------------------------------------
-- Reading groups
-----------------------------------------------------------------------------------------

/-- The last of the groups that lists the field. -/
def lastGroup? (oneofs : List OneOf) (field : String) : Option OneOf :=
  oneofs.reverse.find? fun oneof => field ∈ oneof.members

theorem lastGroup?_eq_some {field : String} {oneof : OneOf}
    (found : lastGroup? oneofs field = some oneof)
    : oneof ∈ oneofs ∧ field ∈ oneof.members :=
  ⟨List.mem_reverse.mp (List.mem_of_find?_eq_some found), by simpa using List.find?_some found⟩

theorem lastGroup?_isSome {field : String} {oneof : OneOf} (member : oneof ∈ oneofs)
    (lists : field ∈ oneof.members)
    : ∃ last, lastGroup? oneofs field = some last := by
  rw [← Option.isSome_iff_exists, lastGroup?, List.find?_isSome]
  exact ⟨oneof, List.mem_reverse.mpr member, by simpa using lists⟩

/-- The field as a member of the group if it is listed, and as it is otherwise. -/
def joined (group : String) (members : List String) (field : FieldDeclaration)
    : FieldDeclaration :=
  if field.name ∈ members then { field with oneof := some group } else field

/-- The field as a member of the last group that lists it, and as it is if none does. -/
def enrolled (oneofs : List OneOf) (field : FieldDeclaration) : FieldDeclaration :=
  { field with oneof := (lastGroup? oneofs field.name).map OneOf.name <|> field.oneof }

@[simp] theorem name_joined (group : String) (members : List String) (field : FieldDeclaration)
    : (joined group members field).name = field.name := by
  unfold joined
  split <;> rfl

/-- A field joins the first group before it joins the others. -/
theorem enrolled_cons (oneof : OneOf) (rest : List OneOf) (field : FieldDeclaration)
    : enrolled (oneof :: rest) field = enrolled rest (joined oneof.name oneof.members field) := by
  have last : lastGroup? (oneof :: rest) field.name
      = (lastGroup? rest field.name).or
          (if field.name ∈ oneof.members then some oneof else none) := by
    rw [lastGroup?, List.reverse_cons, List.find?_append, lastGroup?]
    congr 1
    by_cases lists : field.name ∈ oneof.members <;> simp [lists]
  unfold enrolled
  rw [last, name_joined]
  unfold joined
  cases lastGroup? rest field.name <;> by_cases lists : field.name ∈ oneof.members <;> simp [lists]

theorem joinGroup_eq_ok {group member : String}
    : joinGroup owner group before member = .ok after
      ↔ member ∈ before.map FieldDeclaration.name
        ∧ after = before.map (joined group [member]) := by
  have same : (before.map fun field =>
      if field.name = member then { field with oneof := some group } else field)
        = before.map (joined group [member]) :=
    List.map_congr_left fun field _ => by simp [joined]
  have found : (before.any fun field => field.name = member) = true
      ↔ member ∈ before.map FieldDeclaration.name := by
    simp
  rw [joinGroup, same]
  split
  · next present => simp [found.mp present, eq_comm]
  · next absent => simp [mt found.mpr absent]

/-- The members of a group join it, provided that they are fields; by induction on them. -/
theorem foldlM_joinGroup_eq_ok {group : String} {members : List String}
    : members.foldlM (joinGroup owner group) before = .ok after
      ↔ members ⊆ before.map FieldDeclaration.name
        ∧ after = before.map (joined group members) := by
  induction members generalizing before with
  | nil =>
      have kept : joined group [] = id := by
        funext field
        simp [joined]
      rw [List.foldlM_nil, kept, List.map_id]
      simp [pure, Except.pure, eq_comm]
  | cons member rest ih =>
      have names : (before.map (joined group [member])).map FieldDeclaration.name
          = before.map FieldDeclaration.name := by
        simp [Function.comp_def]
      have both : (before.map (joined group [member])).map (joined group rest)
          = before.map (joined group (member :: rest)) := by
        rw [List.map_map]
        refine List.map_congr_left fun field _ => ?_
        simp only [Function.comp_apply, joined, List.mem_cons]
        by_cases first : field.name = member <;> by_cases later : field.name ∈ rest <;>
          simp [first, later]
      rw [List.foldlM_cons, Outcome.bind_eq_ok, List.cons_subset]
      simp only [joinGroup_eq_ok, ih]
      constructor
      · rintro ⟨_, ⟨present, rfl⟩, others, same⟩
        rw [names] at others
        rw [both] at same
        exact ⟨⟨present, others⟩, same⟩
      · rintro ⟨⟨present, others⟩, same⟩
        rw [← names] at others
        rw [← both] at same
        exact ⟨_, ⟨present, rfl⟩, others, same⟩

/-- The groups that are kept list fields only, and each field joins the last of them that lists it; by
induction on what is read.
-/
theorem groupsOf_eq_ok {groups : Entries Json}
    (success : groupsOf owner before groups = .ok (after, oneofs))
    : (∀ oneof ∈ oneofs, oneof.members ⊆ before.map FieldDeclaration.name)
      ∧ after = before.map (enrolled oneofs) := by
  induction groups generalizing before after oneofs with
  | nil =>
      cases success
      exact ⟨fun _ member => absurd member List.not_mem_nil, (List.map_id _).symm⟩
  | cons entry rest ih =>
      obtain ⟨group, value⟩ := entry
      rw [groupsOf] at success
      obtain ⟨members, _, reads⟩ := Outcome.bind_eq_ok.mp success
      split at reads
      · exact ih reads
      · obtain ⟨middle, joins, reads⟩ := Outcome.bind_eq_ok.mp reads
        obtain ⟨⟨last, others⟩, later, same⟩ := Outcome.bind_eq_ok.mp reads
        cases same
        obtain ⟨present, rfl⟩ := foldlM_joinGroup_eq_ok.mp joins
        obtain ⟨listed, rfl⟩ := ih later
        have names : (before.map (joined group members)).map FieldDeclaration.name
            = before.map FieldDeclaration.name := by
          simp [Function.comp_def]
        rw [names] at listed
        refine ⟨List.forall_mem_cons.mpr ⟨present, listed⟩, ?_⟩
        rw [List.map_map]
        refine List.map_congr_left fun field _ => ?_
        rw [enrolled_cons, Function.comp_apply]

-----------------------------------------------------------------------------------------
-- Messages and their groups
-----------------------------------------------------------------------------------------

/-- Groups list only fields, and each field names the last group that lists it. -/
structure Enrolled {α : Type} (name : α → String) (oneof : α → Option String) (fields : List α)
    (oneofs : List OneOf)
    : Prop where
  listed : ∀ group ∈ oneofs, group.members ⊆ fields.map name
  last : ∀ field ∈ fields, oneof field = (lastGroup? oneofs (name field)).map OneOf.name

/-- The members of an object give a message whose fields are enrolled in its groups. -/
theorem messageOf_enrolled {name : String} {members : Entries Json} {content : MessageDeclaration}
    (success : messageOf name members = .ok content)
    : Enrolled FieldDeclaration.name FieldDeclaration.oneof content.fields content.oneofs := by
  obtain ⟨_, _, before, _, read, groups⟩ := messageOf_reads success
  obtain ⟨listed, joined⟩ := groupsOf_eq_ok groups
  rw [joined]
  refine ⟨?_, fun field member => ?_⟩
  · rw [List.map_map]
    exact listed
  · obtain ⟨field, present, rfl⟩ := List.mem_map.mp member
    obtain ⟨_, _, success⟩ := Outcome.exists_of_mem_mapM read present
    have alone := (fieldOf_eq_ok success).2
    simp only [enrolled, alone]
    rw [Option.orElse_eq_orElse, Option.orElse_eq_or, Option.or_none]

/-- The fields of the message are enrolled in its groups. -/
def MessageEnrolled (message : Message) : Prop :=
  Enrolled Field.name Field.oneof message.fields message.oneofs

/-- A field names a group exactly if a group of that name lists it. -/
def MembershipAgrees (message : Message) : Prop :=
  ∀ field ∈ message.fields, ∀ group,
    field.oneof = some group
    ↔ ∃ oneof ∈ message.oneofs, oneof.name = group ∧ field.name ∈ oneof.members

/-- What a conversion has for the places of the message shows each of its fields once, for itself or
as a member of a group.
-/
def ShownOnce {α : Type} (Shows : Message.Slot → α → List Field → Prop) (message : Message)
    (properties : List α)
    : Prop :=
  ∃ shown : List (List Field),
    SideBySide Shows message.slots properties shown ∧ shown.flatten.Perm message.fields

section Agreement

variable {message : Message} (grouped : message.Grouped)

include grouped

theorem memberNames_eq {oneof : OneOf} (present : oneof ∈ message.oneofs)
    : message.memberNames oneof.name = oneof.members := by
  rw [Message.memberNames, grouped.oneof?_of_mem present]

/-- Where the two views of membership agree, a field is shown in the place that its group has, or in
its own.
-/
theorem slot_eq_slotOf (agrees : MembershipAgrees message) {slot : Message.Slot}
    (place : slot ∈ message.slots) {field : Field}
    (shown : field ∈ message.slotFields slot)
    : slot = Message.slotOf field := by
  cases slot with
  | single other =>
      cases List.mem_singleton.mp shown
      rw [Message.slotOf, (Message.single_mem_slots.mp place).2]
  | group group =>
      obtain ⟨other, member, named⟩ := Message.group_mem_slots.mp place
      obtain ⟨oneof, present, rfl, _⟩ := grouped.joined other member group named
      rw [Message.slotFields, Message.namedFields, memberNames_eq grouped present] at shown
      obtain ⟨name, lists, found⟩ := List.mem_filterMap.mp shown
      have same : field.name = name := by simpa using List.find?_some found
      have inside : field ∈ message.fields := List.mem_of_find?_eq_some found
      have joins : field.oneof = some oneof.name :=
        (agrees field inside oneof.name).mpr ⟨oneof, present, rfl, same ▸ lists⟩
      rw [Message.slotOf, joins]

/-- What is shown are the fields of the message; those that name a group are listed by it. -/
theorem mem_shownFields_iff {field : Field}
    : field ∈ message.shownFields ↔ field ∈ message.fields := by
  rw [Message.shownFields, List.mem_flatMap]
  constructor
  · rintro ⟨slot, place, shown⟩
    cases slot with
    | single other =>
        cases List.mem_singleton.mp shown
        exact (Message.single_mem_slots.mp place).1
    | group group =>
        obtain ⟨_, _, found⟩ := List.mem_filterMap.mp shown
        exact List.mem_of_find?_eq_some found
  · intro member
    cases named : field.oneof with
    | none =>
        have place := Message.single_mem_slots.mpr ⟨member, named⟩
        exact ⟨.single field, place, List.mem_singleton.mpr rfl⟩
    | some group =>
        obtain ⟨oneof, present, rfl, lists⟩ := grouped.joined field member group named
        refine ⟨.group oneof.name, Message.group_mem_slots.mpr ⟨field, member, named⟩, ?_⟩
        rw [Message.slotFields, Message.namedFields, memberNames_eq grouped present]
        exact List.mem_filterMap.mpr ⟨field.name, lists, grouped.field? member⟩

variable (enrolled : MessageEnrolled message)

include enrolled

/-- The two views of membership agree exactly if no field is listed by two groups. -/
theorem membershipAgrees_iff
    : MembershipAgrees message
      ↔ message.oneofs.Pairwise fun first second => first.members.Disjoint second.members := by
  have unique {first second : OneOf} (left : first ∈ message.oneofs)
      (right : second ∈ message.oneofs) (same : first.name = second.name)
      : first = second :=
    List.inj_on_of_nodup_map grouped.groupNames left right same
  constructor
  · intro agrees
    refine List.Nodup.pairwise_of_forall_ne (.of_map _ grouped.groupNames) ?_
    intro first left second right apart name inFirst inSecond
    obtain ⟨field, member, rfl⟩ := List.mem_map.mp (enrolled.listed first left inFirst)
    have names := (agrees field member first.name).mpr ⟨first, left, rfl, inFirst⟩
    have others := (agrees field member second.name).mpr ⟨second, right, rfl, inSecond⟩
    exact apart (unique left right (Option.some.inj (names.symm.trans others)))
  · intro disjoint field member group
    refine ⟨grouped.joined field member group, ?_⟩
    rintro ⟨oneof, present, rfl, lists⟩
    obtain ⟨last, found⟩ := lastGroup?_isSome present lists
    obtain ⟨inside, listed⟩ := lastGroup?_eq_some found
    have symmetric : Std.Symm fun first second : OneOf =>
        first.members.Disjoint second.members :=
      ⟨fun _ _ => List.Disjoint.symm⟩
    have same : last = oneof := by
      by_contra other
      exact disjoint.forall inside present other listed lists
    rw [enrolled.last field member, found, same]
    rfl

/-- Each listed name is that of a field. -/
theorem exists_field_of_listed {oneof : OneOf} (present : oneof ∈ message.oneofs) {name : String}
    (lists : name ∈ oneof.members)
    : ∃ field, message.field? name = some field := by
  obtain ⟨field, member, rfl⟩ := List.mem_map.mp (enrolled.listed oneof present lists)
  exact ⟨field, grouped.field? member⟩

/-- The fields of a group have the names of its members. -/
theorem names_namedFields {oneof : OneOf} (present : oneof ∈ message.oneofs)
    : (message.namedFields oneof.name).map Field.name = oneof.members := by
  rw [Message.namedFields, memberNames_eq grouped present, List.map_filterMap]
  have each (name : String) (lists : name ∈ oneof.members)
      : (message.field? name).map Field.name = some name := by
    obtain ⟨field, found⟩ := exists_field_of_listed grouped enrolled present lists
    have named : field.name = name := by simpa using List.find?_some found
    rw [found, Option.map_some, named]
  rw [List.filterMap_congr each, List.filterMap_some]

/-- No field is shown twice if no field is listed twice. -/
theorem nodup_shownFields (agrees : MembershipAgrees message)
    (once : ∀ oneof ∈ message.oneofs, oneof.members.Nodup)
    : message.shownFields.Nodup := by
  refine List.nodup_flatMap.mpr ⟨fun slot place => ?_, ?_⟩
  · cases slot with
    | single field => exact List.nodup_singleton field
    | group group =>
        obtain ⟨field, member, named⟩ := Message.group_mem_slots.mp place
        obtain ⟨oneof, present, rfl, _⟩ := grouped.joined field member group named
        have distinct : ((message.namedFields oneof.name).map Field.name).Nodup := by
          rw [names_namedFields grouped enrolled present]
          exact once oneof present
        exact distinct.of_map
  · have places : message.slots.Nodup :=
      Message.nodup_slotsAfter (.of_map Field.name grouped.fieldNames) []
    refine places.pairwise_of_forall_ne fun first left second right apart field => ?_
    intro inFirst inSecond
    have same := slot_eq_slotOf grouped agrees left inFirst
    exact apart (same.trans (slot_eq_slotOf grouped agrees right inSecond).symm)

/-- No group lists a field twice if no field is shown twice. A group without members has no place, so
nothing is shown for it.
-/
theorem nodup_members (agrees : MembershipAgrees message)
    (distinct : message.shownFields.Nodup) {oneof : OneOf}
    (present : oneof ∈ message.oneofs)
    : oneof.members.Nodup := by
  by_cases empty : oneof.members = []
  · rw [empty]
    exact List.nodup_nil
  · obtain ⟨name, lists⟩ := List.exists_mem_of_ne_nil _ empty
    obtain ⟨field, member, rfl⟩ := List.mem_map.mp (enrolled.listed oneof present lists)
    have joins : field.oneof = some oneof.name :=
      (agrees field member oneof.name).mpr ⟨oneof, present, rfl, lists⟩
    have place : Message.Slot.group oneof.name ∈ message.slots :=
      Message.group_mem_slots.mpr ⟨field, member, joins⟩
    have inside {field : Field} (shows : field ∈ message.namedFields oneof.name)
        : field ∈ message.fields :=
      (mem_shownFields_iff grouped).mp (List.mem_flatMap.mpr ⟨_, place, shows⟩)
    rw [← names_namedFields grouped enrolled present]
    refine ((List.nodup_flatMap.mp distinct).1 _ place).map_on fun first left second right same => ?_
    exact List.inj_on_of_nodup_map grouped.fieldNames (inside left) (inside right) same

/-- The two views of membership agree and the places show each field once exactly if no field is listed
twice, be it by two groups or by one.
-/
theorem shownFields_perm_iff
    : MembershipAgrees message ∧ message.shownFields.Perm message.fields
      ↔ (message.oneofs.flatMap OneOf.members).Nodup := by
  have disjoint := membershipAgrees_iff grouped enrolled
  have fields : message.fields.Nodup := .of_map Field.name grouped.fieldNames
  rw [List.nodup_flatMap]
  constructor
  · rintro ⟨agrees, shown⟩
    have distinct := shown.nodup_iff.mpr fields
    exact ⟨fun _ => nodup_members grouped enrolled agrees distinct, disjoint.mp agrees⟩
  · rintro ⟨once, apart⟩
    have agrees := disjoint.mpr apart
    have distinct := nodup_shownFields grouped enrolled agrees once
    refine ⟨agrees, (List.perm_ext_iff_of_nodup distinct fields).mpr fun field => ?_⟩
    exact mem_shownFields_iff grouped

/-- So it is with what a conversion has for the places, if that shows the fields of each and no others.
-/
theorem shownOnce_iff {α : Type} {Shows : Message.Slot → α → List Field → Prop}
    {properties : List α}
    (all : SideBySide Shows message.slots properties (message.slots.map message.slotFields))
    (only : ∀ slot property fields, Shows slot property fields → fields = message.slotFields slot)
    : MembershipAgrees message ∧ ShownOnce Shows message properties
      ↔ (message.oneofs.flatMap OneOf.members).Nodup := by
  have once : ShownOnce Shows message properties ↔ message.shownFields.Perm message.fields := by
    rw [Message.shownFields, List.flatMap_def]
    constructor
    · rintro ⟨shown, places, each⟩
      rw [places.eq_map only] at each
      exact each
    · exact fun each => ⟨_, all, each⟩
  rw [once]
  exact shownFields_perm_iff grouped enrolled

/-- The conversion to GraphQL shows each field once exactly if no field is listed twice, where it
registers a union for each group.
-/
theorem graphQL_shownOnce_iff {int64 : Integer64} {scope : Scope} {start last : GraphQL.Progress}
    {definitions : List GraphQL.FieldDefinition}
    (converted
      : exec (GraphQL.messageFields int64 scope message) start = (.ok definitions, last))
    (unions
      : ∀ group,
          message.HasGroup group
          → start.registry.get? (GraphQL.groupName message group) = none
            ∧ ∃ union,
                last.registry.get? (GraphQL.groupName message group) = some (.union union))
    : MembershipAgrees message ∧ ShownOnce (last.Shows int64 scope message) message definitions
      ↔ (message.oneofs.flatMap OneOf.members).Nodup := by
  have serves := @GraphQL.messageFields_serves int64 scope message start
  rw [converted] at serves
  cases serves with
  | ok steps result =>
      refine shownOnce_iff grouped enrolled ?_ fun _ _ _ => GraphQL.Progress.Shows.fields_eq
      refine SideBySide.of_forall₂ _ result.1 fun slot member definition typed => ?_
      refine GraphQL.Registers.shows_of_typesSlot steps (fun group same => ?_) typed
      exact unions group (Message.group_mem_slots.mp (same ▸ member))

/-- So does the conversion to TypeScript, without that proviso. -/
theorem typeScript_shownOnce_iff {style : TypeScript.CommentStyle} {int64 : Integer64}
    {scope : Scope} {start last : TypeScript.Progress} {text : String}
    (declared
      : exec (TypeScript.declaration style int64 scope (.message message)) start
        = (.ok text, last))
    : ∃ properties : List TypeScript.Property,
        text
          = TypeScript.printInterface style message
              (properties.map (TypeScript.Property.print style))
        ∧ (MembershipAgrees message
            ∧ ShownOnce (TypeScript.Shows int64 scope message) message properties
          ↔ (message.oneofs.flatMap OneOf.members).Nodup) := by
  obtain ⟨written, groups⟩ := TypeScript.properties_of_declaration declared
  have members (group : String) (present : message.HasGroup group)
      : TypeScript.groupFields message group = message.namedFields group := by
    rw [TypeScript.groupFields, (Message.ownMembers_iff groups).mp grouped.ownMembers group present]
  refine ⟨_, written, shownOnce_iff grouped enrolled ?_ fun _ _ _ => TypeScript.Shows.fields_eq⟩
  have places
      : List.Forall₂ (fun slot property => property = TypeScript.propertyOf int64 scope message slot)
          message.slots (message.slots.map (TypeScript.propertyOf int64 scope message)) :=
    List.forall₂_map_right_iff.mpr (List.forall₂_same.mpr fun _ _ => rfl)
  refine SideBySide.of_forall₂ _ places fun slot member property same => ?_
  rw [same]
  refine TypeScript.shows_propertyOf fun group place => ?_
  exact members group (Message.group_mem_slots.mp (place ▸ member))

end Agreement

-----------------------------------------------------------------------------------------
-- Loaded messages
-----------------------------------------------------------------------------------------

/-- The fields and groups of a message that a document gives fit together, and its fields are enrolled
in its groups.
-/
theorem read_grouped_enrolled {document : Json} {declared : List Declaration} {catalog : Catalog}
    (distinct : document.DistinctKeys) (given : declarations document = .ok declared)
    {message : Message} (member : .message message ∈ declared.map (read declared catalog))
    : message.Grouped ∧ MessageEnrolled message := by
  obtain ⟨declaration, present, same⟩ := List.mem_map.mp member
  obtain ⟨site, met, reads⟩ := (mem_declarations_iff given declaration).mp present
  cases reads with
  | enumeration _ _ => cases same
  | @message content _ success =>
      cases same
      have grouped := declarations_grouped distinct given content present
      have enrolled := messageOf_enrolled success
      refine ⟨grouped.of_read rfl, ?_, List.forall_mem_map.mpr enrolled.last⟩
      rw [names_readField]
      exact enrolled.listed

/-- Membership in groups, for every message that a load adds. Its groups list only fields of the
message. A field names a group exactly if a group of that name lists it, unless some field is listed
by two groups; then it names only the last of them. And besides that, the conversions of the message
show each of its fields once, unless some group lists a field twice; that to GraphQL shows a group by
a union, so it must have registered one for each group.
-/
theorem membership_agrees_iff {catalog after : Catalog} {document : Json}
    (distinct : document.DistinctKeys)
    (success : loadDocument catalog document = (.ok (), after))
    : ∃ nodes : List Node,
        after.types.entries = catalog.types.entries ++ nodes.map (fun node => (node.name, node))
        ∧ ∀ message,
            .message message ∈ nodes
            → (∀ oneof ∈ message.oneofs, oneof.members ⊆ message.fields.map Field.name)
              ∧ (MembershipAgrees message
                ↔ message.oneofs.Pairwise fun first second =>
                    first.members.Disjoint second.members)
              ∧ (∀ int64 scope start definitions last,
                  exec (GraphQL.messageFields int64 scope message) start = (.ok definitions, last)
                  → (∀ group,
                      message.HasGroup group
                      → start.registry.get? (GraphQL.groupName message group) = none
                        ∧ ∃ union,
                            last.registry.get? (GraphQL.groupName message group)
                            = some (.union union))
                  → (MembershipAgrees message
                      ∧ ShownOnce (last.Shows int64 scope message) message definitions
                    ↔ (message.oneofs.flatMap OneOf.members).Nodup))
              ∧ ∀ style int64 scope start text last,
                  exec (TypeScript.declaration style int64 scope (.message message)) start
                    = (.ok text, last)
                  → ∃ properties : List TypeScript.Property,
                      text
                        = TypeScript.printInterface style message
                            (properties.map (TypeScript.Property.print style))
                      ∧ (MembershipAgrees message
                          ∧ ShownOnce (TypeScript.Shows int64 scope message) message properties
                        ↔ (message.oneofs.flatMap OneOf.members).Nodup) := by
  obtain ⟨declared, given, adds⟩ := loadDocument_reads success
  refine ⟨_, adds, fun message member => ?_⟩
  obtain ⟨grouped, enrolled⟩ := read_grouped_enrolled distinct given member
  refine ⟨enrolled.listed, membershipAgrees_iff grouped enrolled, ?graphQL, ?typeScript⟩
  case graphQL =>
    exact fun _ _ _ _ _ converted unions => graphQL_shownOnce_iff grouped enrolled converted unions
  case typeScript =>
    exact fun _ _ _ _ _ _ declared => typeScript_shownOnce_iff grouped enrolled declared

/-- A document with a message that has two fields and groups with these members. -/
def groupDocument (groups : Entries (List String)) : Json :=
  namespaceOf [
    ("M", .object [
      ("fields", .object [
        ("x", .object [("type", .text "string")]),
        ("y", .object [("type", .text "string")])]),
      ("oneofs", .object
        (groups.map fun entry =>
          (entry.1, .object [("oneof", .array (entry.2.map .text))])))])]

theorem groupDocument_distinct {groups : Entries (List String)} (distinct : groups.keys.Nodup)
    : (groupDocument groups).DistinctKeys := by
  have oneofs
      : DistinctMembers
          (groups.map fun entry =>
            (entry.1, Json.object [("oneof", .array (entry.2.map .text))])) := by
    refine ⟨?_, List.forall_mem_map.mpr fun entry _ => ?_⟩
    · rw [Entries.keys, List.map_map]
      exact distinct
    · rw [Json.distinctKeys_object_iff, Json.distinctMembers_cons]
      refine ⟨List.not_mem_nil, .array (List.forall_mem_map.mpr fun member _ => .text member), ?_⟩
      exact Json.distinctMembers_nil
  simp [groupDocument, namespaceOf, Json.distinctKeys_object_iff, Json.distinctMembers_cons,
    Json.distinctMembers_nil, Json.DistinctKeys.text, oneofs, Entries.keys]

/-- The message of such a document with a group that lists both fields. -/
def bothGrouped : Message where
  name := "M"
  fields := [
    { name := "x", type := .scalar .string, required := false, oneof := some "g" },
    { name := "y", type := .scalar .string, required := false, oneof := some "g" }]
  oneofs := [{ name := "g", members := ["y", "x"] }]

/-- The message as the only type of the catalog and of the list. -/
def bothGroupedSchema : Scope where
  catalog := { types := .ofEntries [("M", .message bothGrouped)] }
  listed := [.message bothGrouped]

/-- In a message whose group lists both fields once, membership agrees and both fields are shown, by the
union for the group and by the alternatives for it.
-/
theorem both_fields_shown
    : ∃ after,
        (groupDocument [("g", ["y", "x"])]).DistinctKeys
        ∧ loadDocument {} (groupDocument [("g", ["y", "x"])]) = (.ok (), after)
        ∧ .message bothGrouped ∈ after.nodes
        ∧ MembershipAgrees bothGrouped
        ∧ (∃ last,
          exec (GraphQL.messageFields .text bothGroupedSchema bothGrouped : GraphQL.Pass _) {}
            = (.ok [{ name := "g", type := .named "M_g" }], last)
          ∧ ShownOnce (last.Shows .text bothGroupedSchema bothGrouped) bothGrouped
              [{ name := "g", type := .named "M_g" }])
        ∧ ∃ text last,
            exec
                (TypeScript.declaration TypeScript.jsDoc .text bothGroupedSchema
                  (.message bothGrouped))
                {}
              = (.ok text, last)
            ∧ ∃ properties,
                text
                  = TypeScript.printInterface TypeScript.jsDoc bothGrouped
                      (properties.map (TypeScript.Property.print TypeScript.jsDoc))
                ∧ ShownOnce (TypeScript.Shows .text bothGroupedSchema bothGrouped) bothGrouped
                    properties := by
  have distinct : (groupDocument [("g", ["y", "x"])]).DistinctKeys :=
    groupDocument_distinct (by decide)
  have loads : (loadDocument {} (groupDocument [("g", ["y", "x"])])).1 = .ok () := by decide +kernel
  have stored
      : .message bothGrouped ∈ (loadDocument {} (groupDocument [("g", ["y", "x"])])).2.nodes := by
    decide +kernel
  cases run : loadDocument {} (groupDocument [("g", ["y", "x"])]) with
  | mk result after =>
  rw [run] at loads stored
  cases loads
  obtain ⟨nodes, entries, each⟩ := membership_agrees_iff distinct run
  have member : .message bothGrouped ∈ nodes := by
    obtain ⟨name, found⟩ := OrderedMap.mem_values_iff.mp stored
    rw [← OrderedMap.mem_entries_iff, entries] at found
    obtain ⟨node, inside, same⟩ := List.mem_map.mp found
    cases same
    exact inside
  obtain ⟨_, _, graphQL, typeScript⟩ := each bothGrouped member
  have once : (bothGrouped.oneofs.flatMap OneOf.members).Nodup := by decide
  have converted
      : (exec (GraphQL.messageFields .text bothGroupedSchema bothGrouped : GraphQL.Pass _) {}).1
        = .ok [{ name := "g", type := .named "M_g" }] := by
    decide +kernel
  have declared
      : (exec
          (TypeScript.declaration TypeScript.jsDoc .text bothGroupedSchema (.message bothGrouped))
          {}).1
        = .ok "export interface M \x7b\n  g: string;\n\x7d" := by
    decide +kernel
  have shown := graphQL _ _ _ _ _ (Prod.ext converted rfl) fun group present => ?unions
  case unions =>
    obtain ⟨field, inside, named⟩ := present
    have same : group = "g" := by
      rcases List.mem_cons.mp inside with rfl | inside
      · exact (Option.some.inj named).symm
      · cases List.mem_singleton.mp inside
        exact (Option.some.inj named).symm
    subst same
    let union : GraphQL.UnionType := {
      name := "M_g", members := [.named "String", .named "String"] }
    exact ⟨by decide +kernel, union, by decide +kernel⟩
  obtain ⟨properties, text, written⟩ := typeScript _ _ _ _ _ _ (Prod.ext declared rfl)
  refine ⟨_, distinct, rfl, stored, (shown.mpr once).1, ⟨_, Prod.ext converted rfl, ?_⟩, _, _,
    Prod.ext declared rfl, properties, text, (written.mpr once).2⟩
  exact (shown.mpr once).2

/-- Where a nested message has the name of the group, there is no union for the group, and its members
are shown nowhere.
-/
example
    : let scope : Scope :=
        { catalog := {}, listed := [.message bothGrouped, .message { name := "M.g" }] }
      let start := (exec (GraphQL.build scope : GraphQL.Pass Unit) {}).2
      (exec (GraphQL.messageFields .text scope bothGrouped) start).1
          = .ok [{ name := "g", type := .named "M_g" }]
        ∧ start.registry.get? "M.g" = some (.object { name := "M_g" }) := by
  decide +kernel

/-- A field that two groups list names the second one only, while the first one still lists it. -/
theorem shared_field_disagrees
    : (groupDocument [("g", ["x"]), ("h", ["x"])]).DistinctKeys
      ∧ (loadDocument {} (groupDocument [("g", ["x"]), ("h", ["x"])])).1 = .ok ()
      ∧ ∃ message,
          .message message ∈ (loadDocument {} (groupDocument [("g", ["x"]), ("h", ["x"])])).2.nodes
          ∧ ¬ MembershipAgrees message := by
  let shared : Field :=
    { name := "x", type := .scalar .string, required := false, oneof := some "h" }
  let message : Message :=
    { name := "M", fields := [shared, { name := "y", type := .scalar .string }],
      oneofs := [{ name := "g", members := ["x"] }, { name := "h", members := ["x"] }] }
  refine ⟨groupDocument_distinct (by decide), by decide +kernel, message, by decide +kernel, ?_⟩
  intro agrees
  have names : shared.oneof = some "g" :=
    (agrees shared List.mem_cons_self "g").mpr
      ⟨{ name := "g", members := ["x"] }, List.mem_cons_self, rfl, List.mem_cons_self⟩
  exact absurd names (by decide)

end ProtoSchema.Descriptor
