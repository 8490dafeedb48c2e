import ProtoSchema.Proofs.Descriptor.LoadOrder
import ProtoSchema.Proofs.Descriptor.ObjectTree
import ProtoSchema.Proofs.Schema.Slots

/-! Groups of loaded messages. A field gets into a group only by being declared as one of its
members, and since no object of a document has a key twice, neither fields nor groups of a message
share a name; so the fields and groups of every loaded message fit together.
-/

namespace ProtoSchema.Descriptor

open Schema
open Json (DistinctMembers)

variable {oneofs others : List OneOf} {before middle after : List FieldDeclaration}

/-- The fields and groups of the declared message fit together. -/
def MessageDeclaration.Grouped (content : MessageDeclaration) : Prop :=
  Schema.Grouped FieldDeclaration.name FieldDeclaration.oneof content.fields content.oneofs

/-- Fields become members of groups: their names stay, and a field that changes becomes one of the
declared members of a group.
-/
structure Joins (oneofs : List OneOf) (before after : List FieldDeclaration) : Prop where
  names : after.map FieldDeclaration.name = before.map FieldDeclaration.name
  each
    : ∀ field ∈ after,
        field ∈ before
        ∨ ∃ oneof ∈ oneofs, field.oneof = some oneof.name ∧ field.name ∈ oneof.members

theorem Joins.refl (fields : List FieldDeclaration) : Joins oneofs fields fields :=
  ⟨rfl, fun _ member => .inl member⟩

theorem Joins.trans (first : Joins oneofs before middle) (second : Joins oneofs middle after)
    : Joins oneofs before after := by
  refine ⟨second.names.trans first.names, fun field member => ?_⟩
  rcases second.each field member with earlier | joined
  · exact first.each field earlier
  · exact .inr joined

theorem Joins.mono (joins : Joins oneofs before after) (subset : oneofs ⊆ others)
    : Joins others before after := by
  refine ⟨joins.names, fun field member => (joins.each field member).imp_right ?_⟩
  rintro ⟨oneof, present, joined⟩
  exact ⟨oneof, subset present, joined⟩

/-- One member joins its group. -/
theorem joinGroup_joins {message member : String} {oneof : OneOf} (inside : member ∈ oneof.members)
    (success : joinGroup message oneof.name before member = .ok after)
    : Joins [oneof] before after := by
  unfold joinGroup at success
  split at success
  · cases success
    constructor
    · rw [List.map_map]
      refine List.map_congr_left fun field _ => ?_
      rw [Function.comp_apply]
      split <;> rfl
    · intro field present
      obtain ⟨earlier, known, rfl⟩ := List.mem_map.mp present
      split
      · next named =>
          exact .inr ⟨oneof, List.mem_singleton_self oneof, rfl, named ▸ inside⟩
      · exact .inl known
  · cases success

/-- The members of a group join it one after the other, by induction on them. -/
theorem foldlM_joinGroup_joins {message : String} {oneof : OneOf} {members : List String}
    (inside : members ⊆ oneof.members)
    (success : members.foldlM (joinGroup message oneof.name) before = .ok after)
    : Joins [oneof] before after := by
  induction members generalizing before with
  | nil =>
      cases success
      exact .refl _
  | cons member rest ih =>
      obtain ⟨present, later⟩ := List.cons_subset.mp inside
      rw [List.foldlM_cons] at success
      obtain ⟨middle, first, others⟩ := Outcome.bind_eq_ok.mp success
      exact (joinGroup_joins present first).trans (ih later others)

/-- Groups are read so that fields join them, and they are named by their keys; by induction on the
groups.
-/
theorem groupsOf_joins {message : String} {groups : Entries Json}
    (success : groupsOf message before groups = .ok (after, oneofs))
    : Joins oneofs before after ∧ (oneofs.map OneOf.name).Sublist groups.keys := by
  induction groups generalizing before after oneofs with
  | nil =>
      cases success
      exact ⟨.refl _, List.nil_sublist _⟩
  | cons entry rest ih =>
      obtain ⟨group, value⟩ := entry
      rw [groupsOf] at success
      obtain ⟨members, _, reads⟩ := Outcome.bind_eq_ok.mp success
      split at reads
      · -- A group that only marks its member as optional is left out.
        obtain ⟨joins, named⟩ := ih reads
        exact ⟨joins, named.cons group⟩
      · obtain ⟨middle, joined, reads⟩ := Outcome.bind_eq_ok.mp reads
        obtain ⟨⟨last, declared⟩, later, same⟩ := Outcome.bind_eq_ok.mp reads
        cases same
        obtain ⟨joins, named⟩ := ih later
        have first
            : Joins [{ name := group, members, comment := value.members?.bind commentOf }] before
                middle :=
          foldlM_joinGroup_joins (List.Subset.refl members) joined
        refine ⟨(first.mono ?_).trans (joins.mono ?_), named.cons_cons group⟩
        · exact List.cons_subset.mpr ⟨List.mem_cons_self, List.nil_subset _⟩
        · exact List.subset_cons_self _ _

-----------------------------------------------------------------------------------------
-- Declared messages
-----------------------------------------------------------------------------------------

/-- A field is read under its key and as a member of no group. -/
theorem fieldOf_eq_ok {message name : String} {value : Json} {field : FieldDeclaration}
    (success : fieldOf message name value = .ok field)
    : field.name = name ∧ field.oneof = none := by
  unfold fieldOf at success
  split at success
  · cases success
  · split at success
    · cases success
    · obtain ⟨mapKey, _, same⟩ := Outcome.bind_eq_ok.mp success
      cases same
      exact ⟨rfl, rfl⟩

/-- The groups that the object of a message lists. -/
def groupEntries (members : Entries Json) : Entries Json :=
  ((members.get? "oneofs").bind Json.members?).getD []

/-- A message is read from the fields of its object and then from its groups. -/
theorem messageOf_reads {name : String} {members : Entries Json} {content : MessageDeclaration}
    (success : messageOf name members = .ok content)
    : content.name = name
      ∧ ∃ (fields : Entries Json) (before : List FieldDeclaration),
          members.get? "fields" = some (.object fields)
          ∧ fields.mapM (fun entry => fieldOf name entry.1 entry.2) = .ok before
          ∧ groupsOf name before (groupEntries members) = .ok (content.fields, content.oneofs) := by
  unfold messageOf at success
  split at success
  · cases success
  · next fields present =>
      obtain ⟨before, read, rest⟩ := Outcome.bind_eq_ok.mp success
      obtain ⟨⟨joined, oneofs⟩, groups, same⟩ := Outcome.bind_eq_ok.mp rest
      cases same
      exact ⟨rfl, fields, before, bind_members?_eq_some_iff.mp present, read, groups⟩

/-- The names of fields that are read one by one are their keys. -/
theorem names_of_fields {name : String} {entries : Entries Json} {fields : List FieldDeclaration}
    (read : entries.mapM (fun entry => fieldOf name entry.1 entry.2) = .ok fields)
    : fields.map FieldDeclaration.name = entries.keys :=
  Outcome.map_eq_of_mapM read fun _ _ success => (fieldOf_eq_ok success).1

/-- A message is read with its fields in the order of their keys. -/
theorem messageOf_eq_ok {name : String} {members : Entries Json} {content : MessageDeclaration}
    (success : messageOf name members = .ok content)
    : content.name = name
      ∧ ∃ fields : Entries Json,
          members.get? "fields" = some (.object fields)
          ∧ content.fields.map FieldDeclaration.name = fields.keys := by
  obtain ⟨named, fields, before, found, read, groups⟩ := messageOf_reads success
  refine ⟨named, fields, found, ?_⟩
  rw [(groupsOf_joins groups).1.names, names_of_fields read]

/-- The groups of an object without a key twice have distinct names. -/
theorem nodup_groupEntries {members : Entries Json} (distinct : DistinctMembers members)
    : (groupEntries members).keys.Nodup := by
  unfold groupEntries
  cases found : (members.get? "oneofs").bind Json.members? with
  | none => exact List.nodup_nil
  | some entries => exact ((distinct.get (bind_members?_eq_some_iff.mp found)).members rfl).keys

/-- The members of an object give a message whose fields and groups fit together. -/
theorem messageOf_grouped {name : String} {members : Entries Json} {content : MessageDeclaration}
    (distinct : DistinctMembers members) (success : messageOf name members = .ok content)
    : content.Grouped := by
  obtain ⟨_, fields, found, named⟩ := messageOf_eq_ok success
  have fieldNames : (content.fields.map FieldDeclaration.name).Nodup :=
    named ▸ ((distinct.get found).members rfl).keys
  obtain ⟨_, _, before, _, read, groups⟩ := messageOf_reads success
  obtain ⟨joins, named⟩ := groupsOf_joins groups
  have groupNames := named.nodup (nodup_groupEntries distinct)
  refine ⟨fieldNames, groupNames, fun field member group inGroup => ?_⟩
  rcases joins.each field member with earlier | ⟨oneof, declared, joined, inside⟩
  · obtain ⟨_, _, success⟩ := Outcome.exists_of_mem_mapM read earlier
    cases (fieldOf_eq_ok success).2.symm.trans inGroup
  · exact ⟨oneof, declared, Option.some.inj (joined.symm.trans inGroup), inside⟩

/-- The fields and groups of all declared messages fit together. -/
def AllGrouped (declared : List Declaration) : Prop :=
  ∀ content, .message content ∈ declared → content.Grouped

/-- The fields and groups of all messages of a document fit together: each message comes from an
object, whose members are distinct as part of the document.
-/
theorem declarations_grouped {document : Json} {declared : List Declaration}
    (distinct : document.DistinctKeys) (success : declarations document = .ok declared)
    : AllGrouped declared := by
  intro content member
  obtain ⟨site, met, reads⟩ := (mem_declarations_iff success _).mp member
  cases reads with
  | message _ read => exact messageOf_grouped (distinctMembers_of_metIn distinct met) read

-----------------------------------------------------------------------------------------
-- Loaded messages
-----------------------------------------------------------------------------------------

/-- Reading a declaration keeps fields and groups as they fit together. -/
theorem MessageDeclaration.Grouped.of_read {declared : List Declaration} {catalog : Catalog}
    {content : MessageDeclaration} {message : Message} (grouped : content.Grouped)
    (same : read declared catalog (.message content) = .message message)
    : message.Grouped := by
  cases same
  refine ⟨?_, grouped.groupNames, List.forall_mem_map.mpr grouped.joined⟩
  rw [names_readField]
  exact grouped.fieldNames

/-- The fields and groups of every loaded message fit together. -/
theorem Loaded.grouped {catalog : Catalog} (loaded : Loaded catalog) {message : Message}
    (member : .message message ∈ catalog.nodes)
    : message.Grouped := by
  obtain ⟨name, found⟩ := OrderedMap.mem_values_iff.mp member
  obtain ⟨_, _, earlier, document, nodes, parsed, given, inside⟩ := loaded.origin found
  obtain ⟨declared, read, each, _⟩ := nodesOf_eq_ok given
  obtain ⟨declaration, present, success⟩ := related_of_mem each inside
  cases declaration with
  | enumeration content => cases success
  | message content =>
      have grouped := declarations_grouped (Json.parse_distinctKeys parsed) read content present
      exact grouped.of_read (resolve_eq_ok success)

end ProtoSchema.Descriptor
