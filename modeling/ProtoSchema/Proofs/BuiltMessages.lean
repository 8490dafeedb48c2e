import Mathlib.Data.List.Induction
import ProtoSchema.GraphQL.Pass
import ProtoSchema.Proofs.Outcome
import ProtoSchema.Proofs.Schema.Slots
import ProtoSchema.TypeScript.Pass

/-! Messages that are built field by field. Their groups are those that the fields name, with these
fields as members, which is also what the conversions take for a group that is not declared; so they
are converted alike with and without the declarations of their groups.
-/

namespace ProtoSchema.Schema

variable {group member : String} {oneofs : List OneOf} {fields : List Field} {message : Message}

-----------------------------------------------------------------------------------------
-- Groups of built messages
-----------------------------------------------------------------------------------------

namespace Message

/-- The message that adding these fields one after the other builds. -/
def built (name : String) (isInput : Bool) (comment : Option String) (fields : List Field)
    : Message :=
  fields.foldl addField { name, isInput, comment }

/-- The names of the groups that fields name, in the order of first use. -/
def groupNames (fields : List Field) : List String :=
  (fields.filterMap Field.oneof).eraseDups

/-- The fields that name the group, in order. -/
def fieldsIn (group : String) (fields : List Field) : List Field :=
  fields.filter fun field => field.oneof = some group

/-- The groups that the fields name, each with the fields that name it. -/
def groupsNamedBy (fields : List Field) : List OneOf :=
  (groupNames fields).map fun group =>
    { name := group, members := (fieldsIn group fields).map Field.name }

/-- A new group comes last, by induction on the groups. -/
theorem addMember_of_new (new : group ∉ oneofs.map OneOf.name) (member : String)
    : addMember group member oneofs = oneofs ++ [{ name := group, members := [member] }] := by
  induction oneofs with
  | nil => rfl
  | cons oneof rest ih =>
      obtain ⟨other, later⟩ := not_or.mp (mt List.mem_cons.mpr new)
      rw [addMember, if_neg (Ne.symm other), ih later]
      rfl

/-- A member is added to the group of its name, by induction on the groups. -/
theorem addMember_of_mem {groups : List String} (distinct : groups.Nodup) (present : group ∈ groups)
    (members : String → List String) (member : String)
    : addMember group member (groups.map fun name => { name, members := members name })
      = groups.map fun name =>
          { name, members := if name = group then members name ++ [member] else members name } := by
  induction groups with
  | nil => exact absurd present List.not_mem_nil
  | cons name rest ih =>
      obtain ⟨fresh, distinct⟩ := List.nodup_cons.mp distinct
      rw [List.map_cons, addMember, List.map_cons]
      by_cases same : name = group
      · have others (other : String) (later : other ∈ rest) : other ≠ group :=
          fun again => fresh (same.trans again.symm ▸ later)
        rw [if_pos same, if_pos same]
        congr 1
        refine List.map_congr_left fun other later => ?_
        rw [if_neg (others other later)]
      · have later : group ∈ rest := (List.mem_cons.mp present).resolve_left (Ne.symm same)
        rw [if_neg same, if_neg same, ih distinct later]

theorem mem_groupNames
    : group ∈ groupNames fields ↔ ∃ field ∈ fields, field.oneof = some group := by
  rw [groupNames, List.mem_eraseDups, List.mem_filterMap]

/-- One more field leaves the names of groups as they are if it names no group. -/
theorem groupNames_append_of_none {field : Field} (alone : field.oneof = none)
    : groupNames (fields ++ [field]) = groupNames fields := by
  rw [groupNames, List.filterMap_append, List.filterMap_cons_none alone, List.filterMap_nil,
    List.append_nil, groupNames]

theorem eraseDups_concat (names : List String) (name : String)
    : (names ++ [name]).eraseDups
      = if name ∈ names then names.eraseDups else names.eraseDups ++ [name] := by
  rw [List.eraseDups_append]
  split
  · next present => simp [List.removeAll, present]
  · next absent => simp [List.removeAll, absent, List.eraseDups_cons]

/-- It adds its group at their end if it names one that was not named before. -/
theorem groupNames_append_of_some {field : Field} (named : field.oneof = some group)
    : groupNames (fields ++ [field])
      = if group ∈ groupNames fields then groupNames fields else groupNames fields ++ [group] := by
  rw [groupNames, List.filterMap_append, List.filterMap_cons_some named, List.filterMap_nil,
    eraseDups_concat]
  simp only [groupNames, List.mem_eraseDups]

/-- No group is named twice, by induction on the fields from the last one. -/
theorem nodup_groupNames (fields : List Field) : (groupNames fields).Nodup := by
  induction fields using List.reverseRecOn with
  | nil => exact List.nodup_nil
  | append_singleton fields field ih =>
      cases named : field.oneof with
      | none => rwa [groupNames_append_of_none named]
      | some group =>
          rw [groupNames_append_of_some named]
          split
          · exact ih
          · next absent =>
              refine List.nodup_append.mpr ⟨ih, List.nodup_singleton group, ?_⟩
              intro name earlier other last same
              exact absent (List.mem_singleton.mp last ▸ same ▸ earlier)

theorem fieldsIn_append (group : String) (fields : List Field) (field : Field)
    : fieldsIn group (fields ++ [field])
      = fieldsIn group fields ++ if field.oneof = some group then [field] else [] := by
  rw [fieldsIn, List.filter_append, fieldsIn]
  by_cases named : field.oneof = some group <;> simp [named]

/-- One more field adds a member to the group that it names, by cases on whether it names one and
whether that was named before.
-/
theorem groupsNamedBy_append (fields : List Field) (field : Field)
    : groupsNamedBy (fields ++ [field])
      = match field.oneof with
        | some group => addMember group field.name (groupsNamedBy fields)
        | none => groupsNamedBy fields := by
  cases named : field.oneof with
  | none => simp [groupsNamedBy, groupNames_append_of_none named, fieldsIn_append, named]
  | some group =>
      simp only
      by_cases present : group ∈ groupNames fields
      · rw [groupsNamedBy, groupNames_append_of_some named, if_pos present, groupsNamedBy,
          addMember_of_mem (nodup_groupNames fields) present]
        refine List.map_congr_left fun name _ => ?_
        rw [fieldsIn_append, named]
        by_cases same : group = name <;> simp [same, eq_comm]
      · have new : group ∉ ((groupNames fields).map fun name =>
            ({ name, members := (fieldsIn name fields).map Field.name } : OneOf)).map
              OneOf.name := by
          simpa using present
        have unused : fieldsIn group fields = [] :=
          List.filter_eq_nil_iff.mpr fun field member named =>
            present (mem_groupNames.mpr ⟨field, member, of_decide_eq_true named⟩)
        rw [groupsNamedBy, groupNames_append_of_some named, if_neg present, groupsNamedBy,
          addMember_of_new new, List.map_append, List.map_singleton, fieldsIn_append, unused, named]
        refine congrArg₂ (· ++ ·) (List.map_congr_left fun name earlier => ?_) (by simp)
        have other : group ≠ name := fun same => present (same ▸ earlier)
        simp [fieldsIn_append, named, other]

theorem built_append (name : String) (isInput : Bool) (comment : Option String)
    (fields : List Field) (field : Field)
    : built name isInput comment (fields ++ [field])
      = (built name isInput comment fields).addField field :=
  List.foldl_append

/-- Built messages have the fields that were added. -/
theorem fields_built (name : String) (isInput : Bool) (comment : Option String)
    (fields : List Field)
    : (built name isInput comment fields).fields = fields := by
  induction fields using List.reverseRecOn with
  | nil => rfl
  | append_singleton fields field ih =>
      rw [built_append, addField, ih]

/-- Their groups are those that the fields name, by induction on the fields from the last one. -/
theorem oneofs_built (name : String) (isInput : Bool) (comment : Option String)
    (fields : List Field)
    : (built name isInput comment fields).oneofs = groupsNamedBy fields := by
  induction fields using List.reverseRecOn with
  | nil => rfl
  | append_singleton fields field ih =>
      rw [built_append, groupsNamedBy_append, ← ih]
      rfl

-----------------------------------------------------------------------------------------
-- Groups with and without their declarations
-----------------------------------------------------------------------------------------

/-- The message as if its groups were not declared. -/
def withoutOneofs (message : Message) : Message :=
  { message with oneofs := [] }

/-- The declared groups are those that the fields name, with these fields as members. -/
def DeclaresNamed (message : Message) : Prop :=
  message.oneofs = groupsNamedBy message.fields

theorem declaresNamed_built (name : String) (isInput : Bool) (comment : Option String)
    (fields : List Field)
    : (built name isInput comment fields).DeclaresNamed := by
  rw [DeclaresNamed, oneofs_built, fields_built]

/-- A declared group is one of those that the fields name. -/
theorem DeclaresNamed.of_oneof? (declares : message.DeclaresNamed) {oneof : OneOf}
    (found : message.oneof? group = some oneof)
    : oneof = { name := group, members := (fieldsIn group message.fields).map Field.name } := by
  have named : oneof.name = group := by simpa using List.find?_some found
  have member := List.mem_of_find?_eq_some found
  rw [declares] at member
  obtain ⟨name, _, rfl⟩ := List.mem_map.mp member
  rw [← named]

theorem DeclaresNamed.comment_eq_none (declares : message.DeclaresNamed) (group : String)
    : (message.oneof? group).bind OneOf.comment = none := by
  cases found : message.oneof? group with
  | none => rfl
  | some oneof =>
      rw [declares.of_oneof? found]
      rfl

/-- The members of a group are the fields that name it, whether or not it is declared. -/
theorem DeclaresNamed.memberNames_eq (declares : message.DeclaresNamed) (group : String)
    : message.memberNames group = message.withoutOneofs.memberNames group := by
  have fallback : message.withoutOneofs.memberNames group
      = (fieldsIn group message.fields).map Field.name :=
    rfl
  rw [fallback, memberNames]
  cases found : message.oneof? group with
  | none => rfl
  | some oneof => rw [declares.of_oneof? found]

/-- As fields, they are found by their names, which are distinct. -/
theorem DeclaresNamed.members_eq (declares : message.DeclaresNamed)
    (distinct : (message.fields.map Field.name).Nodup) (group : String)
    : message.members group = message.withoutOneofs.members group := by
  have fallback : message.withoutOneofs.members group = .ok (fieldsIn group message.fields) := rfl
  rw [fallback, members]
  cases found : message.oneof? group with
  | none => rfl
  | some oneof =>
      rw [declares.of_oneof? found]
      simp only
      rw [Outcome.mapM_eq_ok, List.forall₂_map_left_iff, List.forall₂_same]
      intro field member
      have first : message.field? field.name = some field :=
        find?_eq_some_of_unique
          (fun _ other named =>
            List.inj_on_of_nodup_map distinct other (List.mem_filter.mp member).1 named)
          (List.mem_filter.mp member).1
      rw [first]

end Message

end ProtoSchema.Schema

-----------------------------------------------------------------------------------------
-- Conversions
-----------------------------------------------------------------------------------------

namespace ProtoSchema.GraphQL

open Schema

variable {message : Message}

/-- The union for a group does not depend on whether the group is declared. -/
theorem groupType_withoutOneofs (declares : message.DeclaresNamed) (int64 : Integer64)
    (scope : Scope) (group : String)
    : groupType int64 scope message.withoutOneofs group = groupType int64 scope message group := by
  have types : memberType int64 scope message.withoutOneofs group
      = memberType int64 scope message group :=
    rfl
  have uncommented : (message.withoutOneofs.oneof? group).bind OneOf.comment = none := rfl
  rw [groupType, groupType, types, declares.memberNames_eq, declares.comment_eq_none, uncommented]
  rfl

/-- The fields for the properties of a message do not either, by cases on the property. -/
theorem messageFields_withoutOneofs (declares : message.DeclaresNamed) (int64 : Integer64)
    (scope : Scope)
    : messageFields int64 scope message.withoutOneofs = messageFields int64 scope message := by
  have each : slotField int64 scope message.withoutOneofs = slotField int64 scope message := by
    funext slot
    cases slot with
    | single field => rfl
    | group group =>
        have uncommented : (message.withoutOneofs.oneof? group).bind OneOf.comment = none := rfl
        rw [slotField, slotField, groupType_withoutOneofs declares, declares.comment_eq_none,
          uncommented]
  rw [messageFields, messageFields, each]
  rfl

end ProtoSchema.GraphQL

namespace ProtoSchema.TypeScript

open Schema

/-- Nor does the declaration of a message, by cases on its properties. -/
theorem declaration_withoutOneofs {message : Message} (declares : message.DeclaresNamed)
    (distinct : (message.fields.map Field.name).Nodup) (style : CommentStyle) (int64 : Integer64)
    (scope : Scope)
    : declaration style int64 scope (.message message.withoutOneofs)
      = declaration style int64 scope (.message message) := by
  have each : slotProperty style int64 scope message.withoutOneofs
      = slotProperty style int64 scope message := by
    funext slot
    cases slot with
    | single field => rfl
    | group group =>
        have types : fieldType style int64 scope message.withoutOneofs
            = fieldType style int64 scope message :=
          rfl
        have print : printGroup style message.withoutOneofs group
            = printGroup style message group := by
          funext types
          rw [printGroup, printGroup, declares.comment_eq_none]
          rfl
        rw [slotProperty, slotProperty, declares.members_eq distinct, types, print]
        rfl
  rw [declaration, declaration, each]
  rfl

end ProtoSchema.TypeScript

namespace ProtoSchema

open Schema

/-- Groups of a message that is built by adding fields with distinct names. They are the distinct
groups that the fields name, in the order of first use, and each has for its members the fields that
name it, in order. So it makes no difference to either conversion whether they are declared: from
whatever was converted before, the fields of the message, the unions for its groups and its
declaration come out the same, and so do the errors and what is left behind.
-/
theorem built_groups_convert_alike (name : String) (isInput : Bool) (comment : Option String)
    (fields : List Field) (distinct : (fields.map Field.name).Nodup)
    : (Message.built name isInput comment fields).fields = fields
      ∧ (Message.built name isInput comment fields).oneofs
        = ((fields.filterMap Field.oneof).eraseDups.map fun group =>
            { name := group,
              members := (fields.filter fun field => field.oneof = some group).map Field.name })
      ∧ ∀ int64 scope,
          GraphQL.messageFields int64 scope (Message.built name isInput comment fields).withoutOneofs
              = GraphQL.messageFields int64 scope (Message.built name isInput comment fields)
          ∧ (∀ group,
              GraphQL.groupType int64 scope
                  (Message.built name isInput comment fields).withoutOneofs group
                = GraphQL.groupType int64 scope (Message.built name isInput comment fields) group)
          ∧ ∀ style,
              TypeScript.declaration style int64 scope
                  (.message (Message.built name isInput comment fields).withoutOneofs)
                = TypeScript.declaration style int64 scope
                    (.message (Message.built name isInput comment fields)) := by
  have same := Message.fields_built name isInput comment fields
  have declares := Message.declaresNamed_built name isInput comment fields
  refine ⟨same, Message.oneofs_built name isInput comment fields, fun int64 scope => ⟨?_, ?_, ?_⟩⟩
  · exact GraphQL.messageFields_withoutOneofs declares int64 scope
  · exact fun group => GraphQL.groupType_withoutOneofs declares int64 scope group
  · exact fun style =>
      TypeScript.declaration_withoutOneofs declares (same.symm ▸ distinct) style int64 scope

/-- The fields of a message with two groups, the first of which goes on after the second. -/
def interleavedFields : List Field :=
  [{ name := "id", type := .scalar .string, oneof := some "key" },
    { name := "note", type := .scalar .string },
    { name := "open", type := .scalar .bool, oneof := some "state" },
    { name := "ref", type := .named "Ref", oneof := some "key" }]

/-- The groups stand in the order of first use, with the members of each in order. -/
theorem interleaved_groups_convert_alike
    : (interleavedFields.map Field.name).Nodup
      ∧ (Message.built "Order" false none interleavedFields).oneofs
        = [{ name := "key", members := ["id", "ref"] }, { name := "state", members := ["open"] }]
      ∧ ∀ int64 scope,
          GraphQL.messageFields int64 scope
              (Message.built "Order" false none interleavedFields).withoutOneofs
            = GraphQL.messageFields int64 scope
                (Message.built "Order" false none interleavedFields) := by
  have distinct : (interleavedFields.map Field.name).Nodup := by decide
  obtain ⟨_, groups, alike⟩ :=
    built_groups_convert_alike "Order" false none interleavedFields distinct
  exact ⟨distinct, groups.trans (by decide), fun int64 scope => (alike int64 scope).1⟩

end ProtoSchema
