import Mathlib.Data.List.Nodup
import ProtoSchema.Proofs.Outcome
import ProtoSchema.Schema.Message

/-! The properties of a message: its fields that belong to no group, and each of its groups once,
in the place of the first field that names it.
-/

namespace ProtoSchema.Schema

/-- The first item of a name is the given one, if no other item has its name. -/
theorem find?_eq_some_of_unique {α : Type} {name : α → String} {items : List α} {item : α}
    (unique : ∀ other ∈ items, name other = name item → other = item) (member : item ∈ items)
    : (items.find? fun other => name other = name item) = some item := by
  cases found : items.find? fun other => name other = name item with
  | none => simpa using List.find?_eq_none.mp found item member
  | some other =>
      have named : name other = name item := by simpa using List.find?_some found
      rw [unique other (List.mem_of_find?_eq_some found) named]

/-- Fields and groups fit together: no two fields share a name, nor do two groups, and a field that
names a group is one of its declared members.
-/
structure Grouped {α : Type} (name : α → String) (oneof : α → Option String) (fields : List α)
    (oneofs : List OneOf)
    : Prop where
  fieldNames : (fields.map name).Nodup
  groupNames : (oneofs.map OneOf.name).Nodup
  joined
    : ∀ field ∈ fields, ∀ group,
        oneof field = some group → ∃ declared ∈ oneofs,
          declared.name = group ∧ name field ∈ declared.members

namespace Message

/-- Some field of the message names the group. -/
def HasGroup (message : Message) (group : String) : Prop :=
  ∃ field ∈ message.fields, field.oneof = some group

/-- The field has a type of its own in the converted message: it belongs to no group, or it is a
member of a group that the message has.
-/
inductive Shows (message : Message) (field : Field) : Prop
  | single (member : field ∈ message.fields) (alone : field.oneof = none)
  | grouped {group name} (present : message.HasGroup group)
    (member : name ∈ message.memberNames group) (found : message.field? name = some field)

/-- What is shown of a message is one of its fields, by cases. -/
theorem Shows.mem {message : Message} {field : Field} (shown : message.Shows field)
    : field ∈ message.fields := by
  cases shown with
  | single member _ => exact member
  | grouped _ _ found => exact List.mem_of_find?_eq_some found

/-- The members of a group are fields of the message, by cases on whether it is declared. -/
theorem mem_of_mem_members {message : Message} {group : String} {members : List Field}
    (found : message.members group = .ok members) {field : Field} (member : field ∈ members)
    : field ∈ message.fields := by
  unfold Message.members at found
  cases declared : message.oneof? group with
  | none =>
      rw [declared] at found
      cases found
      exact (List.mem_filter.mp member).1
  | some oneof =>
      rw [declared] at found
      obtain ⟨name, _, same⟩ := Outcome.exists_of_mem_mapM found member
      split at same
      · next field found =>
          cases same
          exact List.mem_of_find?_eq_some found
      · cases same

/-- The members of a group are fields exactly if each of their names is that of a field, by cases on
whether the group is declared.
-/
theorem members_eq_ok_iff {message : Message} {group : String}
    : (∃ members, message.members group = .ok members)
      ↔ ∀ name ∈ message.memberNames group, ∃ field, message.field? name = some field := by
  cases declared : message.oneof? group with
  | none =>
      simp only [Message.members, Message.memberNames, declared, Except.ok.injEq, exists_eq',
        true_iff]
      intro name member
      obtain ⟨field, inside, rfl⟩ := List.mem_map.mp member
      have present : (message.field? field.name).isSome := by
        rw [Message.field?, List.find?_isSome]
        exact ⟨field, (List.mem_filter.mp inside).1, by simp⟩
      exact Option.isSome_iff_exists.mp present
  | some oneof =>
      simp only [Message.members, Message.memberNames, declared, Outcome.exists_mapM_iff]
      refine forall₂_congr fun name _ => ?_
      cases message.field? name <;> simp

/-- A field that names a group that is not declared is the first field of its name. -/
def OwnMembers (message : Message) : Prop :=
  ∀ field ∈ message.fields,
    ∀ group ∈ field.oneof, message.oneof? group = none → message.field? field.name = some field

/-- The members of a group are the fields that its member names stand for, by cases on whether it is
declared.
-/
theorem OwnMembers.mem_members_iff {message : Message} {group : String} {field : Field}
    {members : List Field} (own : message.OwnMembers)
    (found : message.members group = .ok members)
    : field ∈ members
      ↔ ∃ name ∈ message.memberNames group, message.field? name = some field := by
  cases declared : message.oneof? group with
  | none =>
      simp only [Message.members, declared, Except.ok.injEq] at found
      have first (other : Field) (inside : other ∈ members)
          : message.field? other.name = some other := by
        rw [← found, List.mem_filter] at inside
        exact own other inside.1 group (of_decide_eq_true inside.2) declared
      simp only [Message.memberNames, declared, found, List.mem_map, exists_exists_and_eq_and]
      constructor
      · exact fun inside => ⟨field, inside, first field inside⟩
      · rintro ⟨other, inside, same⟩
        cases (first other inside).symm.trans same
        exact inside
  | some oneof =>
      simp only [Message.members, declared] at found
      simp only [Message.memberNames, declared]
      constructor
      · intro inside
        obtain ⟨name, member, read⟩ := Outcome.exists_of_mem_mapM found inside
        refine ⟨name, member, ?_⟩
        cases known : message.field? name with
        | none => simp [known] at read
        | some other => simpa [known] using read
      · rintro ⟨name, member, known⟩
        obtain ⟨value, inside, read⟩ := Outcome.exists_of_mem_items found member
        simp only [known, Except.ok.injEq] at read
        exact read ▸ inside

/-- The fields that the member names of a group stand for. -/
def namedFields (message : Message) (group : String) : List Field :=
  (message.memberNames group).filterMap message.field?

/-- The fields that a place stands for: one of its own, or those of a group. -/
def slotFields (message : Message) : Slot → List Field
  | .single field => [field]
  | .group group => message.namedFields group

/-- The fields that the places of the message stand for, in order. -/
def shownFields (message : Message) : List Field :=
  message.slots.flatMap message.slotFields

/-- The members of a declared group are the fields of these names, by induction on the names. -/
theorem namedFields_of_declared {message : Message} {group : String} {oneof : OneOf}
    {members : List Field} (declared : message.oneof? group = some oneof)
    (found : message.members group = .ok members)
    : message.namedFields group = members := by
  simp only [Message.members, declared] at found
  simp only [namedFields, memberNames, declared]
  have pairs := Outcome.mapM_eq_ok.mp found
  clear declared found
  generalize oneof.members = names at pairs ⊢
  induction pairs with
  | nil => rfl
  | @cons name field _ _ head _ ih =>
      cases known : message.field? name with
      | none => simp [known] at head
      | some first =>
          simp only [known, Except.ok.injEq] at head
          rw [List.filterMap_cons_some known, ih, head]

/-- Looking each item up by something it has gives the items themselves exactly if each of them is
what is found for it, by induction on the items.
-/
theorem filterMap_eq_self_iff {α : Type} {lookup : α → Option α} {items : List α}
    (present : ∀ item ∈ items, ∃ found, lookup item = some found)
    : items.filterMap lookup = items ↔ ∀ item ∈ items, lookup item = some item := by
  induction items with
  | nil => simp
  | cons item rest ih =>
      obtain ⟨first, others⟩ := List.forall_mem_cons.mp present
      obtain ⟨found, known⟩ := first
      rw [List.filterMap_cons_some known, List.cons.injEq, ih others, List.forall_mem_cons, known,
        Option.some.injEq]

/-- A group that is not declared consists of the fields that its member names stand for exactly if
each of its members is the first field of its name.
-/
theorem namedFields_of_undeclared {message : Message} {group : String}
    (undeclared : message.oneof? group = none)
    : message.namedFields group = message.fields.filter (fun field => field.oneof = some group)
      ↔ ∀ field ∈ message.fields,
          field.oneof = some group → message.field? field.name = some field := by
  have present : ∀ field ∈ message.fields.filter (fun field => field.oneof = some group),
      ∃ found, message.field? field.name = some found := by
    intro field member
    refine Option.isSome_iff_exists.mp ?_
    rw [Message.field?, List.find?_isSome]
    exact ⟨field, (List.mem_filter.mp member).1, by simp⟩
  simp only [namedFields, memberNames, undeclared, List.filterMap_map]
  refine (filterMap_eq_self_iff present).trans ?_
  simp only [List.mem_filter, decide_eq_true_eq, and_imp]

/-- Each field that names an undeclared group is the first field of its name exactly if all groups
consist of the fields that their member names stand for.
-/
theorem ownMembers_iff {message : Message}
    (groups : ∀ group, message.HasGroup group → ∃ members, message.members group = .ok members)
    : message.OwnMembers
      ↔ ∀ group,
          message.HasGroup group → message.members group = .ok (message.namedFields group) := by
  constructor
  · intro own group present
    obtain ⟨members, found⟩ := groups group present
    cases declared : message.oneof? group with
    | some oneof => rw [namedFields_of_declared declared found, found]
    | none =>
        have all := (namedFields_of_undeclared declared).mpr fun field member named =>
          own field member group named declared
        rw [all]
        simp only [Message.members, declared]
  · intro all field member group named undeclared
    have found := all group ⟨field, member, named⟩
    simp only [Message.members, undeclared, Except.ok.injEq] at found
    exact (namedFields_of_undeclared undeclared).mp found.symm field member named

/-- The fields and groups of the message fit together. -/
def Grouped (message : Message) : Prop :=
  Schema.Grouped Field.name Field.oneof message.fields message.oneofs

/-- A field of such a message has its name for itself. -/
theorem Grouped.field? {message : Message} (grouped : message.Grouped) {field : Field}
    (member : field ∈ message.fields)
    : message.field? field.name = some field :=
  find?_eq_some_of_unique
    (fun _ other named => List.inj_on_of_nodup_map grouped.fieldNames other member named) member

/-- A group of such a message has its name for itself. -/
theorem Grouped.oneof?_of_mem {message : Message} (grouped : message.Grouped) {oneof : OneOf}
    (member : oneof ∈ message.oneofs)
    : message.oneof? oneof.name = some oneof :=
  find?_eq_some_of_unique
    (fun _ other named => List.inj_on_of_nodup_map grouped.groupNames other member named) member

/-- The group that a field of such a message names is declared, with the field as a member. -/
theorem Grouped.oneof? {message : Message} (grouped : message.Grouped) {field : Field}
    {group : String} (member : field ∈ message.fields) (named : field.oneof = some group)
    : ∃ declared, message.oneof? group = some declared ∧ field.name ∈ declared.members := by
  obtain ⟨declared, present, rfl, inside⟩ := grouped.joined field member group named
  exact ⟨declared, grouped.oneof?_of_mem present, inside⟩

theorem Grouped.ownMembers {message : Message} (grouped : message.Grouped)
    : message.OwnMembers := by
  intro field member group named undeclared
  obtain ⟨declared, same, _⟩ := grouped.oneof? member named
  cases undeclared.symm.trans same

/-- All fields of such a message are shown, by cases on whether the field names a group. -/
theorem Grouped.shows {message : Message} (grouped : message.Grouped) {field : Field}
    (member : field ∈ message.fields)
    : message.Shows field := by
  cases named : field.oneof with
  | none => exact .single member named
  | some group =>
      obtain ⟨declared, same, inside⟩ := grouped.oneof? member named
      have listed : field.name ∈ message.memberNames group := by
        rw [memberNames, same]
        exact inside
      exact .grouped ⟨field, member, named⟩ listed (grouped.field? member)

/-- A field has a place of its own exactly when it belongs to no group, by induction on the
fields.
-/
theorem single_mem_slotsAfter {field : Field} (seen : List String) (fields : List Field)
    : Slot.single field ∈ slotsAfter seen fields ↔ field ∈ fields ∧ field.oneof = none := by
  induction fields generalizing seen with
  | nil => simp [slotsAfter]
  | cons head rest ih =>
      cases grouped : head.oneof with
      | none =>
          simp only [slotsAfter, grouped, List.mem_cons, Slot.single.injEq, ih]
          constructor
          · rintro (rfl | ⟨member, alone⟩)
            · exact ⟨.inl rfl, grouped⟩
            · exact ⟨.inr member, alone⟩
          · rintro ⟨same | member, alone⟩
            · exact .inl same
            · exact .inr ⟨member, alone⟩
      | some group =>
          have skipped : (field ∈ head :: rest ∧ field.oneof = none)
              ↔ field ∈ rest ∧ field.oneof = none := by
            constructor
            · rintro ⟨member, alone⟩
              rcases List.mem_cons.mp member with rfl | later
              · simp [grouped] at alone
              · exact ⟨later, alone⟩
            · exact fun ⟨member, alone⟩ => ⟨List.mem_cons_of_mem head member, alone⟩
          rw [skipped]
          by_cases known : group ∈ seen <;> simp [slotsAfter, grouped, known, ih]

/-- A group has a place unless it had one before, by induction on the fields. -/
theorem group_mem_slotsAfter {group : String} (seen : List String) (fields : List Field)
    : Slot.group group ∈ slotsAfter seen fields
      ↔ group ∉ seen ∧ some group ∈ fields.map Field.oneof := by
  induction fields generalizing seen with
  | nil => simp [slotsAfter]
  | cons head rest ih =>
      cases grouped : head.oneof with
      | none => simp [slotsAfter, grouped, ih]
      | some first =>
          rw [List.map_cons, grouped, List.mem_cons, Option.some.injEq]
          by_cases known : first ∈ seen
          · simp only [slotsAfter, grouped, known, if_true, ih]
            constructor
            · exact fun ⟨fresh, later⟩ => ⟨fresh, .inr later⟩
            · rintro ⟨fresh, same | later⟩
              · exact absurd (same ▸ known) fresh
              · exact ⟨fresh, later⟩
          · simp only [slotsAfter, grouped, known, if_false, List.mem_cons, Slot.group.injEq, ih,
              not_or]
            constructor
            · rintro (rfl | ⟨⟨_, fresh⟩, later⟩)
              · exact ⟨known, .inl rfl⟩
              · exact ⟨fresh, .inr later⟩
            · rintro ⟨fresh, same | later⟩
              · exact .inl same
              · by_cases same : group = first
                · exact .inl same
                · exact .inr ⟨⟨same, fresh⟩, later⟩

/-- Different fields have different places, and each group has one; by induction on the fields. -/
theorem nodup_slotsAfter {fields : List Field} (distinct : fields.Nodup) (seen : List String)
    : (slotsAfter seen fields).Nodup := by
  induction fields generalizing seen with
  | nil => exact List.nodup_nil
  | cons field rest ih =>
      obtain ⟨fresh, distinct⟩ := List.nodup_cons.mp distinct
      cases grouped : field.oneof with
      | none =>
          simp only [slotsAfter, grouped, List.nodup_cons, single_mem_slotsAfter]
          exact ⟨fun later => fresh later.1, ih distinct seen⟩
      | some group =>
          by_cases known : group ∈ seen
          · simp only [slotsAfter, grouped, known, if_true]
            exact ih distinct seen
          · simp only [slotsAfter, grouped, known, if_false, List.nodup_cons, group_mem_slotsAfter]
            exact ⟨fun later => later.1 List.mem_cons_self, ih distinct (group :: seen)⟩

/-- The fields with a place of their own are those that belong to no group. -/
theorem single_mem_slots {message : Message} {field : Field}
    : Slot.single field ∈ message.slots ↔ field ∈ message.fields ∧ field.oneof = none :=
  single_mem_slotsAfter [] message.fields

/-- The groups with a place are those that some field names. -/
theorem group_mem_slots {message : Message} {group : String}
    : Slot.group group ∈ message.slots ↔ message.HasGroup group := by
  rw [slots, group_mem_slotsAfter, List.mem_map, HasGroup]
  simp

/-- The field at a position belongs to no group, or is the first member of its group. -/
def HasPlace (fields : List Field) (entry : Field × Nat) : Prop :=
  entry.1.oneof = none ∨ entry.1.oneof ∉ (fields.take entry.2).map Field.oneof

instance (fields : List Field) (entry : Field × Nat) : Decidable (HasPlace fields entry) :=
  inferInstanceAs (Decidable (_ ∨ _))

/-- The fields that have a place in the converted message: each field that belongs to no group
and the first member of each group.
-/
def placed (fields : List Field) : List Field :=
  (fields.zipIdx.filter fun entry => HasPlace fields entry).map Prod.fst

theorem mem_of_mem_placed {field : Field} {fields : List Field} (member : field ∈ placed fields)
    : field ∈ fields := by
  obtain ⟨entry, kept, rfl⟩ := List.mem_map.mp member
  exact List.fst_mem_of_mem_zipIdx (List.mem_filter.mp kept).1

/-- What stands in the place of a field: the field, or its group. -/
def slotOf (field : Field) : Slot :=
  match field.oneof with
  | none => .single field
  | some group => .group group

/-- The name of a property: that of the field or of the group. -/
def Slot.title : Slot → String
  | .single field => field.name
  | .group name => name

theorem title_slotOf (field : Field) : (slotOf field).title = field.oneof.getD field.name := by
  unfold slotOf
  cases field.oneof <;> rfl

/-- The entries after the first fields are those of the rest that have a place, by induction on
the rest. What was seen are the groups of the first fields.
-/
theorem slotsAfter_eq_placed (earlier rest : List Field) (seen : List String)
    (known : ∀ group, group ∈ seen ↔ some group ∈ earlier.map Field.oneof)
    : slotsAfter seen rest
      = ((rest.zipIdx earlier.length).filter fun entry => HasPlace (earlier ++ rest) entry).map
          fun entry => slotOf entry.1 := by
  induction rest generalizing earlier seen with
  | nil => rfl
  | cons field rest ih =>
      have split : earlier ++ field :: rest = (earlier ++ [field]) ++ rest := by simp
      have length : earlier.length + 1 = (earlier ++ [field]).length := by simp
      have before : (earlier ++ field :: rest).take earlier.length = earlier := by simp
      rw [List.zipIdx_cons, List.filter_cons]
      cases grouped : field.oneof with
      | none =>
          have place : HasPlace (earlier ++ field :: rest) (field, earlier.length) := .inl grouped
          have tail := ih (earlier ++ [field]) seen (by simpa [grouped] using known)
          simp only [slotsAfter, grouped, place, decide_true, if_true, List.map_cons, slotOf]
          rw [tail, split, length]
          simp only [slotOf]
      | some group =>
          by_cases member : group ∈ seen
          · have follows : ¬ HasPlace (earlier ++ field :: rest) (field, earlier.length) := by
              simp only [HasPlace, grouped, before, ← known, member]
              simp
            have tail := ih (earlier ++ [field]) seen (by
              intro other
              rw [List.map_append, List.mem_append, ← known]
              simp only [List.map_cons, List.map_nil, grouped, List.mem_singleton,
                Option.some.injEq]
              exact ⟨.inl, fun present => present.elim id fun same => same ▸ member⟩)
            simp only [slotsAfter, grouped, member, if_true, follows, decide_false]
            rw [tail, split, length]
            rfl
          · have place : HasPlace (earlier ++ field :: rest) (field, earlier.length) := by
              refine .inr ?_
              rw [grouped, before, ← known]
              exact member
            have tail := ih (earlier ++ [field]) (group :: seen) (by
              intro other
              rw [List.map_append, List.mem_append, ← known, List.mem_cons]
              simp only [List.map_cons, List.map_nil, grouped, List.mem_singleton,
                Option.some.injEq]
              exact or_comm)
            simp only [slotsAfter, grouped, member, if_false, place, decide_true, if_true,
              List.map_cons]
            rw [tail, split, length]
            simp only [slotOf, grouped]

/-- The properties of a message are those of the fields that have a place. -/
theorem slots_eq_placed (message : Message)
    : message.slots = (placed message.fields).map slotOf := by
  rw [slots, slotsAfter_eq_placed [] message.fields [] (by simp), placed, List.map_map]
  rfl

/-- The names of properties: each field that belongs to no group has its own, and each group has one
in the place of its first member.
-/
theorem titles_slots (message : Message)
    : message.slots.map Slot.title
      = (placed message.fields).map fun field => field.oneof.getD field.name := by
  rw [slots_eq_placed, List.map_map]
  exact List.map_congr_left fun field _ => title_slotOf field

end Message

end ProtoSchema.Schema
