import ProtoSchema.Proofs.GraphQL.Consistency

/-! What a type is translated from when names do not collide. Entries of maps and groups share
the names of the registry with the declared types; where no two of them meet, each registered
name has one source.
-/

namespace ProtoSchema.GraphQL

open Schema

variable {int64 : Integer64} {scope : Scope} {asked : Request → Prop}

/-- The type is listed or in the catalog. -/
def Declares (scope : Scope) (node : Node) : Prop :=
  node ∈ scope.listed ∨ node ∈ scope.catalog.nodes

/-- Some field of a declared message refers to the name, apart from leading dots. -/
inductive Referenced (scope : Scope) : String → Prop
  | field {message : Message} {field : Field} {reference : String}
    (declared : Declares scope (.message message)) (member : field ∈ message.fields)
    (named : field.type = .named reference)
    : Referenced scope (Name.dropLeadingDots reference)

/-- The name is that of a declared type, or some field of a declared message refers to it. -/
inductive Mentioned (scope : Scope) : String → Prop
  | declared {node : Node} (declared : Declares scope node) : Mentioned scope node.name
  | referenced {name : String} (referenced : Referenced scope name) : Mentioned scope name

/-- The name is that of the entries of a map field of a declared message. -/
inductive EntryName (scope : Scope) : String → Prop
  | entry {message : Message} {field : Field} {key : Scalar}
    (declared : Declares scope (.message message)) (member : field ∈ message.fields)
    (keyed : field.mapKey = some key)
    : EntryName scope (MapEntry.name message field key)

/-- The name is that of a group of a declared message. -/
inductive GroupName (scope : Scope) : String → Prop
  | group {message : Message} {group : String} (declared : Declares scope (.message message))
    (present : message.HasGroup group)
    : GroupName scope (groupName message group)

/-- Names do not collide, except that listed types of one name may differ: the keys of the catalog are
the names of its types; map fields with one entry name have equal entries and distinct groups have
distinct names; and declared types and references, entries, and groups share no names.
-/
structure NamesApart (scope : Scope) : Prop where
  keys : ∀ {name node}, scope.catalog.types.get? name = some node → node.name = name
  entries
    : ∀ {first second : Message} {left right leftKey rightKey},
        Declares scope (.message first)
        → Declares scope (.message second)
        → left ∈ first.fields
        → right ∈ second.fields
        → left.mapKey = some leftKey
        → right.mapKey = some rightKey
        → MapEntry.name first left leftKey = MapEntry.name second right rightKey
        → MapEntry.message first left leftKey = MapEntry.message second right rightKey
  groups
    : ∀ {first second : Message} {left right},
        Declares scope (.message first)
        → Declares scope (.message second)
        → first.HasGroup left
        → second.HasGroup right
        → groupName first left = groupName second right
        → first.name = second.name ∧ left = right
  entryApart : ∀ {name}, EntryName scope name → ¬ Mentioned scope name
  groupApart : ∀ {name}, GroupName scope name → ¬ Mentioned scope name
  entryGroup : ∀ {name}, EntryName scope name → ¬ GroupName scope name

/-- Names do not collide as above, and listed types of one name are the same. -/
structure CollisionFree (scope : Scope) : Prop extends NamesApart scope where
  listed
    : ∀ {first second},
        first ∈ scope.listed → second ∈ scope.listed → first.name = second.name → first = second

-----------------------------------------------------------------------------------------
-- Scopes that declare less
-----------------------------------------------------------------------------------------

section

variable {rival : Scope} {name : String}
  (declares : ∀ node, Declares rival node → Declares scope node)

include declares

theorem Referenced.mono (referenced : Referenced rival name) : Referenced scope name := by
  cases referenced with
  | field declared member named => exact .field (declares _ declared) member named

theorem Mentioned.mono (mentioned : Mentioned rival name) : Mentioned scope name := by
  cases mentioned with
  | declared declared => exact .declared (declares _ declared)
  | referenced referenced => exact .referenced (referenced.mono declares)

theorem EntryName.mono (entry : EntryName rival name) : EntryName scope name := by
  cases entry with
  | entry declared member keyed => exact .entry (declares _ declared) member keyed

theorem GroupName.mono (group : GroupName rival name) : GroupName scope name := by
  cases group with
  | group declared present => exact .group (declares _ declared) present

/-- Names are apart where less is declared. -/
theorem NamesApart.mono (apart : NamesApart scope) (catalog : rival.catalog = scope.catalog)
    : NamesApart rival where
  keys := fun found => apart.keys (catalog ▸ found)
  entries := fun first second => apart.entries (declares _ first) (declares _ second)
  groups := fun first second => apart.groups (declares _ first) (declares _ second)
  entryApart := fun entry mentioned =>
    apart.entryApart (entry.mono declares) (mentioned.mono declares)
  groupApart := fun group mentioned =>
    apart.groupApart (group.mono declares) (mentioned.mono declares)
  entryGroup := fun entry group => apart.entryGroup (entry.mono declares) (group.mono declares)

end

-----------------------------------------------------------------------------------------
-- Sources
-----------------------------------------------------------------------------------------

/-- A source of types: a listed type, a type of the catalog that no listed one hides, the entry
of a map of a source, or a group of a source.
-/
inductive Source (scope : Scope) : Origin → Prop
  | listed {node : Node} (member : node ∈ scope.listed) : Source scope (.node node)
  | catalog {node : Node} (member : node ∈ scope.catalog.nodes)
    (unlisted : ∀ other ∈ scope.listed, other.name ≠ node.name)
    : Source scope (.node node)
  | entry {message : Message} {field : Field} {key : Scalar}
    (source : Source scope (.node (.message message))) (member : field ∈ message.fields)
    (keyed : field.mapKey = some key)
    : Source scope (.node (.message (MapEntry.message message field key)))
  | group {message : Message} {group : String}
    (source : Source scope (.node (.message message))) (present : message.HasGroup group)
    : Source scope (.group message group)

/-- A message that is a source is declared, or it is the entry of a map of a declared message,
which has no maps itself; by induction on how it is a source.
-/
theorem Source.declared_or_entry {message : Message}
    (source : Source scope (.node (.message message)))
    : Declares scope (.message message)
      ∨ ∃ outer field key,
          Declares scope (.message outer)
          ∧ field ∈ outer.fields
          ∧ field.mapKey = some key
          ∧ message = MapEntry.message outer field key := by
  generalize named : Origin.node (.message message) = origin at source
  induction source generalizing message with
  | listed member =>
      cases named
      exact .inl (.inl member)
  | catalog member _ =>
      cases named
      exact .inl (.inr member)
  | group _ _ _ => cases named
  | @entry outer field key source member keyed ih =>
      have entry : message = MapEntry.message outer field key :=
        Node.message.inj (Origin.node.inj named)
      rcases ih rfl with declared | ⟨_, _, _, _, _, _, inner⟩
      · exact .inr ⟨outer, field, key, declared, member, keyed, entry⟩
      · -- The message with the map would be an entry itself.
        rw [inner] at member
        cases (MapEntry.plain_of_mem member).1.symm.trans keyed

/-- A source that has a map is declared. -/
theorem Source.declared_of_map {message : Message} {field : Field} {key : Scalar}
    (source : Source scope (.node (.message message))) (member : field ∈ message.fields)
    (keyed : field.mapKey = some key)
    : Declares scope (.message message) := by
  rcases source.declared_or_entry with declared | ⟨_, _, _, _, _, _, entry⟩
  · exact declared
  · rw [entry] at member
    cases (MapEntry.plain_of_mem member).1.symm.trans keyed

/-- A source that has a group is declared. -/
theorem Source.declared_of_group {message : Message} {group : String}
    (source : Source scope (.node (.message message))) (present : message.HasGroup group)
    : Declares scope (.message message) := by
  rcases present with ⟨field, member, grouped⟩
  rcases source.declared_or_entry with declared | ⟨_, _, _, _, _, _, entry⟩
  · exact declared
  · rw [entry] at member
    cases (MapEntry.plain_of_mem member).2.symm.trans grouped

/-- The references in the fields of a source are those of declared messages: an entry refers to
what its map field refers to.
-/
theorem Source.referenced {message : Message} {field : Field} {reference : String}
    (source : Source scope (.node (.message message))) (member : field ∈ message.fields)
    (named : field.type = .named reference)
    : Referenced scope (Name.dropLeadingDots reference) := by
  rcases source.declared_or_entry with declared | ⟨_, _, _, declared, outer, _, entry⟩
  · exact .field declared member named
  · rw [entry] at member
    rcases MapEntry.mem_fields.mp member with rfl | rfl
    · cases named
    · exact .field declared outer named

/-- The name of an entry or of a group is not mentioned, by cases on the source. -/
theorem Source.declared_of_mentioned {origin : Origin} (free : CollisionFree scope)
    (source : Source scope origin) (mentioned : Mentioned scope origin.name)
    : ∃ node, origin = .node node
        ∧ (node ∈ scope.listed
          ∨ node ∈ scope.catalog.nodes ∧ ∀ other ∈ scope.listed, other.name ≠ node.name) := by
  cases source with
  | listed member => exact ⟨_, rfl, .inl member⟩
  | catalog member unlisted => exact ⟨_, rfl, .inr ⟨member, unlisted⟩⟩
  | entry source member keyed =>
      have declared := source.declared_of_map member keyed
      rw [Origin.name_entry] at mentioned
      exact absurd mentioned (free.entryApart (.entry declared member keyed))
  | group source present =>
      have declared := source.declared_of_group present
      exact absurd mentioned (free.groupApart (.group declared present))

/-- What a reference denotes is a source under its own name. -/
theorem source_of_find? {reference : String} {node : Node} (free : CollisionFree scope)
    (found : scope.find? reference = some node)
    : Source scope (.node node) := by
  rcases Scope.listed_or_stored found with listed | ⟨known, unlisted⟩
  · exact .listed listed
  · refine .catalog (OrderedMap.mem_values_iff.mpr ⟨_, known⟩) fun other member same => ?_
    exact unlisted other member (same.trans (free.keys known))

/-- A reference to a source that is mentioned denotes it: a listed type comes first, and a type
of the catalog is only a source where no listed one has its name.
-/
theorem find?_of_source {reference : String} {origin : Origin} (free : CollisionFree scope)
    (source : Source scope origin) (named : origin.name = Name.dropLeadingDots reference)
    (mentioned : Mentioned scope (Name.dropLeadingDots reference))
    : ∃ node, origin = .node node ∧ scope.find? reference = some node := by
  rw [← named] at mentioned
  obtain ⟨node, rfl, place⟩ := source.declared_of_mentioned free mentioned
  refine ⟨node, rfl, ?_⟩
  have sameName : node.name = Name.dropLeadingDots reference := named
  simp only [Scope.find?, Option.orElse_eq_orElse, Option.orElse_eq_or, Option.or_eq_some_iff]
  rcases place with listed | ⟨stored, unlisted⟩
  · -- The first listed type of the name is the given one, since equal names mean equal types.
    rw [← sameName]
    exact .inl (find?_eq_some_of_unique (fun _ other same => free.listed other listed same) listed)
  · refine .inr ⟨?_, .inl ?_⟩
    · refine List.find?_eq_none.mpr fun other member same => ?_
      exact unlisted other member ((of_decide_eq_true same).trans sameName.symm)
    · obtain ⟨key, found⟩ := OrderedMap.mem_values_iff.mp stored
      have keyName := free.keys found
      rw [Catalog.lookup, Name.dropLeadingDots_dropLeadingDots, ← sameName, keyName]
      exact found

/-- Declared types that are sources are determined by their names. -/
theorem declared_unique {first second : Node} (free : CollisionFree scope)
    (left
      : first ∈ scope.listed
        ∨ first ∈ scope.catalog.nodes ∧ ∀ other ∈ scope.listed, other.name ≠ first.name)
    (right
      : second ∈ scope.listed
        ∨ second ∈ scope.catalog.nodes ∧ ∀ other ∈ scope.listed, other.name ≠ second.name)
    (same : first.name = second.name)
    : first = second := by
  rcases left with listedLeft | ⟨storedLeft, unlistedLeft⟩
  · rcases right with listedRight | ⟨_, unlistedRight⟩
    · exact free.listed listedLeft listedRight same
    · exact absurd same (unlistedRight first listedLeft)
  · rcases right with listedRight | ⟨storedRight, _⟩
    · exact absurd same.symm (unlistedLeft second listedRight)
    · obtain ⟨leftKey, foundLeft⟩ := OrderedMap.mem_values_iff.mp storedLeft
      obtain ⟨rightKey, foundRight⟩ := OrderedMap.mem_values_iff.mp storedRight
      rw [← free.keys foundLeft, same, free.keys foundRight] at foundLeft
      exact Option.some.inj (foundLeft.symm.trans foundRight)

theorem Source.message_unique {first second : Message} (free : CollisionFree scope)
    (left : Source scope (.node (.message first)))
    (right : Source scope (.node (.message second)))
    (declared : Declares scope (.message first)) (same : first.name = second.name)
    : first = second := by
  have mentioned : Mentioned scope first.name := .declared declared
  obtain ⟨leftNode, leftEq, leftPlace⟩ := left.declared_of_mentioned free mentioned
  rw [same] at mentioned
  obtain ⟨rightNode, rightEq, rightPlace⟩ := right.declared_of_mentioned free mentioned
  cases leftEq
  cases rightEq
  exact Node.message.inj (declared_unique free leftPlace rightPlace same)

/-- A source that is not mentioned is the entry of a map or a group of a declared message. -/
theorem Source.entry_or_group {origin : Origin} (source : Source scope origin)
    (unmentioned : ¬ Mentioned scope origin.name)
    : (∃ message field key,
        Declares scope (.message message)
        ∧ field ∈ message.fields
        ∧ field.mapKey = some key
        ∧ origin = .node (.message (MapEntry.message message field key)))
      ∨ ∃ message group,
          Source scope (.node (.message message))
          ∧ Declares scope (.message message)
          ∧ message.HasGroup group
          ∧ origin = .group message group := by
  cases source with
  | listed member => exact absurd (.declared (.inl member)) unmentioned
  | catalog member _ => exact absurd (.declared (.inr member)) unmentioned
  | entry source member keyed =>
      exact .inl ⟨_, _, _, source.declared_of_map member keyed, member, keyed, rfl⟩
  | group source present =>
      exact .inr ⟨_, _, source, source.declared_of_group present, present, rfl⟩

/-- Sources of one name are the same when names do not collide: both are declared, entries or
groups.
-/
theorem Source.unique {first second : Origin} (free : CollisionFree scope)
    (left : Source scope first) (right : Source scope second) (same : first.name = second.name)
    : first = second := by
  by_cases mentioned : Mentioned scope first.name
  · obtain ⟨leftNode, rfl, leftPlace⟩ := left.declared_of_mentioned free mentioned
    rw [same] at mentioned
    obtain ⟨rightNode, rfl, rightPlace⟩ := right.declared_of_mentioned free mentioned
    rw [declared_unique free leftPlace rightPlace same]
  have unmentioned : ¬ Mentioned scope second.name := same ▸ mentioned
  rcases left.entry_or_group mentioned with
    ⟨_, _, _, leftDeclared, leftMember, leftKeyed, rfl⟩
    | ⟨_, _, leftSource, leftDeclared, leftPresent, rfl⟩
  · rw [Origin.name_entry] at same
    rcases right.entry_or_group unmentioned with
      ⟨_, _, _, rightDeclared, rightMember, rightKeyed, rfl⟩
      | ⟨_, _, _, rightDeclared, rightPresent, rfl⟩
    · rw [Origin.name_entry] at same
      rw [free.entries leftDeclared rightDeclared leftMember rightMember leftKeyed rightKeyed same]
    · have entry : EntryName scope _ := .entry leftDeclared leftMember leftKeyed
      rw [same] at entry
      exact absurd (.group rightDeclared rightPresent) (free.entryGroup entry)
  · rcases right.entry_or_group unmentioned with
      ⟨_, _, _, rightDeclared, rightMember, rightKeyed, rfl⟩
      | ⟨_, _, rightSource, rightDeclared, rightPresent, rfl⟩
    · rw [Origin.name_entry] at same
      have entry : EntryName scope _ := .entry rightDeclared rightMember rightKeyed
      rw [← same] at entry
      exact absurd (.group leftDeclared leftPresent) (free.entryGroup entry)
    · obtain ⟨sameMessage, rfl⟩ :=
        free.groups leftDeclared rightDeclared leftPresent rightPresent same
      rw [leftSource.message_unique free rightSource leftDeclared sameMessage]

/-- The fields of a source lead to sources. -/
theorem Source.allowed {message : Message} {origin : Origin} (free : CollisionFree scope)
    (source : Source scope (.node (.message message)))
    (allowed : (Request.fields message).Allows scope origin)
    : Source scope origin := by
  cases allowed with
  | found _ found => exact source_of_find? free found
  | group present => exact .group source present
  | value allowed =>
      cases allowed with
      | found _ found => exact source_of_find? free found
      | entry shown keyed => exact .entry source shown.mem keyed

/-- What requests that are about no message lead to is a source, by induction on how it was led
to.
-/
theorem Known.source {origin : Origin} (free : CollisionFree scope)
    (closed : ∀ request, asked request → request.message? = none)
    (known : Known scope asked origin)
    : Source scope origin := by
  induction known with
  | shown _ allowed ih => exact ih.allowed free allowed
  | asked ask allowed =>
      have apart := closed _ ask
      cases allowed with
      | listed member => exact .listed member
      | found _ found => exact source_of_find? free found
      | entry _ _ => cases apart
      | value _ => cases apart
      | group _ => cases apart

-----------------------------------------------------------------------------------------
-- A scope without collisions
-----------------------------------------------------------------------------------------

/-- A message that refers to itself, by a field and in a group, and that has a map. -/
def person : Message where
  name := "Person"
  fields := [
    { name := "friend", type := .named "Person", required := false },
    { name := "scores", type := .scalar .int32, mapKey := some .string },
    { name := "email", type := .scalar .string, oneof := some "contact", required := false },
    { name := "boss", type := .named ".Person", oneof := some "contact", required := false }]

/-- The message alone, without a catalog. -/
def selfReference : Scope where
  catalog := {}
  listed := [.message person]

theorem declares_selfReference {node : Node} (declared : Declares selfReference node)
    : node = .message person := by
  rcases declared with listed | stored
  · exact List.mem_singleton.mp listed
  · exact absurd stored List.not_mem_nil

theorem person_references {field : Field} {reference : String} (member : field ∈ person.fields)
    (named : field.type = .named reference)
    : Name.dropLeadingDots reference = "Person" := by
  have all : ∀ field ∈ person.fields, field.type = .scalar .int32 ∨ field.type = .scalar .string
      ∨ field.type = .named "Person" ∨ field.type = .named ".Person" := by decide
  rcases all field member with type | type | type | type <;> rw [type] at named <;> cases named
  · decide
  · decide

theorem person_maps {field : Field} {key : Scalar} (member : field ∈ person.fields)
    (keyed : field.mapKey = some key)
    : field = { name := "scores", type := .scalar .int32, mapKey := some .string }
      ∧ key = .string := by
  have all : ∀ field ∈ person.fields, field.mapKey = none
      ∨ field = { name := "scores", type := .scalar .int32, mapKey := some .string } := by decide
  rcases all field member with none_ | rfl
  · cases none_.symm.trans keyed
  · cases keyed
    exact ⟨rfl, rfl⟩

theorem person_groups {group : String} (present : person.HasGroup group) : group = "contact" := by
  rcases present with ⟨field, member, grouped⟩
  have all : ∀ field ∈ person.fields, field.oneof = none ∨ field.oneof = some "contact" := by
    decide
  rcases all field member with same | same <;> rw [same] at grouped <;> cases grouped
  rfl

theorem mentioned_selfReference {name : String} (mentioned : Mentioned selfReference name)
    : name = "Person" := by
  cases mentioned with
  | declared declared => rw [declares_selfReference declared]; rfl
  | referenced referenced =>
      cases referenced with
      | field declared member named =>
          cases declares_selfReference declared
          exact person_references member named

theorem entryName_selfReference {name : String} (entry : EntryName selfReference name)
    : name = "ScoresEntry_string_int32" := by
  cases entry with
  | entry declared member keyed =>
      cases declares_selfReference declared
      obtain ⟨rfl, rfl⟩ := person_maps member keyed
      decide +kernel

theorem groupName_selfReference {name : String} (group : GroupName selfReference name)
    : name = "Person.contact" := by
  cases group with
  | group declared present =>
      cases declares_selfReference declared
      cases person_groups present
      decide +kernel

/-- The names of the message, of the entries of its map and of its group do not collide. -/
theorem selfReference_collisionFree : CollisionFree selfReference where
  keys := fun found => by cases found
  listed := fun first second _ => by
    rw [List.mem_singleton.mp first, List.mem_singleton.mp second]
  entries := by
    intro first second left right leftKey rightKey firstDeclared secondDeclared leftMember
      rightMember leftKeyed rightKeyed _
    cases declares_selfReference firstDeclared
    cases declares_selfReference secondDeclared
    obtain ⟨rfl, rfl⟩ := person_maps leftMember leftKeyed
    obtain ⟨rfl, rfl⟩ := person_maps rightMember rightKeyed
    rfl
  groups := by
    intro first second left right firstDeclared secondDeclared leftPresent rightPresent _
    cases declares_selfReference firstDeclared
    cases declares_selfReference secondDeclared
    exact ⟨rfl, (person_groups leftPresent).trans (person_groups rightPresent).symm⟩
  entryApart := fun entry mentioned => by
    rw [entryName_selfReference entry] at mentioned
    exact absurd (mentioned_selfReference mentioned) (by decide)
  groupApart := fun group mentioned => by
    rw [groupName_selfReference group] at mentioned
    exact absurd (mentioned_selfReference mentioned) (by decide)
  entryGroup := fun entry group => by
    rw [entryName_selfReference entry] at group
    exact absurd (groupName_selfReference group) (by decide)

/-- The conversion of the message succeeds. -/
theorem selfReference_converts : ∃ definitions, convert .text selfReference = .ok definitions := by
  have builds : Execution.exec (build selfReference : Pass Unit) {}
      = (.ok ⟨⟩, (Execution.exec (build selfReference : Pass Unit) {}).2) :=
    Execution.exec_eq_of_ok (by decide +kernel)
  have forced := Execution.exec_eq_of_ok (show (Execution.exec (materialize .text selfReference)
    (Execution.exec (build selfReference : Pass Unit) {}).2).1 = .ok ⟨⟩ by decide +kernel)
  exact ⟨_, convert_of_ok builds forced⟩

end ProtoSchema.GraphQL
