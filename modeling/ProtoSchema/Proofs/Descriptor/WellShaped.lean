import ProtoSchema.Proofs.Descriptor.Membership

/-! Which documents load. A document loads exactly if all objects that are met in it have a shape that
can be read and the names of its types are new. The shape that is documented is stricter in one
place: there a key type must be a text, while one that is none is read as if it were absent.
-/

namespace ProtoSchema.Descriptor

open Schema
open Json (DistinctMembers)

variable {members : Entries Json} {catalog : Catalog} {document : Json}

-----------------------------------------------------------------------------------------
-- When a load succeeds
-----------------------------------------------------------------------------------------

/-- References of the declared fields can be resolved: no field is a repeated map. -/
def Declaration.Resolvable : Declaration → Prop
  | .message content => ∀ field ∈ content.fields, ¬ (field.rule = .repeated ∧ field.mapKey.isSome)
  | .enumeration _ => True

theorem resolve_succeeds_iff (declared : List Declaration) (catalog : Catalog)
    {declaration : Declaration}
    : (∃ node, resolve declared catalog declaration = .ok node) ↔ declaration.Resolvable := by
  cases declaration with
  | enumeration content => simp [resolve, Declaration.Resolvable]
  | message content =>
      have each (field : FieldDeclaration)
          : (∃ resolved, resolveField declared catalog content.name field = .ok resolved)
            ↔ ¬ (field.rule = .repeated ∧ field.mapKey.isSome) := by
        rw [resolveField]
        split
        · next repeated => simp [repeated]
        · next plain => simp [plain]
      rw [Declaration.Resolvable, ← forall₂_congr fun field _ => each field,
        ← Outcome.exists_mapM_iff]
      simp only [resolve, Outcome.bind_eq_ok]
      exact ⟨fun ⟨_, fields, resolved, _⟩ => ⟨fields, resolved⟩,
        fun ⟨fields, resolved⟩ => ⟨_, fields, resolved, rfl⟩⟩

/-- The names are distinct, and none of them is known, with leading dots or without them. -/
structure FreshNames (catalog : Catalog) (names : List String) : Prop where
  distinct : names.Nodup
  unknown : ∀ name ∈ names, name ∉ catalog.names ∧ Name.dropLeadingDots name ∉ catalog.names

theorem names_nodes {declared : List Declaration} {nodes : List Node}
    (each : declared.mapM (resolve declared catalog) = .ok nodes)
    : nodes.map Node.name = declared.map Declaration.name :=
  Outcome.map_eq_of_mapM each fun declaration _ success => by
    rw [← resolve_eq_ok success, name_read]

/-- A document is added exactly if it can be read, its fields can be resolved and its names are new. -/
theorem loadDocument_ok_iff
    : (loadDocument catalog document).1 = .ok ()
      ↔ ∃ declared,
          declarations document = .ok declared
          ∧ (∀ declaration ∈ declared, declaration.Resolvable)
          ∧ FreshNames catalog (declared.map Declaration.name) := by
  constructor
  · intro success
    have run : loadDocument catalog document = (.ok (), (loadDocument catalog document).2) :=
      Prod.ext success rfl
    obtain ⟨nodes, found, adds⟩ := loadDocument_eq_ok run
    obtain ⟨declared, given, pairs, checked⟩ := nodesOf_eq_ok found
    have each := Outcome.mapM_eq_ok.mpr pairs
    have names := names_nodes each
    refine ⟨declared, given, fun declaration member => ?_, names ▸ checked.distinct, ?_⟩
    · obtain ⟨node, _, resolved⟩ := Outcome.exists_of_mem_items each member
      exact (resolve_succeeds_iff declared catalog).mp ⟨node, resolved⟩
    · rw [← names]
      have nodup : (catalog.names ++ nodes.map Node.name).Nodup :=
        adds.names ▸ (loadDocument catalog document).2.types.nodup
      intro name member
      obtain ⟨node, present, rfl⟩ := List.mem_map.mp member
      exact ⟨fun known => (List.nodup_append.mp nodup).2.2 _ known _ member rfl,
        checked.unknown node present⟩
  · rintro ⟨declared, given, resolvable, fresh⟩
    obtain ⟨nodes, each⟩ := Outcome.exists_mapM_iff.mpr fun declaration member =>
      (resolve_succeeds_iff declared catalog).mpr (resolvable declaration member)
    rw [← names_nodes each] at fresh
    have unknown (node : Node) (member : node ∈ nodes) := fresh.unknown _ (List.mem_map_of_mem member)
    have found : nodesOf catalog document = .ok nodes :=
      nodesOf_of_checked given each ⟨fun node member => (unknown node member).2, fresh.distinct⟩
    have inserts := nodesOf_inserts found
    rw [loadDocument, found]
    simp only
    generalize insertAll catalog nodes = result at inserts
    cases inserts with
    | all _ _ => rfl
    | @stopped _ _ duplicate _ _ taken _ =>
        exact absurd taken (unknown duplicate (List.mem_append_right _ List.mem_cons_self)).1

-----------------------------------------------------------------------------------------
-- Shapes of objects
-----------------------------------------------------------------------------------------

/-- The word names a scalar type that the keys of a map may have. -/
def NamesMapKey (keyword : String) : Prop :=
  ∃ kind, Scalar.ofKeyword? keyword = some kind ∧ kind.isMapKey

/-- The members of a field that can be read: its type is a text, and if its key type is one, this
names a type of keys and the field is not repeated.
-/
structure ReadableField (members : Entries Json) : Prop where
  typed : ∃ typeName, members.get? "type" = some (.text typeName)
  keyed
    : ∀ keyword,
        members.get? "keyType" = some (.text keyword)
        → NamesMapKey keyword ∧ members.get? "rule" ≠ some (.text "repeated")

/-- The members of a field of the documented shape: its type is a text, and if it has a key type, this
is a text that names a type of keys, and the field is not repeated.
-/
structure WellShapedField (members : Entries Json) : Prop where
  typed : ∃ typeName, members.get? "type" = some (.text typeName)
  keyed
    : ∀ value,
        members.get? "keyType" = some value
        → (∃ keyword, value = .text keyword ∧ NamesMapKey keyword)
          ∧ members.get? "rule" ≠ some (.text "repeated")

/-- The group has an array of texts, each of which is among the names of fields. -/
def ListsFields (fields : List String) (group : Json) : Prop :=
  ∃ listed : List String, group.member? "oneof" = some (.array (listed.map .text)) ∧ listed ⊆ fields

/-- The members of a message whose fields have this shape: an object of fields that are objects, and
groups, if any, that list some of them.
-/
def ShapedMessage (Field : Entries Json → Prop) (members : Entries Json) : Prop :=
  ∃ fields : Entries Json,
    members.get? "fields" = some (.object fields)
    ∧ (∀ entry ∈ fields, ∃ inner, entry.2 = .object inner ∧ Field inner)
    ∧ ∀ groups,
        members.get? "oneofs" = some (.object groups)
        → ∀ entry ∈ groups, ListsFields fields.keys entry.2

/-- The members of an enumeration: an object of integers of at most 32 bits, sign included. -/
def ShapedEnumeration (members : Entries Json) : Prop :=
  ∃ values : Entries Json,
    members.get? "values" = some (.object values)
    ∧ ∀ entry ∈ values,
        ∃ number : Int, entry.2 = .integer number ∧ -0x80000000 ≤ number ∧ number ≤ 0x7FFFFFFF

/-- What is nested in the object, if anything, is an object of objects. -/
def NestsObjects (members : Entries Json) : Prop :=
  ∀ value,
    members.get? "nested" = some value
    → ∃ entries, value = .object entries ∧ ∀ entry ∈ entries, ∃ inner, entry.2 = .object inner

/-- The members of an object that is met in a document whose fields have this shape. Nothing is asked
of what is nested in an enumeration, as it is not visited.
-/
structure ShapedObject (Field : Entries Json → Prop) (members : Entries Json) : Prop where
  message : "fields" ∈ members.keys → ShapedMessage Field members
  enumeration : IsEnumeration members → ShapedEnumeration members
  nested : ¬ IsEnumeration members → NestsObjects members

/-- A document of objects whose fields have this shape. -/
def Shaped (Field : Entries Json → Prop) (document : Json) : Prop :=
  ∃ members,
    document = .object members
    ∧ NestsObjects members
    ∧ ∀ site, MeetsAmong 0 (nestedEntries members) site → ShapedObject Field site.members

-----------------------------------------------------------------------------------------
-- Objects that can be read
-----------------------------------------------------------------------------------------

theorem text?_eq_some {value : Json} {text : String} (found : value.text? = some text)
    : value = .text text := by
  cases value <;> cases found
  rfl

theorem bind_text?_eq_some_iff {key text : String}
    : (members.get? key).bind Json.text? = some text ↔ members.get? key = some (.text text) := by
  constructor
  · intro found
    obtain ⟨value, stored, same⟩ := Option.bind_eq_some_iff.mp found
    rw [stored, text?_eq_some same]
  · intro found
    rw [found]
    rfl

/-- The keyword of a rule; a field without a rule is written without one. -/
def Rule.keyword? : Rule → Option String
  | .unspecified => none
  | .optional => some "optional"
  | .required => some "required"
  | .repeated => some "repeated"

/-- A rule is read exactly if its keyword is written. -/
theorem rule_eq_iff {rule : Rule} {keyword : String} (named : rule.keyword? = some keyword)
    : (((members.get? "rule").bind Json.text?).map Rule.ofKeyword).getD .unspecified = rule
      ↔ members.get? "rule" = some (.text keyword) := by
  have words (word : String) : Rule.ofKeyword word = rule ↔ word = keyword := by
    unfold Rule.ofKeyword
    cases rule <;> cases named <;> split <;> simp_all
  rw [← bind_text?_eq_some_iff]
  cases (members.get? "rule").bind Json.text? with
  | none => cases rule <;> cases named <;> simp
  | some word => simp [words]

theorem namesMapKey_iff {keyword : String}
    : NamesMapKey keyword
      ↔ ∃ key, (Scalar.ofKeyword? keyword).filter Scalar.isMapKey = some key := by
  simp only [NamesMapKey, Option.filter_eq_some_iff]

theorem readableField_iff
    : ReadableField members
      ↔ (∃ typeName, (members.get? "type").bind Json.text? = some typeName)
        ∧ ∀ keyword,
            (members.get? "keyType").bind Json.text? = some keyword
            → NamesMapKey keyword ∧ members.get? "rule" ≠ some (.text "repeated") := by
  simp only [bind_text?_eq_some_iff]
  exact ⟨fun ⟨typed, keyed⟩ => ⟨typed, keyed⟩, fun ⟨typed, keyed⟩ => ⟨typed, keyed⟩⟩

/-- A field can be read and resolved exactly if its value is an object of readable members, by cases
on its type and its key type.
-/
theorem fieldOf_accepts_iff (message name : String) {value : Json}
    : (∃ field,
        fieldOf message name value = .ok field
        ∧ ¬ (field.rule = .repeated ∧ field.mapKey.isSome))
      ↔ ∃ inner, value = .object inner ∧ ReadableField inner := by
  cases value with
  | null | bool _ | integer _ | decimal _ _ _ | text _ | array _ => simp [fieldOf, Json.members?]
  | object members =>
      have repeated := @rule_eq_iff members .repeated "repeated" rfl
      simp only [Json.object.injEq, exists_eq_left', fieldOf, Json.members?]
      rw [readableField_iff]
      cases (Entries.get? "type" members).bind Json.text? with
      | none => simp
      | some typeName =>
          simp only [keyTypeOf]
          cases (Entries.get? "keyType" members).bind Json.text? with
          | none => simp [Outcome.bind_eq_ok]
          | some keyword =>
              simp only [Option.some.injEq, exists_eq', true_and, forall_eq', namesMapKey_iff]
              cases (Scalar.ofKeyword? keyword).filter Scalar.isMapKey with
              | none => simp [Outcome.bind_eq_ok]
              | some key =>
                  simp only [Outcome.bind_eq_ok, Except.ok.injEq, Option.some.injEq,
                    exists_eq_left', exists_eq', true_and, Option.isSome_some, and_true,
                    repeated, ne_eq]

/-- The members of a group are read from an array of texts. -/
theorem groupMembersOf_eq_ok {message group : String} {value : Json} {listed : List String}
    : groupMembersOf message group value = .ok listed
      ↔ value.member? "oneof" = some (.array (listed.map .text)) := by
  have texts {read : Json → Except Malformation String}
      (each : ∀ item member, read item = .ok member ↔ item = .text member) (items : List Json)
      : items.mapM read = .ok listed ↔ items = listed.map .text := by
    rw [Outcome.mapM_eq_ok, ← List.forall₂_eq_eq_eq, List.forall₂_map_right_iff]
    simp only [each]
  unfold groupMembersOf
  cases value.member? "oneof" with
  | none => simp
  | some inner =>
      cases inner with
      | array inner =>
          rw [Option.some.injEq, Json.array.injEq]
          refine texts (fun item member => ?_) inner
          cases item <;> simp [Json.text?]
      | null | bool _ | integer _ | decimal _ _ _ | text _ | object _ => simp [Json.items?]

theorem subset_of_isPresenceMark {fields : List FieldDeclaration} {group : String}
    {listed : List String} (mark : isPresenceMark fields group listed = true)
    : listed ⊆ fields.map FieldDeclaration.name := by
  unfold isPresenceMark at mark
  split at mark
  · next member =>
      rw [Bool.and_eq_true, List.any_eq_true] at mark
      obtain ⟨_, field, present, named⟩ := mark
      rw [Bool.and_eq_true, decide_eq_true_eq] at named
      exact List.cons_subset.mpr
        ⟨List.mem_map.mpr ⟨field, present, named.1⟩, List.nil_subset _⟩
  · simp at mark

/-- Groups can be read exactly if they list fields, by induction on the groups. -/
theorem groupsOf_succeeds_iff {message : String} {fields : List FieldDeclaration}
    {groups : Entries Json}
    : (∃ result, groupsOf message fields groups = .ok result)
      ↔ ∀ entry ∈ groups, ListsFields (fields.map FieldDeclaration.name) entry.2 := by
  induction groups generalizing fields with
  | nil => simp [groupsOf]
  | cons entry rest ih =>
      obtain ⟨group, value⟩ := entry
      have names (listed : List String)
          : (fields.map (joined group listed)).map FieldDeclaration.name
            = fields.map FieldDeclaration.name := by
        simp [Function.comp_def]
      rw [List.forall_mem_cons]
      constructor
      · rintro ⟨result, success⟩
        rw [groupsOf] at success
        obtain ⟨listed, read, reads⟩ := Outcome.bind_eq_ok.mp success
        rw [groupMembersOf_eq_ok] at read
        split at reads
        · next mark =>
            exact ⟨⟨listed, read, subset_of_isPresenceMark mark⟩, ih.mp ⟨result, reads⟩⟩
        · obtain ⟨middle, joins, reads⟩ := Outcome.bind_eq_ok.mp reads
          obtain ⟨others, later, _⟩ := Outcome.bind_eq_ok.mp reads
          obtain ⟨subset, rfl⟩ := foldlM_joinGroup_eq_ok.mp joins
          exact ⟨⟨listed, read, subset⟩, names listed ▸ ih.mp ⟨others, later⟩⟩
      · rintro ⟨⟨listed, read, subset⟩, others⟩
        rw [groupsOf]
        simp only [groupMembersOf_eq_ok.mpr read]
        by_cases mark : isPresenceMark fields group listed = true
        · obtain ⟨result, later⟩ := ih.mpr others
          refine ⟨result, Outcome.bind_eq_ok.mpr ⟨listed, rfl, ?_⟩⟩
          rw [if_pos mark, later]
        · have joins : listed.foldlM (joinGroup message group) fields
              = .ok (fields.map (joined group listed)) :=
            foldlM_joinGroup_eq_ok.mpr ⟨subset, rfl⟩
          rw [← names listed] at others
          obtain ⟨⟨after, oneofs⟩, later⟩ := ih.mpr others
          let kept : OneOf :=
            { name := group, members := listed, comment := value.members?.bind commentOf }
          refine ⟨(after, kept :: oneofs), Outcome.bind_eq_ok.mpr ⟨listed, rfl, ?_⟩⟩
          rw [if_neg mark]
          exact Outcome.bind_eq_ok.mpr ⟨_, joins, Outcome.bind_eq_ok.mpr ⟨_, later, rfl⟩⟩

/-- A message can be read and resolved exactly if its members have the shape of one. -/
theorem messageOf_accepts_iff (name : String)
    : (∃ content,
        messageOf name members = .ok content ∧ (Declaration.message content).Resolvable)
      ↔ ShapedMessage ReadableField members := by
  have groups (fields : List FieldDeclaration)
      : (∃ result, groupsOf name fields (groupEntries members) = .ok result)
        ↔ ∀ groups,
            members.get? "oneofs" = some (.object groups)
            → ∀ entry ∈ groups, ListsFields (fields.map FieldDeclaration.name) entry.2 := by
    rw [groupsOf_succeeds_iff, groupEntries]
    simp only [← bind_members?_eq_some_iff]
    cases (members.get? "oneofs").bind Json.members? <;> simp
  constructor
  · rintro ⟨content, success, resolvable⟩
    obtain ⟨_, entries, fields, found, read, grouped⟩ := messageOf_reads success
    rw [Declaration.Resolvable, (groupsOf_eq_ok grouped).2] at resolvable
    have plain := List.forall_mem_map.mp resolvable
    have each := Outcome.exists_mapM_and_iff.mp ⟨fields, read, plain⟩
    refine ⟨entries, found, fun entry member => ?_, ?_⟩
    · exact (fieldOf_accepts_iff name entry.1).mp (each entry member)
    · rw [← names_of_fields read]
      exact (groups fields).mp ⟨_, grouped⟩
  · rintro ⟨entries, found, each, listed⟩
    obtain ⟨fields, read, plain⟩ := Outcome.exists_mapM_and_iff.mpr fun entry member =>
      (fieldOf_accepts_iff name entry.1).mpr (each entry member)
    rw [← names_of_fields read] at listed
    obtain ⟨⟨after, oneofs⟩, grouped⟩ := (groups fields).mpr listed
    obtain ⟨_, rfl⟩ := groupsOf_eq_ok grouped
    let content : MessageDeclaration :=
      { name, fields := fields.map (enrolled oneofs), oneofs, comment := commentOf members }
    refine ⟨content, ?_, List.forall_mem_map.mpr plain⟩
    rw [messageOf, bind_members?_eq_some_iff.mpr found]
    exact Outcome.bind_eq_ok.mpr ⟨fields, read, Outcome.bind_eq_ok.mpr ⟨_, grouped, rfl⟩⟩

theorem addValue_eq_ok {content after : Enumeration} {entry : String × Json}
    : addValue content entry = .ok after
      ↔ ∃ number : Int,
          (entry.2 = .integer number ∧ -0x80000000 ≤ number ∧ number ≤ 0x7FFFFFFF)
          ∧ content.withValue entry.1 number = after := by
  simp only [← integer32?_eq_some_iff, addValue]
  cases entry.2.integer32? <;> simp

/-- Symbols can be added exactly if they have integers that fit, by induction on the symbols. -/
theorem foldlM_addValue_succeeds_iff {values : Entries Json} (content : Enumeration)
    : (∃ after, values.foldlM addValue content = .ok after)
      ↔ ∀ entry ∈ values,
          ∃ number : Int, entry.2 = .integer number ∧ -0x80000000 ≤ number ∧ number ≤ 0x7FFFFFFF := by
  induction values generalizing content with
  | nil => simp [pure, Except.pure]
  | cons entry rest ih =>
      rw [List.forall_mem_cons]
      simp only [List.foldlM_cons, Outcome.bind_eq_ok, addValue_eq_ok]
      constructor
      · rintro ⟨after, _, ⟨number, fits, rfl⟩, later⟩
        exact ⟨⟨number, fits⟩, (ih _).mp ⟨after, later⟩⟩
      · rintro ⟨⟨number, fits⟩, others⟩
        obtain ⟨after, later⟩ := (ih (content.withValue entry.1 number)).mpr others
        exact ⟨after, _, ⟨number, fits, rfl⟩, later⟩

/-- An enumeration can be read exactly if its members have the shape of one. -/
theorem enumerationOf_succeeds_iff (name : String)
    : (∃ content, enumerationOf name members = .ok content) ↔ ShapedEnumeration members := by
  simp only [ShapedEnumeration, ← bind_members?_eq_some_iff, enumerationOf]
  cases (members.get? "values").bind Json.members? with
  | none => simp
  | some values =>
      simp only [Option.some.injEq, exists_eq_left', Outcome.bind_eq_ok]
      rw [← foldlM_addValue_succeeds_iff { name, comment := commentOf members }]
      exact ⟨fun ⟨_, valued, read, _⟩ => ⟨valued, read⟩, fun ⟨valued, read⟩ => ⟨_, valued, read, rfl⟩⟩

-----------------------------------------------------------------------------------------
-- Documents that can be read
-----------------------------------------------------------------------------------------

/-- Declarations are read and can all be resolved. -/
def Accepted (outcome : Except Malformation (List Declaration)) : Prop :=
  ∃ declared, outcome = .ok declared ∧ ∀ declaration ∈ declared, declaration.Resolvable

/-- What is nested in an object is accepted exactly if each entry is. -/
theorem accepted_nestedDeclarations_iff {scope : String}
    : Accepted (nestedDeclarations scope members)
      ↔ NestsObject members
        ∧ ∀ entry ∈ nestedEntries members,
            Accepted (typeDeclarations (Name.qualify scope entry.1) entry.2) := by
  have parts := @Outcome.exists_mapM_and_iff _ _ _
    (fun part : List Declaration => ∀ declaration ∈ part, declaration.Resolvable)
    (fun entry => typeDeclarations (Name.qualify scope entry.1) entry.2) (nestedEntries members)
  simp only [Accepted, nestedDeclarations_eq_ok, entryDeclarations_eq_ok, ← Outcome.mapM_eq_ok]
  rw [← parts]
  constructor
  · rintro ⟨_, ⟨object, parts, read, rfl⟩, all⟩
    refine ⟨object, parts, read, fun part present declaration member => ?_⟩
    exact all declaration (List.mem_flatten_of_mem present member)
  · rintro ⟨object, parts, read, all⟩
    refine ⟨_, ⟨object, parts, read, rfl⟩, fun declaration member => ?_⟩
    obtain ⟨part, present, inside⟩ := List.mem_flatten.mp member
    exact all part present declaration inside

/-- An object is accepted exactly if it has the shape of what it declares and what is visited of its
nested entries is accepted, by cases on what it declares.
-/
theorem accepted_typeDeclarations_iff {name : String}
    : Accepted (typeDeclarations name (.object members))
      ↔ ("fields" ∈ members.keys → ShapedMessage ReadableField members)
        ∧ (IsEnumeration members → ShapedEnumeration members)
        ∧ (¬ IsEnumeration members → Accepted (nestedDeclarations name members)) := by
  simp only [Accepted, typeDeclarations_eq_ok]
  constructor
  · rintro ⟨declared, reads, all⟩
    cases reads with
    | message present read inside =>
        obtain ⟨resolvable, others⟩ := List.forall_mem_cons.mp all
        exact ⟨fun _ => (messageOf_accepts_iff name).mp ⟨_, read, resolvable⟩,
          fun enumeration => absurd present enumeration.1, fun _ => ⟨_, inside, others⟩⟩
    | enumeration present read =>
        exact ⟨fun fielded => absurd fielded present.1,
          fun _ => (enumerationOf_succeeds_iff name).mp ⟨_, read⟩, fun plain => absurd present plain⟩
    | scope untyped inside =>
        exact ⟨fun fielded => absurd (.inl fielded) untyped,
          fun enumeration => absurd (.inr enumeration.2) untyped, fun _ => ⟨_, inside, all⟩⟩
  · rintro ⟨message, enumeration, nested⟩
    by_cases present : IsEnumeration members
    · obtain ⟨content, read⟩ :=
        (enumerationOf_succeeds_iff name).mpr (enumeration present)
      exact ⟨_, .enumeration present read, List.forall_mem_singleton.mpr trivial⟩
    · obtain ⟨declared, inside, all⟩ := nested present
      by_cases fielded : "fields" ∈ members.keys
      · obtain ⟨content, read, resolvable⟩ :=
          (messageOf_accepts_iff name).mpr (message fielded)
        exact ⟨_, .message fielded read inside, List.forall_mem_cons.mpr ⟨resolvable, all⟩⟩
      · have untyped : ¬ IsType members := fun type =>
          type.elim fielded fun valued => present ⟨fielded, valued⟩
        exact ⟨_, .scope untyped inside, all⟩

theorem nestsObjects_iff
    : NestsObjects members
      ↔ NestsObject members ∧ ∀ entry ∈ nestedEntries members, ∃ inner, entry.2 = .object inner := by
  unfold NestsObjects NestsObject nestedEntries
  cases members.get? "nested" with
  | none => simp
  | some value =>
      cases value with
      | object entries => simp [Json.members?]
      | null | bool _ | integer _ | decimal _ _ _ | text _ | array _ => simp

/-- What is nested in an object is accepted exactly if all objects that are met in it can be read, by
induction on the object.
-/
theorem accepted_iff_shaped {scope : String}
    : Accepted (nestedDeclarations scope members)
      ↔ NestsObjects members
        ∧ ∀ site,
            MeetsAmong 0 (nestedEntries members) site
            → ShapedObject ReadableField site.members := by
  induction members using object_induction generalizing scope with
  | step members ih =>
  have entry (key : String) (inner : Entries Json)
      (member : (key, .object inner) ∈ nestedEntries members)
      : Accepted (typeDeclarations (Name.qualify scope key) (.object inner))
        ↔ ∀ site, Meets inner site → ShapedObject ReadableField site.members := by
    rw [accepted_typeDeclarations_iff, ih key inner member, forall_meets_iff]
    constructor
    · rintro ⟨message, enumeration, nested⟩
      exact ⟨⟨message, enumeration, fun enters => (nested enters).1⟩,
        fun enters => (nested enters).2⟩
    · rintro ⟨⟨message, enumeration, nested⟩, below⟩
      exact ⟨message, enumeration, fun enters => ⟨nested enters, below enters⟩⟩
  rw [accepted_nestedDeclarations_iff, nestsObjects_iff, forall_meetsAmong_iff, and_assoc]
  refine and_congr_right fun _ => ?_
  constructor
  · intro all
    refine ⟨fun item present => ?_, fun key inner member => ?_⟩
    · obtain ⟨_, read, _⟩ := all item present
      exact object_of_typeDeclarations read
    · exact (entry key inner member).mp (all _ member)
  · rintro ⟨objects, below⟩ ⟨key, value⟩ member
    obtain ⟨inner, rfl⟩ := objects _ member
    exact (entry key inner member).mpr (below key inner member)

/-- The declarations of a document are accepted exactly if its objects can be read. -/
theorem accepted_declarations_iff
    : Accepted (declarations document) ↔ Shaped ReadableField document := by
  cases document with
  | object members =>
      simp only [Shaped, Json.object.injEq, exists_eq_left']
      exact accepted_iff_shaped
  | null | bool _ | integer _ | decimal _ _ _ | text _ | array _ =>
      simp [Accepted, declarations, Shaped]

-----------------------------------------------------------------------------------------
-- The documented shape
-----------------------------------------------------------------------------------------

/-- The key type of the field, if it has one, is a text. -/
def KeyTypeIsText (members : Entries Json) : Prop :=
  ∀ value, members.get? "keyType" = some value → ∃ keyword, value = .text keyword

/-- The key types of all fields of messages that are met in the document are texts. -/
def KeyTypesAreTexts (document : Json) : Prop :=
  ∀ site,
    MetIn document site
    → ∀ fields : Entries Json,
        site.members.get? "fields" = some (.object fields)
        → ∀ entry ∈ fields, ∀ inner, entry.2 = .object inner → KeyTypeIsText inner

theorem wellShapedField_iff
    : WellShapedField members ↔ ReadableField members ∧ KeyTypeIsText members := by
  constructor
  · rintro ⟨typed, keyed⟩
    refine ⟨⟨typed, fun keyword found => ?_⟩, fun value found => ?_⟩
    · obtain ⟨⟨_, same, names⟩, single⟩ := keyed _ found
      cases same
      exact ⟨names, single⟩
    · obtain ⟨⟨keyword, same, _⟩, _⟩ := keyed value found
      exact ⟨keyword, same⟩
  · rintro ⟨⟨typed, keyed⟩, texts⟩
    refine ⟨typed, fun value found => ?_⟩
    obtain ⟨keyword, rfl⟩ := texts value found
    obtain ⟨names, single⟩ := keyed keyword found
    exact ⟨⟨keyword, rfl, names⟩, single⟩

/-- The documented shape is the one that can be read, with key types that are texts. -/
theorem wellShaped_iff
    : Shaped WellShapedField document
      ↔ Shaped ReadableField document ∧ KeyTypesAreTexts document := by
  constructor
  · rintro ⟨members, rfl, nests, each⟩
    refine ⟨⟨members, rfl, nests, fun site met => ?_⟩, fun site met fields found => ?_⟩
    · obtain ⟨message, enumeration, nested⟩ := each site met
      refine ⟨fun fielded => ?_, enumeration, nested⟩
      obtain ⟨fields, found, shaped, groups⟩ := message fielded
      refine ⟨fields, found, fun entry member => ?_, groups⟩
      exact (shaped entry member).imp fun _ => .imp_right fun field =>
        (wellShapedField_iff.mp field).1
    · intro entry member inner same
      have present : "fields" ∈ site.members.keys := Entries.get?_isSome_iff.mp (by rw [found]; rfl)
      obtain ⟨others, again, shaped, _⟩ := (each site (metIn_object.mp met)).message present
      cases found.symm.trans again
      obtain ⟨_, object, field⟩ := shaped entry member
      cases object.symm.trans same
      exact (wellShapedField_iff.mp field).2
  · rintro ⟨⟨members, rfl, nests, each⟩, texts⟩
    refine ⟨members, rfl, nests, fun site met => ?_⟩
    obtain ⟨message, enumeration, nested⟩ := each site met
    refine ⟨fun fielded => ?_, enumeration, nested⟩
    obtain ⟨fields, found, shaped, groups⟩ := message fielded
    refine ⟨fields, found, fun entry member => ?_, groups⟩
    obtain ⟨inner, object, field⟩ := shaped entry member
    have text := texts site (metIn_object.mpr met) fields found entry member inner object
    exact ⟨inner, object, wellShapedField_iff.mpr ⟨field, text⟩⟩

-----------------------------------------------------------------------------------------
-- Names of types
-----------------------------------------------------------------------------------------

/-- The names of the types that are met in the document are distinct, and none of them is known, with
leading dots or without them.
-/
structure NewNames (catalog : Catalog) (document : Json) : Prop where
  distinct
    : ∀ first second,
        MetIn document first
        → IsType first.members
        → MetIn document second
        → IsType second.members
        → dottedPath first.path = dottedPath second.path
        → first = second
  unknown
    : ∀ site,
        MetIn document site
        → IsType site.members
        → dottedPath site.path ∉ catalog.names
          ∧ Name.dropLeadingDots (dottedPath site.path) ∉ catalog.names

/-- The declarations have the names of the types that are met, each of which is met once. -/
theorem names_declarations {declared : List Declaration} (distinct : document.DistinctKeys)
    (given : declarations document = .ok declared)
    : ∃ sites : List Site,
        declared.map Declaration.name = sites.map (fun site => dottedPath site.path)
        ∧ (∀ site, site ∈ sites ↔ MetIn document site ∧ IsType site.members)
        ∧ sites.Nodup := by
  obtain ⟨members, sites, rfl, walk⟩ := declarations_walk distinct given
  refine ⟨sites, ?_, fun site => by rw [metIn_object, walk.types], ?_⟩
  · rw [← List.forall₂_eq_eq_eq, List.forall₂_map_left_iff, List.forall₂_map_right_iff]
    refine walk.each.flip.imp fun declaration site declares => ?_
    rw [← foldl_qualify_empty, ← name_read [] {}]
    exact (declares [] {}).name_eq
  · refine walk.ordered.imp fun {first second} less same => ?_
    rw [same] at less
    exact List.lt_irrefl _ less

/-- The declared names are new exactly if those of the types that are met are. -/
theorem freshNames_iff {declared : List Declaration} (distinct : document.DistinctKeys)
    (given : declarations document = .ok declared)
    : FreshNames catalog (declared.map Declaration.name) ↔ NewNames catalog document := by
  obtain ⟨sites, names, types, once⟩ := names_declarations distinct given
  rw [names]
  constructor
  · rintro ⟨nodup, unknown⟩
    refine ⟨fun first second left leftType right rightType same => ?_, fun site met type => ?_⟩
    · exact List.inj_on_of_nodup_map nodup ((types _).mpr ⟨left, leftType⟩)
        ((types _).mpr ⟨right, rightType⟩) same
    · exact unknown _ (List.mem_map_of_mem ((types _).mpr ⟨met, type⟩))
  · rintro ⟨apart, unknown⟩
    refine ⟨once.map_on fun first left second right same => ?_, List.forall_mem_map.mpr ?_⟩
    · obtain ⟨leftMet, leftType⟩ := (types _).mp left
      obtain ⟨rightMet, rightType⟩ := (types _).mp right
      exact apart first second leftMet leftType rightMet rightType same
    · intro site member
      obtain ⟨met, type⟩ := (types _).mp member
      exact unknown site met type

-----------------------------------------------------------------------------------------
-- Documents that load
-----------------------------------------------------------------------------------------

/-- Which documents load. One loads exactly if its objects can be read and the names of its types are
new; otherwise it is malformed. The objects that can be read are those of the documented shape,
apart from key types that are no texts: a document loads and has none of these exactly if it is of
the documented shape and the names of its types are new.
-/
theorem load_accepts_iff (distinct : document.DistinctKeys)
    : ((loadDocument catalog document).1 = .ok ()
        ↔ Shaped ReadableField document ∧ NewNames catalog document)
      ∧ ((loadDocument catalog document).1 = .ok () ∧ KeyTypesAreTexts document
        ↔ Shaped WellShapedField document ∧ NewNames catalog document)
      ∧ (¬ (Shaped ReadableField document ∧ NewNames catalog document)
        → ∃ malformation, (loadDocument catalog document).1 = .error malformation) := by
  have readable
      : (loadDocument catalog document).1 = .ok ()
        ↔ Shaped ReadableField document ∧ NewNames catalog document := by
    rw [loadDocument_ok_iff, ← accepted_declarations_iff]
    constructor
    · rintro ⟨declared, given, resolvable, fresh⟩
      exact ⟨⟨declared, given, resolvable⟩, (freshNames_iff distinct given).mp fresh⟩
    · rintro ⟨⟨declared, given, resolvable⟩, new⟩
      exact ⟨declared, given, resolvable, (freshNames_iff distinct given).mpr new⟩
  refine ⟨readable, ?_, fun unreadable => ?_⟩
  · rw [readable, wellShaped_iff, and_right_comm]
  · rw [← readable] at unreadable
    cases result : (loadDocument catalog document).1 with
    | ok _ => exact absurd result unreadable
    | error malformation => exact ⟨malformation, rfl⟩

/-- The members of a message with one field, which has this key type. -/
def mapMessage (keyType : Json) : Entries Json :=
  [("fields", .object [("labels", .object [("keyType", keyType), ("type", .text "string")])])]

/-- A document with such a message. -/
def mapDocument (keyType : Json) : Json :=
  namespaceOf [("M", .object (mapMessage keyType))]

theorem mapDocument_distinct {keyType : Json} (distinct : keyType.DistinctKeys)
    : (mapDocument keyType).DistinctKeys := by
  simp [mapDocument, mapMessage, namespaceOf, Json.distinctKeys_object_iff,
    Json.distinctMembers_cons, Json.distinctMembers_nil, Json.DistinctKeys.text, Entries.keys,
    distinct]

/-- Nothing but the message is met. -/
theorem metIn_mapDocument {keyType : Json} {site : Site}
    : MetIn (mapDocument keyType) site ↔ site = ⟨[0], ["M"], mapMessage keyType⟩ := by
  rw [mapDocument, namespaceOf, metIn_object]
  constructor
  · intro met
    cases met with
    | first meets =>
        rcases meets_iff.mp meets with rfl | ⟨_, inside⟩
        · rfl
        · cases inside
    | later meets => cases meets
  · rintro rfl
    exact .first (.here (mapMessage keyType))

theorem keyTypesAreTexts_mapDocument {keyType : Json}
    : KeyTypesAreTexts (mapDocument keyType) ↔ ∃ keyword, keyType = .text keyword := by
  simp only [KeyTypesAreTexts, metIn_mapDocument, forall_eq]
  simp [mapMessage, Entries.get?, KeyTypeIsText]

/-- A map whose key type is a text has the documented shape. -/
theorem text_key_well_shaped
    : (mapDocument (.text "int32")).DistinctKeys
      ∧ Shaped WellShapedField (mapDocument (.text "int32"))
      ∧ NewNames oldCatalog (mapDocument (.text "int32")) := by
  have distinct : (mapDocument (.text "int32")).DistinctKeys := mapDocument_distinct (.text _)
  have loads : (loadDocument oldCatalog (mapDocument (.text "int32"))).1 = .ok () := by
    decide +kernel
  have texts : KeyTypesAreTexts (mapDocument (.text "int32")) :=
    keyTypesAreTexts_mapDocument.mpr ⟨"int32", rfl⟩
  exact ⟨distinct, (load_accepts_iff distinct).2.1.mp ⟨loads, texts⟩⟩

/-- A map whose key type is a number has not, but it loads. -/
theorem number_key_loads
    : (mapDocument (.integer 5)).DistinctKeys
      ∧ (loadDocument {} (mapDocument (.integer 5))).1 = .ok ()
      ∧ ¬ Shaped WellShapedField (mapDocument (.integer 5)) := by
  refine ⟨mapDocument_distinct (.integer 5), by decide +kernel, fun shaped => ?_⟩
  obtain ⟨keyword, same⟩ := keyTypesAreTexts_mapDocument.mp (wellShaped_iff.mp shaped).2
  cases same

end ProtoSchema.Descriptor
