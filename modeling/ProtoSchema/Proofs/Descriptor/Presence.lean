import ProtoSchema.Proofs.Descriptor.Scoping

/-! Which fields of a loaded message track presence. What is written for a field decides it,
together with the groups that list the field and the kind of the type that its reference stands
for; a group that only marks its single member as optional is not kept, and nothing is a member of
it.
-/

namespace ProtoSchema.Descriptor

open Schema
open Json (DistinctMembers)

variable {catalog after : Catalog} {document : Json} {members fields : Entries Json}
variable {before : List FieldDeclaration} {declared : List Declaration} {owner group : String}

/-- The group only marks its single member as optional: its name starts with an underscore, and
what is written for the member marks it so.
-/
def MarksPresence (fields : Entries Json) (group : String × Json) : Prop :=
  group.1.toList.head? = some '_'
  ∧ ∃ member value,
      group.2.member? "oneof" = some (.array [.text member])
      ∧ (member, value) ∈ fields
      ∧ MarkedOptional value

/-- Some group lists the field and does not only mark it as optional. -/
def InGroup (members fields : Entries Json) (field : String) : Prop :=
  ∃ group ∈ groupEntries members,
    ¬ MarksPresence fields group
    ∧ ∃ listed : List String,
        group.2.member? "oneof" = some (.array (listed.map .text)) ∧ field ∈ listed

/-- The name is that of an enumeration of the document, or that of none of its types while the
catalog has an enumeration for it.
-/
def NamesEnumeration (document : Json) (catalog : Catalog) (name : String) : Prop :=
  (∃ site, MetIn document site ∧ IsEnumeration site.members ∧ dottedPath site.path = name)
  ∨ (¬ ∃ site, MetIn document site ∧ IsType site.members ∧ dottedPath site.path = name)
    ∧ ∃ content, catalog.lookup name = some (.enumeration content)

/-- The field has a single value, and its written type is a reference whose stored name is not
that of an enumeration.
-/
def SingularMessage (document : Json) (catalog : Catalog) (value : Json) (field : Field) : Prop :=
  ¬ HasRule "repeated" value
  ∧ ¬ WrittenMap value
  ∧ ∃ written stored,
      value.member? "type" = some (.text written)
      ∧ Scalar.ofKeyword? written = none
      ∧ field.type = .named stored
      ∧ ¬ NamesEnumeration document catalog stored

-----------------------------------------------------------------------------------------
-- Groups that are kept
-----------------------------------------------------------------------------------------

/-- What only marks a field as optional is the same after fields have joined a group. -/
theorem isPresenceMark_joined (joining other : String) (inside listed : List String)
    : isPresenceMark (before.map (joined joining inside)) other listed
      = isPresenceMark before other listed := by
  have tracks (field : FieldDeclaration)
      : (joined joining inside field).tracksPresence = field.tracksPresence := by
    unfold joined
    split <;> rfl
  unfold isPresenceMark
  congr 1
  split
  · rw [List.any_map]
    simp only [Function.comp_def, name_joined, tracks]
  · rfl

/-- The groups that are kept are those that do more than to mark a field as optional, by induction
on the groups that are read.
-/
theorem groupsOf_keeps_iff {groups : Entries Json} {joined : List FieldDeclaration}
    {oneofs : List OneOf} {listed : List String}
    (success : groupsOf owner before groups = .ok (joined, oneofs))
    : (group, listed) ∈ oneofs.map (fun oneof => (oneof.name, oneof.members))
      ↔ isPresenceMark before group listed = false
        ∧ ∃ value,
            (group, value) ∈ groups
            ∧ value.member? "oneof" = some (.array (listed.map .text)) := by
  induction groups generalizing before joined oneofs with
  | nil =>
      cases success
      simp
  | cons entry rest ih =>
      obtain ⟨first, inner⟩ := entry
      rw [groupsOf] at success
      obtain ⟨inside, read, reads⟩ := Outcome.bind_eq_ok.mp success
      rw [groupMembersOf_eq_ok] at read
      have lists : inner.member? "oneof" = some (.array (listed.map .text)) ↔ listed = inside := by
        rw [read, Option.some.injEq, Json.array.injEq, eq_comm]
        exact (List.map_injective_iff.mpr fun _ _ => Json.text.inj).eq_iff
      have here
          : (∃ value,
              (group, value) ∈ (first, inner) :: rest
              ∧ value.member? "oneof" = some (.array (listed.map .text)))
            ↔ (group = first ∧ listed = inside)
              ∨ ∃ value,
                  (group, value) ∈ rest
                  ∧ value.member? "oneof" = some (.array (listed.map .text)) := by
        simp only [List.mem_cons, Prod.mk.injEq, or_and_right, exists_or, and_assoc,
          exists_and_left, exists_eq_left, lists]
      rw [here]
      split at reads
      · next mark =>
          -- The first group is left out, and it is no group of the right-hand side either.
          rw [ih reads, and_congr_right_iff]
          intro kept
          refine (or_iff_right ?_).symm
          rintro ⟨rfl, rfl⟩
          rw [mark] at kept
          cases kept
      · next kept =>
          obtain ⟨middle, joins, reads⟩ := Outcome.bind_eq_ok.mp reads
          obtain ⟨⟨last, others⟩, later, same⟩ := Outcome.bind_eq_ok.mp reads
          cases same
          obtain ⟨_, rfl⟩ := foldlM_joinGroup_eq_ok.mp joins
          rw [List.map_cons, List.mem_cons, ih later, isPresenceMark_joined, Prod.mk.injEq,
            and_or_left]
          refine or_congr_left (and_iff_right_of_imp ?_).symm
          rintro ⟨rfl, rfl⟩
          exact Bool.eq_false_iff.mpr kept

/-- Whether a group only marks a field as optional is told by what is written for the field. -/
theorem isPresenceMark_iff (each : List.Forall₂ ReadFrom fields before) {value : Json}
    {listed : List String} (lists : value.member? "oneof" = some (.array (listed.map .text)))
    : isPresenceMark before group listed = true ↔ MarksPresence fields (group, value) := by
  have single (member : String)
      : (before.any fun field => field.name = member && field.tracksPresence) = true
        ↔ ∃ value, (member, value) ∈ fields ∧ MarkedOptional value := by
    rw [List.any_eq_true]
    constructor
    · rintro ⟨field, present, tracks⟩
      rw [Bool.and_eq_true, decide_eq_true_eq] at tracks
      obtain ⟨⟨key, value⟩, inside, reads⟩ := related_of_mem each present
      cases reads.name.symm.trans tracks.1
      exact ⟨value, inside, reads.marked.mp tracks.2⟩
    · rintro ⟨value, inside, marked⟩
      obtain ⟨field, present, reads⟩ := related_to_mem each inside
      refine ⟨field, present, ?_⟩
      rw [Bool.and_eq_true, decide_eq_true_eq]
      exact ⟨reads.name, reads.marked.mpr marked⟩
  unfold isPresenceMark MarksPresence
  rw [Bool.and_eq_true, decide_eq_true_eq, lists]
  refine and_congr_right fun _ => ?_
  match listed with
  | [] => simp
  | [member] => simp [single]
  | _ :: _ :: _ => simp

-----------------------------------------------------------------------------------------
-- Declared messages
-----------------------------------------------------------------------------------------

/-- The groups of a declared message are those of its object that do more than to mark a field as
optional.
-/
theorem messageOf_keeps_iff {content : MessageDeclaration} {listed : List String}
    (success : messageOf owner members = .ok content)
    (found : members.get? "fields" = some (.object fields))
    : (group, listed) ∈ content.oneofs.map (fun oneof => (oneof.name, oneof.members))
      ↔ ∃ value,
          (group, value) ∈ groupEntries members
          ∧ ¬ MarksPresence fields (group, value)
          ∧ value.member? "oneof" = some (.array (listed.map .text)) := by
  obtain ⟨_, _, before, again, read, groups⟩ := messageOf_reads success
  cases found.symm.trans again
  have each := mapM_fieldOf_readFrom read
  rw [groupsOf_keeps_iff groups, ← exists_and_left]
  refine exists_congr fun value => ?_
  rw [and_left_comm, and_congr_right_iff]
  refine fun _ => and_congr_left fun lists => ?_
  rw [← isPresenceMark_iff each lists, Bool.not_eq_true]

/-- A group of the object is kept exactly if it does more than to mark a field as optional. -/
theorem mem_groupNames_iff {content : MessageDeclaration} (distinct : DistinctMembers members)
    (success : messageOf owner members = .ok content)
    (found : members.get? "fields" = some (.object fields)) {entry : String × Json}
    (member : entry ∈ groupEntries members)
    : entry.1 ∈ content.oneofs.map OneOf.name ↔ ¬ MarksPresence fields entry := by
  constructor
  · intro kept
    obtain ⟨oneof, present, named⟩ := List.mem_map.mp kept
    obtain ⟨value, inside, marks, _⟩ :=
      (messageOf_keeps_iff success found).mp (List.mem_map_of_mem present)
    rw [named] at inside marks
    have same : value = entry.2 :=
      Option.some.inj
        ((Entries.get?_eq_some_of_mem (nodup_groupEntries distinct) inside).symm.trans
          (Entries.get?_eq_some_of_mem (nodup_groupEntries distinct) member))
    rwa [same] at marks
  · intro marks
    obtain ⟨_, _, _, _, _, groups⟩ := messageOf_reads success
    obtain ⟨listed, lists, _⟩ := groupsOf_succeeds_iff.mp ⟨_, groups⟩ entry member
    have kept := (messageOf_keeps_iff success found).mpr ⟨entry.2, member, marks, lists⟩
    obtain ⟨oneof, present, same⟩ := List.mem_map.mp kept
    exact List.mem_map.mpr ⟨oneof, present, congrArg Prod.fst same⟩

/-- A declared field is a member of a group exactly if a group that is kept lists it. -/
theorem oneof_isSome_iff {content : MessageDeclaration}
    (success : messageOf owner members = .ok content)
    (found : members.get? "fields" = some (.object fields)) {field : FieldDeclaration}
    (member : field ∈ content.fields)
    : field.oneof.isSome ↔ InGroup members fields field.name := by
  have listed : field.oneof.isSome ↔ ∃ oneof ∈ content.oneofs, field.name ∈ oneof.members := by
    rw [(messageOf_enrolled success).last field member, Option.isSome_map, lastGroup?,
      List.find?_isSome]
    simp
  rw [listed]
  constructor
  · rintro ⟨oneof, present, lists⟩
    obtain ⟨value, inside, marks, same⟩ :=
      (messageOf_keeps_iff success found).mp (List.mem_map_of_mem present)
    exact ⟨_, inside, marks, oneof.members, same, lists⟩
  · rintro ⟨⟨group, value⟩, inside, marks, listed, same, lists⟩
    have kept := (messageOf_keeps_iff success found).mpr ⟨value, inside, marks, same⟩
    obtain ⟨oneof, present, pair⟩ := List.mem_map.mp kept
    cases pair
    exact ⟨oneof, present, lists⟩

-----------------------------------------------------------------------------------------
-- Kinds of references
-----------------------------------------------------------------------------------------

/-- What is read under a name has it. -/
theorem Reads.name_eq {name : String} {declaration : Declaration}
    (distinct : DistinctMembers members) (reads : Reads name members declaration)
    : declaration.name = name := by
  cases reads with
  | message _ read => exact (messageOf_eq_ok read).1
  | enumeration _ read => exact (enumerationOf_eq_ok distinct read).1

theorem Reads.kind_iff {name : String} {declaration : Declaration}
    (reads : Reads name members declaration)
    : declaration.kind = .enumeration ↔ IsEnumeration members := by
  cases reads with
  | message fielded _ => exact iff_of_false Kind.noConfusion fun valued => valued.1 fielded
  | enumeration valued _ => exact iff_of_true rfl valued

/-- A name is known to be that of an enumeration exactly if it is the name of one, by cases on
whether the document declares it.
-/
theorem kind?_eq_enumeration_iff (distinct : document.DistinctKeys)
    (given : declarations document = .ok declared)
    (resolvable : ∀ declaration ∈ declared, declaration.Resolvable)
    (nodup : (declared.map Declaration.name).Nodup) (catalog : Catalog) (name : String)
    : kind? declared catalog name = some .enumeration ↔ NamesEnumeration document catalog name := by
  have types := declared_isSome_iff distinct given name
  unfold NamesEnumeration kind?
  rw [← types]
  cases found : declared.find? fun declaration => declaration.name = name with
  | none =>
      have stranger : ¬ ∃ site,
          MetIn document site ∧ IsEnumeration site.members ∧ dottedPath site.path = name := by
        rintro ⟨site, met, valued, named⟩
        have declares := types.mpr ⟨site, met, .inr valued.2, named⟩
        rw [found] at declares
        cases declares
      have known : (catalog.lookup name).map kindOf = some .enumeration
          ↔ ∃ content, catalog.lookup name = some (.enumeration content) := by
        rcases catalog.lookup name with _ | (content | content) <;> simp [kindOf]
      simp [stranger, known]
  | some declaration =>
      have present : declaration ∈ declared := List.mem_of_find?_eq_some found
      have named : declaration.name = name := by simpa using List.find?_some found
      have enumeration : declaration.kind = .enumeration
          ↔ ∃ site,
              MetIn document site ∧ IsEnumeration site.members ∧ dottedPath site.path = name := by
        constructor
        · intro kind
          obtain ⟨site, met, reads⟩ := (mem_declarations_iff given declaration).mp present
          have own := reads.name_eq (distinctMembers_of_metIn distinct met)
          rw [Site.name, foldl_qualify_empty] at own
          exact ⟨site, met, reads.kind_iff.mp kind, own.symm.trans named⟩
        · rintro ⟨site, met, valued, same⟩
          obtain ⟨other, inside, reads⟩ := exists_declaration given resolvable met (.inr valued.2)
          have own := reads.name_eq (distinctMembers_of_metIn distinct met)
          -- The names of declarations are distinct, so this is the one that was found.
          have equal : declaration = other :=
            List.inj_on_of_nodup_map nodup present inside (named.trans (own.trans same).symm)
          rw [equal]
          exact reads.kind_iff.mpr valued
      simp [enumeration]

/-- A field that is read has a single value of a message type exactly if what is written says so. -/
theorem isSingularMessage_iff {entry : String × Json} {field : FieldDeclaration}
    (kinds
      : ∀ name,
          kind? declared catalog name = some .enumeration ↔ NamesEnumeration document catalog name)
    (reads : ReadFrom entry field)
    : isSingularMessage declared catalog field (resolveType declared catalog owner field.typeName)
        = true
      ↔ SingularMessage document catalog entry.2 (readField declared catalog owner field) := by
  have repeated := reads.rule .repeated "repeated" rfl
  have keyed := reads.keyed
  have type : (readField declared catalog owner field).type
      = resolveType declared catalog owner field.typeName :=
    rfl
  unfold SingularMessage
  rw [type, ← repeated, ← keyed]
  simp only [reads.type, Option.some.injEq, Json.text.injEq, exists_and_left, exists_eq_left']
  cases named : Scalar.ofKeyword? field.typeName with
  | some kind => simp [isSingularMessage, resolveType, FieldType.ofName, named]
  | none =>
      rw [resolveType_of_reference named]
      simp [isSingularMessage, ← kinds, Option.isSome_iff_ne_none, and_assoc]

/-- A field that is read is not required exactly if it tracks presence and is not declared as
required.
-/
theorem required_readField_eq_false_iff {field : FieldDeclaration}
    : (readField declared catalog owner field).required = false
      ↔ ¬ field.rule = .required
        ∧ (field.rule = .optional
          ∨ field.tracksPresence = true
          ∨ field.oneof.isSome
          ∨ isSingularMessage declared catalog field
              (resolveType declared catalog owner field.typeName)
            = true) := by
  rw [readField, hasPresence, Bool.or_eq_false_iff, decide_eq_false_iff_not, Bool.not_eq_false',
    Bool.or_eq_true, Bool.or_eq_true, Bool.or_eq_true, decide_eq_true_eq, or_assoc, or_assoc]

-----------------------------------------------------------------------------------------
-- Loaded messages
-----------------------------------------------------------------------------------------

/-- What is written for the field does not require it, and it says that the field tracks presence:
by its rule, by its options, by a group that lists it or by a single value of a message type.
-/
def TracksPresence (document : Json) (catalog : Catalog) (members fields : Entries Json)
    (entry : String × Json) (field : Field)
    : Prop :=
  ¬ HasRule "required" entry.2
  ∧ (HasRule "optional" entry.2
    ∨ MarkedOptional entry.2
    ∨ InGroup members fields entry.1
    ∨ SingularMessage document catalog entry.2 field)

/-- Presence of the fields of loaded messages. If a document loads, each object with fields that
is met gives a message with a field for each key, in order. A field is not required exactly if it
is not written with that rule and one of these holds: its rule is the optional one; its options
mark it as optional; a group lists it that does more than this; or it is neither repeated nor a
map, its type is not written as a keyword of a scalar type, and the stored reference is not the
name of an enumeration of the document, nor, unless the document has a type of this name, of one
that the catalog knew before. A group is kept exactly if it does more than to mark its single
member as optional; otherwise no field is a member of it.
-/
theorem load_derives_presence (distinct : document.DistinctKeys)
    (success : loadDocument catalog document = (.ok (), after))
    : ∀ site fields,
        MetIn document site
        → site.members.get? "fields" = some (.object fields)
        → ∃ message : Message,
            after.types.get? (dottedPath site.path) = some (.message message)
            ∧ List.Forall₂
                (fun entry field =>
                  field.name = entry.1
                  ∧ (field.required = false
                    ↔ TracksPresence document catalog site.members fields entry field))
                fields message.fields
            ∧ ∀ group ∈ groupEntries site.members,
                (group.1 ∈ message.oneofs.map OneOf.name ↔ ¬ MarksPresence fields group)
                ∧ (MarksPresence fields group
                  → ∀ field ∈ message.fields, field.oneof ≠ some group.1) := by
  obtain ⟨declared, given, adds⟩ := loadDocument_reads success
  have accepted : (loadDocument catalog document).1 = .ok () := by rw [success]
  obtain ⟨_, once, resolvable, fresh⟩ := loadDocument_ok_iff.mp accepted
  cases given.symm.trans once
  intro site fields met found
  have fielded : "fields" ∈ site.members.keys := Entries.get?_isSome_iff.mp (by rw [found]; rfl)
  obtain ⟨content, member, readable⟩ := exists_message given resolvable met fielded
  have node : read declared catalog (.message content) ∈ declared.map (read declared catalog) :=
    List.mem_map_of_mem member
  have inserted := adds.get?_of_mem node
  rw [name_read, Declaration.name, (messageOf_eq_ok readable).1] at inserted
  have kinds := kind?_eq_enumeration_iff distinct given resolvable fresh.distinct catalog
  refine ⟨_, inserted, ?_, fun group listed => ?_⟩
  · rw [List.forall₂_map_right_iff]
    have each := (List.forall₂_and_left _ _).mpr
      ⟨fun field present => present, (messageOf_readFrom readable found).flip⟩
    refine each.flip.imp fun entry field related => ?_
    obtain ⟨present, reads⟩ := related
    refine ⟨reads.name, ?_⟩
    rw [required_readField_eq_false_iff, reads.rule .required "required" rfl,
      reads.rule .optional "optional" rfl, reads.marked, oneof_isSome_iff readable found present,
      reads.name, isSingularMessage_iff kinds reads]
    rfl
  · have kept := mem_groupNames_iff (distinctMembers_of_metIn distinct met) readable found listed
    refine ⟨kept, fun marks field present joins => ?_⟩
    obtain ⟨grouped, _⟩ := read_grouped_enrolled distinct given node
    obtain ⟨oneof, inside, named, _⟩ := grouped.joined field present group.1 joins
    exact kept.mp (List.mem_map.mpr ⟨oneof, inside, named⟩) marks

/-- The fields of a message: one that is marked as optional, one of an enumeration, one for a
group and one of a type that is not known.
-/
def cardFields : Entries Json :=
  [("note",
      .object [("type", .text "string"), ("options", .object [("proto3_optional", .bool true)])]),
    ("color", .object [("type", .text "Color")]),
    ("id", .object [("type", .text "string")]),
    ("owner", .object [("type", .text "Person")])]

/-- The group that only marks the first field as optional. -/
def noteGroup : String × Json :=
  ("_note", .object [("oneof", .array [.text "note"])])

/-- The members of the message, with this group and another one. -/
def cardMembers : Entries Json :=
  [("fields", .object cardFields),
    ("oneofs", .object [noteGroup, ("key", .object [("oneof", .array [.text "id"])])])]

/-- A document with the enumeration and the message. -/
def cardDocument : Json :=
  namespaceOf [
    ("Color", .object [("values", .object [("RED", .integer 0)])]),
    ("Card", .object cardMembers)]

/-- Only the field of the enumeration is required, and the group of the first field is not kept. -/
theorem card_presence
    : cardDocument.DistinctKeys
      ∧ (loadDocument oldCatalog cardDocument).1 = .ok ()
      ∧ ∃ message : Message,
          (loadDocument oldCatalog cardDocument).2.types.get? "Card" = some (.message message)
          ∧ message.fields.map Field.required = [false, true, false, false]
          ∧ message.oneofs.map OneOf.name = ["key"]
          ∧ MarksPresence cardFields noteGroup
          ∧ List.Forall₂
              (fun entry field =>
                field.required = false
                ↔ TracksPresence cardDocument oldCatalog cardMembers cardFields entry field)
              cardFields message.fields := by
  have distinct : cardDocument.DistinctKeys := by
    simp [cardDocument, cardMembers, noteGroup, cardFields, namespaceOf,
      Json.distinctKeys_object_iff, Json.distinctMembers_cons, Json.distinctMembers_nil,
      Json.DistinctKeys.text, Json.DistinctKeys.bool, Json.DistinctKeys.integer,
      Json.DistinctKeys.array, Entries.keys]
  have loads : (loadDocument oldCatalog cardDocument).1 = .ok () := by decide +kernel
  let card : Message :=
    { name := "Card",
      fields := [
        { name := "note", type := .scalar .string, required := false },
        { name := "color", type := .named "Color" },
        { name := "id", type := .scalar .string, required := false, oneof := some "key" },
        { name := "owner", type := .named "Person", required := false }],
      oneofs := [{ name := "key", members := ["id"] }] }
  have stored
      : (loadDocument oldCatalog cardDocument).2.types.get? "Card" = some (.message card) := by
    decide +kernel
  refine ⟨distinct, loads, card, stored, rfl, rfl, ?_⟩
  cases run : loadDocument oldCatalog cardDocument with
  | mk result after =>
  rw [run] at loads stored
  cases loads
  have met : MetIn cardDocument ⟨[1], ["Card"], cardMembers⟩ :=
    metIn_object.mpr (.later (.first (.here cardMembers)))
  obtain ⟨message, found, each, groups⟩ := load_derives_presence distinct run _ _ met rfl
  cases stored.symm.trans found
  refine ⟨?_, each.imp fun _ _ derived => derived.2⟩
  have kept := (groups noteGroup List.mem_cons_self).1
  exact not_not.mp (kept.not.mp (by decide))

end ProtoSchema.Descriptor
