import ProtoSchema.Proofs.Descriptor.WrittenFields

/-! What references stand for. A relative reference stands for the name in the innermost scope in
which it is the name of a type, be that of the same document or of one that was loaded before; and
where such a type was found, the reference that is stored denotes it, whatever types are listed.
-/

namespace ProtoSchema.Name

/-- The name does not start with a dot. -/
def Plain (name : String) : Prop :=
  name.toList.head? ≠ some '.'

instance (name : String) : Decidable (Plain name) :=
  inferInstanceAs (Decidable (_ ≠ _))

/-- What encloses a name is a beginning of it. -/
theorem enclosing_starts (name : String) : (enclosing name).toList <+: name.toList := by
  rw [enclosing, String.toList_ofList, ← List.reverse_suffix, List.reverse_reverse]
  exact (List.drop_suffix _ _).trans (List.dropWhile_suffix _)

theorem Plain.of_prefix {name start : String} (plain : Plain name)
    (starts : start.toList <+: name.toList)
    : Plain start := by
  intro dotted
  obtain ⟨rest, same⟩ := starts
  refine plain ?_
  rw [← same, List.head?_append, dotted]
  rfl

/-- The scopes around a name without a leading dot have none either, by induction on them. -/
theorem Plain.of_mem_scopes {name scope : String} (plain : Plain name) (around : scope ∈ scopes name)
    : Plain scope := by
  induction name using scopes.induct with
  | case1 =>
      rw [scopes, if_pos rfl, List.mem_singleton] at around
      rwa [around]
  | case2 name named ih =>
      rw [scopes, if_neg named, List.mem_cons] at around
      rcases around with rfl | outer
      · exact plain
      · exact ih (plain.of_prefix (enclosing_starts name)) outer

theorem Plain.qualify {scope name : String} (outer : Plain scope) (inner : Plain name)
    : Plain (qualify scope name) := by
  unfold Name.qualify
  split
  · exact inner
  · next named =>
      cases chars : scope.toList with
      | nil => exact absurd (String.toList_eq_nil_iff.mp chars) named
      | cons first rest =>
          unfold Plain at outer ⊢
          rw [String.toList_append, String.toList_append, chars]
          rw [chars] at outer
          exact outer

theorem Plain.dropLeadingDots {name : String} (plain : Plain name) : dropLeadingDots name = name :=
  dropLeadingDots_of_head? plain

end ProtoSchema.Name

namespace ProtoSchema.Descriptor

open Schema
open Name (Plain)

variable {catalog after : Catalog} {document : Json} {scope written stored : String}

/-- The name is that of a type that is met in the document, or the catalog knows it. -/
def KnownType (document : Json) (catalog : Catalog) (name : String) : Prop :=
  (∃ site, MetIn document site ∧ IsType site.members ∧ dottedPath site.path = name)
  ∨ ∃ node, catalog.lookup name = some node

/-- What a reference that is written in a scope stands for: for what follows its leading dot, if
it has one; else for the name in the first of the scopes, innermost first, in which it is known;
and if it is known in none, for itself.
-/
inductive StandsFor (Known : String → Prop) (scope written : String) : String → Prop
  | absolute {stored : String} (dotted : written.toList = '.' :: stored.toList)
    : StandsFor Known scope written stored
  | relative {inner outer : List String} {first : String} (plain : Plain written)
    (around : Name.scopes scope = inner ++ first :: outer)
    (unknown : ∀ other ∈ inner, ¬ Known (Name.qualify other written))
    (known : Known (Name.qualify first written))
    : StandsFor Known scope written (Name.qualify first written)
  | unknown (plain : Plain written)
    (unknown : ∀ other ∈ Name.scopes scope, ¬ Known (Name.qualify other written))
    : StandsFor Known scope written written

/-- References are resolved to what they stand for, by cases on their first character. -/
theorem resolveReference_standsFor {declared : List Declaration} {Known : String → Prop}
    (known : ∀ name, (kind? declared catalog name).isSome ↔ Known name)
    (scope written : String)
    : StandsFor Known scope written (resolveReference declared catalog scope written) := by
  unfold resolveReference
  split
  · next absolute dotted =>
      refine .absolute ?_
      rw [dotted, String.toList_ofList]
  · next undotted =>
      have plain : Plain written := by
        intro dotted
        obtain ⟨rest, same⟩ := List.head?_eq_some_iff.mp dotted
        exact undotted rest same
      rw [List.find?_map]
      cases found : (Name.scopes scope).find?
          ((fun name => (kind? declared catalog name).isSome)
            ∘ fun outer => Name.qualify outer written) with
      | none =>
          refine .unknown plain fun other around => ?_
          rw [← known]
          exact List.find?_eq_none.mp found other around
      | some first =>
          obtain ⟨holds, inner, outer, around, before⟩ := List.find?_eq_some_iff_append.mp found
          refine .relative plain around (fun other earlier => ?_) ((known _).mp holds)
          rw [← known]
          simpa using before other earlier

/-- What a reference with at most one leading dot stands for has none, if its scope has none. -/
theorem StandsFor.plain {Known : String → Prop} (stands : StandsFor Known scope written stored)
    (outer : Plain scope) (single : ∀ rest, written.toList ≠ '.' :: '.' :: rest)
    : Plain stored := by
  cases stands with
  | absolute dotted =>
      intro again
      obtain ⟨rest, same⟩ := List.head?_eq_some_iff.mp again
      exact single rest (dotted.trans (congrArg (List.cons '.') same))
  | relative plain around _ _ =>
      have member : _ ∈ Name.scopes scope :=
        around ▸ List.mem_append_right _ List.mem_cons_self
      exact (outer.of_mem_scopes member).qualify plain
  | unknown plain _ => exact plain

-----------------------------------------------------------------------------------------
-- Known types
-----------------------------------------------------------------------------------------

/-- A name is declared exactly if it is that of a type that is met in the document. -/
theorem declared_isSome_iff {declared : List Declaration} (distinct : document.DistinctKeys)
    (given : declarations document = .ok declared) (name : String)
    : (declared.find? fun declaration => declaration.name = name).isSome
      ↔ ∃ site, MetIn document site ∧ IsType site.members ∧ dottedPath site.path = name := by
  obtain ⟨sites, names, types, _⟩ := names_declarations distinct given
  have member : (declared.find? fun declaration => declaration.name = name).isSome
      ↔ name ∈ declared.map Declaration.name := by
    simp [List.find?_isSome]
  rw [member, names]
  simp [types, and_assoc]

/-- A name has a kind exactly if it is that of a known type. -/
theorem kind?_isSome_iff {declared : List Declaration} (catalog : Catalog)
    (distinct : document.DistinctKeys) (given : declarations document = .ok declared) (name : String)
    : (kind? declared catalog name).isSome ↔ KnownType document catalog name := by
  rw [KnownType, ← declared_isSome_iff distinct given, kind?, Option.orElse_eq_orElse,
    Option.orElse_eq_or, Option.isSome_or, Bool.or_eq_true, Option.isSome_map, Option.isSome_map,
    ← Option.isSome_iff_exists]

/-- Names of types have no leading dot if no key that leads to them has. -/
theorem plain_dottedPath {path : List String} (plain : ∀ key ∈ path, Plain key)
    : Plain (dottedPath path) := by
  have within (scope : String) (outer : Plain scope) : Plain (path.foldl Name.qualify scope) := by
    induction path generalizing scope with
    | nil => exact outer
    | cons key rest ih =>
        obtain ⟨first, others⟩ := List.forall_mem_cons.mp plain
        exact ih others _ (outer.qualify first)
  rw [← foldl_qualify_empty]
  exact within "" (by decide)

/-- Each type of the catalog stands under its own name. -/
def Keyed (catalog : Catalog) : Prop :=
  ∀ name node, catalog.types.get? name = some node → node.name = name

/-- Types are added under their own names. -/
theorem Keyed.adds {nodes : List Node} (keyed : Keyed catalog) (adds : Adds catalog nodes after)
    : Keyed after := by
  intro name node found
  rcases adds.get?_iff.mp found with earlier | ⟨_, named⟩
  · exact keyed name node earlier
  · exact named

/-- A reference to the name of a type denotes that type, whatever types of the catalog are listed: a
listed type of this name is the same one.
-/
theorem find?_of_keyed {listed : List Node} {node : Node} (keyed : Keyed catalog)
    (found : catalog.types.get? (Name.dropLeadingDots stored) = some node)
    (stocked : listed ⊆ catalog.nodes)
    : (⟨catalog, listed⟩ : Scope).find? stored = some node := by
  have lookup : catalog.lookup (Name.dropLeadingDots stored) = some node := by
    rw [Catalog.lookup, Name.dropLeadingDots_dropLeadingDots, found]
  simp only [Scope.find?, lookup]
  cases same : listed.find? fun node => node.name = Name.dropLeadingDots stored with
  | none => rfl
  | some other =>
      have named : other.name = Name.dropLeadingDots stored := by
        simpa using List.find?_some same
      obtain ⟨name, present⟩ :=
        OrderedMap.mem_values_iff.mp (stocked (List.mem_of_find?_eq_some same))
      rw [← keyed name other present, named, found] at present
      rw [Option.some.inj present]
      rfl

/-- The catalog has a type whose name is the reference without leading dots, and the reference
denotes it, whatever types of the catalog are listed.
-/
def DenotesNamesake (catalog : Catalog) (reference : String) : Prop :=
  ∃ node,
    node.name = Name.dropLeadingDots reference
    ∧ catalog.types.get? node.name = some node
    ∧ ∀ listed ⊆ catalog.nodes, (⟨catalog, listed⟩ : Scope).find? reference = some node

/-- No key that leads to an object of the document starts with a dot. -/
def PlainKeys (document : Json) : Prop :=
  ∀ site, MetIn document site → ∀ key ∈ site.path, Plain key

/-- The name of a known type denotes the type after the load: one of the document has no leading
dot, and the others are found without them.
-/
theorem KnownType.denotesNamesake {declared : List Declaration} (distinct : document.DistinctKeys)
    (keyed : Keyed catalog) (given : declarations document = .ok declared)
    (adds : Adds catalog (declared.map (read declared catalog)) after) (plain : PlainKeys document)
    (known : KnownType document catalog stored)
    : DenotesNamesake after stored := by
  have present : ∃ node, after.types.get? (Name.dropLeadingDots stored) = some node := by
    rcases known with ⟨site, met, type, rfl⟩ | ⟨node, found⟩
    · obtain ⟨sites, names, types, _⟩ := names_declarations distinct given
      have member : dottedPath site.path ∈ declared.map Declaration.name := by
        rw [names]
        exact List.mem_map_of_mem ((types site).mpr ⟨met, type⟩)
      obtain ⟨declaration, present, named⟩ := List.mem_map.mp member
      rw [(plain_dottedPath (plain site met)).dropLeadingDots, ← named,
        ← name_read declared catalog declaration]
      exact ⟨_, adds.get?_of_mem (List.mem_map_of_mem present)⟩
    · exact ⟨node, adds.extends _ _ found⟩
  obtain ⟨node, found⟩ := present
  have holds := keyed.adds adds
  have named := holds _ _ found
  exact ⟨node, named, named ▸ found, fun listed stocked => find?_of_keyed holds found stocked⟩

-----------------------------------------------------------------------------------------
-- Fields of messages
-----------------------------------------------------------------------------------------

/-- Each member of a message's fields gives a field of its name and its type. -/
theorem messageOf_field {name : String} {members fields : Entries Json}
    {content : MessageDeclaration} (success : messageOf name members = .ok content)
    (found : members.get? "fields" = some (.object fields)) {entry : String × Json}
    (member : entry ∈ fields)
    : ∃ field ∈ content.fields,
        field.name = entry.1 ∧ entry.2.member? "type" = some (.text field.typeName) := by
  obtain ⟨field, present, reads⟩ := related_to_mem (messageOf_readFrom success found) member
  exact ⟨field, present, reads.name, reads.type⟩

/-- Each type that is met in a document that can be read is declared, by cases on its kind. -/
theorem exists_declaration {declared : List Declaration}
    (given : declarations document = .ok declared)
    (resolvable : ∀ declaration ∈ declared, declaration.Resolvable) {site : Site}
    (met : MetIn document site) (type : IsType site.members)
    : ∃ declaration ∈ declared, Reads (dottedPath site.path) site.members declaration := by
  obtain ⟨members, rfl, _, each⟩ := accepted_declarations_iff.mp ⟨declared, given, resolvable⟩
  have shaped := each site (metIn_object.mp met)
  have read : ∃ declaration, Reads (dottedPath site.path) site.members declaration := by
    by_cases fielded : "fields" ∈ site.members.keys
    · obtain ⟨content, read, _⟩ := (messageOf_accepts_iff _).mpr (shaped.message fielded)
      exact ⟨_, .message fielded read⟩
    · have valued : IsEnumeration site.members := ⟨fielded, type.resolve_left fielded⟩
      obtain ⟨content, read⟩ := (enumerationOf_succeeds_iff _).mpr (shaped.enumeration valued)
      exact ⟨_, .enumeration valued read⟩
  obtain ⟨declaration, reads⟩ := read
  refine ⟨declaration, (mem_declarations_iff given _).mpr ⟨site, met, ?_⟩, reads⟩
  rwa [Site.name, foldl_qualify_empty]

/-- An object with fields that is met in a document that can be read gives a message. -/
theorem exists_message {declared : List Declaration} (given : declarations document = .ok declared)
    (resolvable : ∀ declaration ∈ declared, declaration.Resolvable) {site : Site}
    (met : MetIn document site) (fielded : "fields" ∈ site.members.keys)
    : ∃ content,
        .message content ∈ declared
        ∧ messageOf (dottedPath site.path) site.members = .ok content := by
  obtain ⟨_, member, reads⟩ := exists_declaration given resolvable met (.inl fielded)
  cases reads with
  | message _ read => exact ⟨_, member, read⟩
  | enumeration valued _ => exact absurd fielded valued.1

/-- The type of a reference is the name that the reference is resolved to. -/
theorem resolveType_of_reference {declared : List Declaration}
    (reference : Scalar.ofKeyword? written = none)
    : resolveType declared catalog scope written
      = .named (resolveReference declared catalog scope written) := by
  rw [resolveType, FieldType.ofName, reference]

/-- References of loaded messages. The catalog holds each type under its name, and the document
loads. Then each object with fields that is met gives a message, and each of its fields whose
written type is no keyword of a scalar type has the reference that the written one stands for in
the scope of the message, where the known names are those of the types of the document and those
that the catalog knew before. If no key that leads to an object starts with a dot and the stored
reference is the name of a known type, then it denotes this type, whatever types of the new
catalog are listed; the name of the type is the stored reference itself, unless the written one
starts with two dots.
-/
theorem references_resolve (distinct : document.DistinctKeys) (keyed : Keyed catalog)
    (success : loadDocument catalog document = (.ok (), after))
    : ∀ site fields,
        MetIn document site
        → site.members.get? "fields" = some (.object fields)
        → ∃ message : Message,
            after.types.get? (dottedPath site.path) = some (.message message)
            ∧ ∀ name value written,
                (name, value) ∈ fields
                → value.member? "type" = some (.text written)
                → Scalar.ofKeyword? written = none
                → ∃ field stored,
                    message.field? name = some field
                    ∧ field.type = .named stored
                    ∧ StandsFor (KnownType document catalog) (dottedPath site.path) written stored
                    ∧ (PlainKeys document
                      → ((∀ rest, written.toList ≠ '.' :: '.' :: rest)
                          → Name.dropLeadingDots stored = stored)
                        ∧ (KnownType document catalog stored → DenotesNamesake after stored)) := by
  obtain ⟨declared, given, adds⟩ := loadDocument_reads success
  have accepted : (loadDocument catalog document).1 = .ok () := by rw [success]
  obtain ⟨_, once, resolvable, _⟩ := loadDocument_ok_iff.mp accepted
  cases given.symm.trans once
  intro site fields met found
  have fielded : "fields" ∈ site.members.keys := Entries.get?_isSome_iff.mp (by rw [found]; rfl)
  obtain ⟨content, member, readable⟩ := exists_message given resolvable met fielded
  have named := (messageOf_eq_ok readable).1
  have node : read declared catalog (.message content) ∈ declared.map (read declared catalog) :=
    List.mem_map_of_mem member
  have inserted := adds.get?_of_mem node
  obtain ⟨grouped, _⟩ := read_grouped_enrolled distinct given node
  rw [name_read, Declaration.name, named] at inserted
  refine ⟨_, inserted, fun name value written inside type reference => ?_⟩
  obtain ⟨declaration, present, same, typed⟩ := messageOf_field readable found inside
  cases typed.symm.trans type
  have stands :=
    resolveReference_standsFor (kind?_isSome_iff catalog distinct given)
      content.name declaration.typeName
  rw [named] at stands
  refine ⟨readField declared catalog content.name declaration, _, ?_, ?_, stands, fun plain => ?_⟩
  · rw [← show declaration.name = name from same]
    exact grouped.field? (List.mem_map_of_mem present)
  · rw [readField, resolveType_of_reference reference, named]
  · refine ⟨fun single => ?_, fun known => known.denotesNamesake distinct keyed given adds plain⟩
    exact (stands.plain (plain_dottedPath (plain site met)) single).dropLeadingDots

/-- The members of a message without fields. -/
def emptyMessage : Entries Json :=
  [("fields", .object [])]

/-- The members of a message that refers to `Item` and has a message of that name nested in it. -/
def orderMembers : Entries Json :=
  [("fields", .object [("item", .object [("type", .text "Item")])]),
    ("nested", .object [("Item", .object emptyMessage)])]

/-- A document with this message and with another one that is named `Item`. -/
def shadowingDocument : Json :=
  namespaceOf [("Item", .object emptyMessage), ("Order", .object orderMembers)]

theorem metIn_shadowingDocument {site : Site} (met : MetIn shadowingDocument site)
    : ∀ key ∈ site.path, key = "Item" ∨ key = "Order" := by
  have leaf {site : Site} (meets : Meets emptyMessage site) : site.path = [] := by
    rcases meets_iff.mp meets with rfl | ⟨_, inside⟩
    · rfl
    · cases inside
  rw [shadowingDocument, namespaceOf, metIn_object] at met
  cases met with
  | first meets => simp [Site.under, leaf meets]
  | later met =>
      cases met with
      | first meets =>
          rcases meets_iff.mp meets with rfl | ⟨_, inside⟩
          · simp [Site.under]
          · cases inside with
            | first below => simp [Site.under, leaf below]
            | later impossible => cases impossible
      | later impossible => cases impossible

/-- The reference is stored as the name of the nested message, which shadows the other one, and it
denotes the nested message.
-/
theorem shadowing_reference
    : shadowingDocument.DistinctKeys
      ∧ Keyed oldCatalog
      ∧ (loadDocument oldCatalog shadowingDocument).1 = .ok ()
      ∧ ∃ message field,
          (loadDocument oldCatalog shadowingDocument).2.types.get? "Order"
            = some (.message message)
          ∧ message.field? "item" = some field
          ∧ field.type = .named "Order.Item"
          ∧ DenotesNamesake (loadDocument oldCatalog shadowingDocument).2 "Order.Item" := by
  have distinct : shadowingDocument.DistinctKeys := by
    simp [shadowingDocument, orderMembers, emptyMessage, namespaceOf, Json.distinctKeys_object_iff,
      Json.distinctMembers_cons, Json.distinctMembers_nil, Json.DistinctKeys.text, Entries.keys]
  have keyed : Keyed oldCatalog := by
    intro name node found
    cases List.mem_singleton.mp (OrderedMap.mem_entries_iff.mpr found)
    rfl
  have loads : (loadDocument oldCatalog shadowingDocument).1 = .ok () := by decide +kernel
  let item : Field := { name := "item", type := .named "Order.Item", required := false }
  have order : (loadDocument oldCatalog shadowingDocument).2.types.get? "Order"
      = some (.message { name := "Order", fields := [item] }) := by
    decide +kernel
  refine ⟨distinct, keyed, loads, _, item, order, by decide, rfl, ?_⟩
  cases run : loadDocument oldCatalog shadowingDocument with
  | mk result after =>
  rw [run] at loads order
  cases loads
  have met : MetIn shadowingDocument ⟨[1], ["Order"], orderMembers⟩ :=
    metIn_object.mpr (.later (.first (.here orderMembers)))
  obtain ⟨message, found, each⟩ := references_resolve distinct keyed run _ _ met rfl
  cases order.symm.trans found
  obtain ⟨field, stored, same, type, _, plain⟩ :=
    each "item" _ "Item" List.mem_cons_self rfl (by decide)
  have own : field = item := Option.some.inj (same.symm.trans (by decide))
  cases (type.symm.trans (congrArg Field.type own))
  refine (plain fun site met key member => ?_).2
    (.inl ⟨⟨[1, 0], ["Order", "Item"], emptyMessage⟩, ?_⟩)
  · rcases metIn_shadowingDocument met key member with rfl | rfl
    · decide
    · decide
  · have inner : MeetsAmong 0 (nestedEntries orderMembers) ⟨[0], ["Item"], emptyMessage⟩ :=
      .first (.here emptyMessage)
    have enters : ¬ IsEnumeration orderMembers := fun enumeration => absurd enumeration.1 (by decide)
    exact ⟨metIn_object.mpr (.later (.first (.nested enters inner))), .inl (by decide), by decide⟩

end ProtoSchema.Descriptor
