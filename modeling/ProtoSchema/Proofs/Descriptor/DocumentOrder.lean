import ProtoSchema.Proofs.Descriptor.Groups

/-! What a document adds to a catalog: the types that are met on a walk through its `nested` objects,
a message before what is nested in it. The place of an entry in that tree is the list of indices that
leads to it, and the walk goes through the places in lexicographic order, which puts a place before
those below it.
-/

namespace ProtoSchema.Descriptor

open Schema
open Json (DistinctMembers)

-----------------------------------------------------------------------------------------
-- Types of a document
-----------------------------------------------------------------------------------------

/-- The keys of a path with dots between them. Empty keys at its start leave nothing behind, since
the empty scope has no name.
-/
def dottedPath (path : List String) : String :=
  ".".intercalate (path.dropWhile (· = ""))

/-- The type is declared by an object under a name: a message by one with fields, which it has in the
order of their keys, and an enumeration by one with values only, whose symbols and numbers it has
in the order of their keys.
-/
inductive DeclaredBy (name : String) (members : Entries Json) : Node → Prop
  | message {content : Message} {fields : Entries Json}
    (found : members.get? "fields" = some (.object fields)) (named : content.name = name)
    (inOrder : content.fields.map Field.name = fields.keys)
    : DeclaredBy name members (.message content)
  | enumeration {content : Enumeration} {values : Entries Json} (fieldless : "fields" ∉ members.keys)
    (found : members.get? "values" = some (.object values)) (named : content.name = name)
    (inOrder : content.values.entries.map (fun entry => (entry.1, .integer entry.2)) = values)
    : DeclaredBy name members (.enumeration content)

/-- A declared type has the name that it is declared under. -/
theorem DeclaredBy.name_eq {name : String} {members : Entries Json} {node : Node}
    (declares : DeclaredBy name members node)
    : node.name = name := by
  cases declares with
  | message _ named _ => exact named
  | enumeration _ _ named _ => exact named

/-- What is met among entries is at an index that one of them has, by induction on the entries. -/
theorem MeetsAmong.position {start : Nat} {entries : Entries Json} {site : Site}
    (meets : MeetsAmong start entries site)
    : ∃ index rest, site.position = index :: rest ∧ start ≤ index := by
  induction entries generalizing start with
  | nil => cases meets
  | cons entry others ih =>
      cases meets with
      | first _ => exact ⟨start, _, rfl, Nat.le_refl start⟩
      | later meets =>
          obtain ⟨index, rest, same, bound⟩ := ih meets
          exact ⟨index, rest, same, Nat.le_of_succ_le bound⟩

-----------------------------------------------------------------------------------------
-- Names
-----------------------------------------------------------------------------------------

/-- Within a scope that has a name, each key adds a dot and itself, by induction on the path. -/
theorem foldl_qualify {scope : String} (named : scope ≠ "") (path : List String)
    : path.foldl Name.qualify scope = ".".intercalate (scope :: path) := by
  induction path generalizing scope with
  | nil => rfl
  | cons key rest ih =>
      have longer : scope ++ "." ++ key ≠ "" := by simp
      rw [List.foldl_cons, Name.qualify, if_neg named, ih longer]
      rfl

/-- Outside of all scopes, a path gives its dotted name, by induction on the path. -/
theorem foldl_qualify_empty (path : List String) : path.foldl Name.qualify "" = dottedPath path := by
  induction path with
  | nil => rfl
  | cons key rest ih =>
      rw [List.foldl_cons, Name.qualify, if_pos rfl]
      by_cases empty : key = ""
      · subst empty
        exact ih
      · rw [foldl_qualify empty, dottedPath, List.dropWhile_cons_of_neg (by simpa using empty)]

-----------------------------------------------------------------------------------------
-- Declarations of single types
-----------------------------------------------------------------------------------------

theorem integer32?_eq_some_iff {value : Json} {number : Int}
    : value.integer32? = some number
      ↔ value = .integer number ∧ -0x80000000 ≤ number ∧ number ≤ 0x7FFFFFFF := by
  cases value with
  | integer other =>
      simp only [Json.integer32?, Option.ite_none_right_eq_some, Option.some.injEq,
        Json.integer.injEq]
      omega
  | null | bool _ | decimal _ _ _ | text _ | array _ | object _ => simp [Json.integer32?]

/-- Symbols that are new are added in their order, by induction on them. -/
theorem foldlM_addValue_eq_ok {values : Entries Json} {before after : Enumeration}
    (fresh : (before.values.keys ++ values.keys).Nodup)
    (success : values.foldlM addValue before = .ok after)
    : after.name = before.name
      ∧ after.values.entries.map (fun entry => (entry.1, Json.integer entry.2))
        = before.values.entries.map (fun entry => (entry.1, Json.integer entry.2)) ++ values := by
  induction values generalizing before with
  | nil =>
      cases success
      exact ⟨rfl, (List.append_nil _).symm⟩
  | cons entry rest ih =>
      obtain ⟨symbol, value⟩ := entry
      rw [List.foldlM_cons] at success
      obtain ⟨middle, added, others⟩ := Outcome.bind_eq_ok.mp success
      simp only [addValue] at added
      split at added
      · next number found =>
          cases added
          cases (integer32?_eq_some_iff.mp found).1
          obtain ⟨_, _, apart⟩ := List.nodup_append.mp fresh
          have absent : symbol ∉ before.values.entries.keys := by
            intro earlier
            exact apart symbol earlier symbol List.mem_cons_self rfl
          have entries : (before.withValue symbol number).values.entries
              = before.values.entries ++ [(symbol, number)] :=
            Entries.insert_of_absent absent number
          have keys : (before.withValue symbol number).values.keys
              = before.values.keys ++ [symbol] := by
            rw [OrderedMap.keys, entries, Entries.keys, List.map_append]
            rfl
          rw [Entries.keys, List.map_cons, List.append_cons, ← keys] at fresh
          obtain ⟨named, inOrder⟩ := ih fresh others
          refine ⟨named, ?_⟩
          rw [inOrder, entries, List.map_append, List.append_assoc]
          rfl
      · cases added

/-- Comments of symbols change neither the name nor the symbols, by induction on the comments. -/
theorem foldl_addSymbolComment (comments : Entries Json) (content : Enumeration)
    : (comments.foldl addSymbolComment content).name = content.name
      ∧ (comments.foldl addSymbolComment content).values = content.values := by
  induction comments generalizing content with
  | nil => exact ⟨rfl, rfl⟩
  | cons entry rest ih =>
      have kept : (addSymbolComment content entry).name = content.name
          ∧ (addSymbolComment content entry).values = content.values := by
        unfold addSymbolComment
        split <;> exact ⟨rfl, rfl⟩
      rw [List.foldl_cons, (ih _).1, (ih _).2]
      exact kept

/-- An enumeration is read with its symbols and numbers in the order of their keys. -/
theorem enumerationOf_eq_ok {name : String} {members : Entries Json} {content : Enumeration}
    (distinct : DistinctMembers members) (success : enumerationOf name members = .ok content)
    : content.name = name
      ∧ ∃ values,
          members.get? "values" = some (.object values)
          ∧ content.values.entries.map (fun entry => (entry.1, .integer entry.2)) = values := by
  unfold enumerationOf at success
  split at success
  · cases success
  · next values present =>
      obtain ⟨valued, read, same⟩ := Outcome.bind_eq_ok.mp success
      cases same
      have found := bind_members?_eq_some_iff.mp present
      have keys : values.keys.Nodup := ((distinct.get found).members rfl).keys
      obtain ⟨named, inOrder⟩ := foldlM_addValue_eq_ok (by exact keys) read
      rw [(foldl_addSymbolComment _ valued).1, (foldl_addSymbolComment _ valued).2]
      exact ⟨named, values, found, inOrder⟩

-----------------------------------------------------------------------------------------
-- Walks
-----------------------------------------------------------------------------------------

/-- Declarations stem from a walk: the sites are those of all types that are met, in the order of
their positions, and each declaration is that of its site, however its references are resolved.
-/
structure Walk (met : Site → Prop) (scope : String) (sites : List Site)
    (declared : List Declaration)
    : Prop where
  types : ∀ {site}, site ∈ sites ↔ met site ∧ IsType site.members
  ordered : sites.Pairwise fun first second => first.position < second.position
  each
    : List.Forall₂
        (fun site declaration =>
          ∀ known catalog,
            DeclaredBy (site.name scope) site.members (read known catalog declaration))
        sites declared

variable {met others : Site → Prop} {scope : String} {sites rest : List Site}
  {declared following : List Declaration}

theorem walk_nil (nothing : ∀ site, ¬ met site) : Walk met scope [] [] where
  types := fun {site} => by simp [nothing site]
  ordered := .nil
  each := .nil

theorem Walk.congr (walk : Walk met scope sites declared)
    (same : ∀ site, IsType site.members → (met site ↔ others site))
    : Walk others scope sites declared where
  types := walk.types.trans (and_congr_left fun type => same _ type)
  ordered := walk.ordered
  each := walk.each

/-- Two walks follow one another, where all that the first one meets comes before what the second one
does.
-/
theorem Walk.append (walk : Walk met scope sites declared)
    (next : Walk others scope rest following)
    (apart : ∀ first second, met first → others second → first.position < second.position)
    : Walk (fun site => met site ∨ others site) scope (sites ++ rest) (declared ++ following) where
  types := by
    intro site
    rw [List.mem_append, walk.types, next.types, or_and_right]
  ordered := by
    refine List.pairwise_append.mpr ⟨walk.ordered, next.ordered, fun first earlier second later => ?_⟩
    exact apart first second (walk.types.mp earlier).1 (next.types.mp later).1
  each := List.rel_append walk.each next.each

/-- A walk from an object is a walk from the entry that holds it. -/
theorem Walk.under {key : String} (walk : Walk met (Name.qualify scope key) sites declared)
    (index : Nat)
    : Walk (fun site => ∃ inner, met inner ∧ site = inner.under index key) scope
        (sites.map fun site => site.under index key) declared where
  types := by
    intro site
    rw [List.mem_map]
    constructor
    · rintro ⟨inner, member, rfl⟩
      obtain ⟨meets, type⟩ := walk.types.mp member
      exact ⟨⟨inner, meets, rfl⟩, type⟩
    · rintro ⟨⟨inner, meets, rfl⟩, type⟩
      exact ⟨inner, walk.types.mpr ⟨meets, type⟩, rfl⟩
  ordered := by
    refine List.pairwise_map.mpr (walk.ordered.imp fun less => ?_)
    exact List.cons_lt_cons_iff.mpr (.inr ⟨rfl, less⟩)
  each := List.forall₂_map_left_iff.mpr walk.each

/-- A declared type is met where it stands. -/
theorem walk_here {members : Entries Json} {declaration : Declaration} (type : IsType members)
    (declares
      : ∀ known catalog, DeclaredBy scope members (read known catalog declaration))
    : Walk (fun site => site = ⟨[], [], members⟩) scope [⟨[], [], members⟩] [declaration] where
  types := by
    intro site
    rw [List.mem_singleton]
    constructor
    · rintro rfl
      exact ⟨rfl, type⟩
    · exact fun met => met.1
  ordered := List.pairwise_singleton _ _
  each := .cons declares .nil

/-- A message is met, and then what is nested in it. -/
theorem Walk.message {members : Entries Json} {content : MessageDeclaration}
    (walk : Walk (MeetsAmong 0 (nestedEntries members)) scope sites declared)
    (success : messageOf scope members = .ok content)
    : Walk (Meets members) scope (⟨[], [], members⟩ :: sites) (.message content :: declared) := by
  obtain ⟨named, fields, found, inOrder⟩ := messageOf_eq_ok success
  have present : "fields" ∈ members.keys := Entries.get?_isSome_iff.mp (by rw [found]; rfl)
  have declares (known : List Declaration) (catalog : Catalog)
      : DeclaredBy scope members (read known catalog (.message content)) := by
    refine .message found named ?_
    rw [List.map_map]
    exact inOrder
  have apart (first second : Site) (here : first = ⟨[], [], members⟩)
      (inside : MeetsAmong 0 (nestedEntries members) second)
      : first.position < second.position := by
    obtain ⟨index, rest, same, _⟩ := inside.position
    rw [here, same]
    exact List.nil_lt_cons index rest
  refine ((walk_here (.inl present) declares).append walk apart).congr fun site _ => ?_
  constructor
  · rintro (rfl | inside)
    · exact .here members
    · exact .nested (fun enumeration => enumeration.1 present) inside
  · intro meets
    cases meets with
    | here => exact .inl rfl
    | nested _ inside => exact .inr inside

/-- An enumeration is met, and nothing in it. -/
theorem walk_enumeration {members : Entries Json} {content : Enumeration}
    (distinct : DistinctMembers members) (fieldless : "fields" ∉ members.keys)
    (success : enumerationOf scope members = .ok content)
    : Walk (Meets members) scope [⟨[], [], members⟩] [.enumeration content] := by
  obtain ⟨named, values, found, inOrder⟩ := enumerationOf_eq_ok distinct success
  have present : "values" ∈ members.keys := Entries.get?_isSome_iff.mp (by rw [found]; rfl)
  have declares (known : List Declaration) (catalog : Catalog)
      : DeclaredBy scope members (read known catalog (.enumeration content)) :=
    .enumeration fieldless found named inOrder
  refine (walk_here (.inr present) declares).congr fun site _ => ?_
  constructor
  · rintro rfl
    exact .here members
  · intro meets
    cases meets with
    | here => rfl
    | nested enters _ => exact absurd ⟨fieldless, present⟩ enters

/-- A namespace is no type, but what is nested in it is met. -/
theorem Walk.namespace {members : Entries Json}
    (walk : Walk (MeetsAmong 0 (nestedEntries members)) scope sites declared)
    (plain : ¬ IsType members)
    : Walk (Meets members) scope sites declared := by
  refine walk.congr fun site type => ?_
  constructor
  · exact fun inside => .nested (fun enumeration => plain (.inr enumeration.2)) inside
  · intro meets
    cases meets with
    | here => exact absurd type plain
    | nested _ inside => exact inside

/-- The types of one entry are met before those of later ones. -/
theorem Walk.entries {index : Nat} {key : String} {members later : Entries Json}
    (walk : Walk (Meets members) (Name.qualify scope key) sites declared)
    (next : Walk (MeetsAmong (index + 1) later) scope rest following)
    : Walk (MeetsAmong index ((key, .object members) :: later)) scope
        ((sites.map fun site => site.under index key) ++ rest) (declared ++ following) := by
  have apart (first second : Site)
      (met : ∃ inner, Meets members inner ∧ first = inner.under index key)
      (others : MeetsAmong (index + 1) later second)
      : first.position < second.position := by
    obtain ⟨inner, _, rfl⟩ := met
    obtain ⟨other, rest, same, bound⟩ := others.position
    rw [same]
    exact List.cons_lt_cons_iff.mpr (.inl bound)
  refine ((walk.under index).append next apart).congr fun site _ => ?_
  constructor
  · rintro (⟨inner, meets, rfl⟩ | meets)
    · exact .first meets
    · exact .later meets
  · intro meets
    cases meets with
    | first meets => exact .inl ⟨_, meets, rfl⟩
    | later meets => exact .inr meets

/-- The types of entries are met one entry after the other, by induction on the entries. -/
theorem entryDeclarations_walk {entries : Entries Json}
    (each
      : ∀ key inner,
          (key, .object inner) ∈ entries
          → ∀ {declared},
              typeDeclarations (Name.qualify scope key) (.object inner) = .ok declared
              → ∃ sites, Walk (Meets inner) (Name.qualify scope key) sites declared)
    (success : entryDeclarations scope entries = .ok declared) (index : Nat)
    : ∃ sites, Walk (MeetsAmong index entries) scope sites declared := by
  induction entries generalizing declared index with
  | nil =>
      cases success
      exact ⟨[], walk_nil fun site meets => nomatch meets⟩
  | cons entry rest ih =>
      obtain ⟨key, value⟩ := entry
      obtain ⟨own, first, others⟩ := Outcome.bind_eq_ok.mp success
      obtain ⟨later, following, same⟩ := Outcome.bind_eq_ok.mp others
      cases same
      obtain ⟨inner, rfl⟩ := object_of_typeDeclarations first
      obtain ⟨sites, walk⟩ := each key inner List.mem_cons_self first
      obtain ⟨more, next⟩ := ih
        (fun key inner member => each key inner (List.mem_cons_of_mem _ member)) following (index + 1)
      exact ⟨_, walk.entries next⟩

/-- The declarations of an object stem from a walk, if those of what is nested in it do; by cases on
how it is read.
-/
theorem ReadAs.walk {members : Entries Json} (reads : ReadAs scope members declared)
    (distinct : DistinctMembers members)
    (nested
      : ∀ {declared},
          nestedDeclarations scope members = .ok declared
          → ∃ sites, Walk (MeetsAmong 0 (nestedEntries members)) scope sites declared)
    : ∃ sites, Walk (Meets members) scope sites declared := by
  cases reads with
  | message _ read inside =>
      obtain ⟨sites, walk⟩ := nested inside
      exact ⟨_, walk.message read⟩
  | enumeration present read => exact ⟨_, walk_enumeration distinct present.1 read⟩
  | scope untyped inside =>
      obtain ⟨sites, walk⟩ := nested inside
      exact ⟨sites, walk.namespace untyped⟩

/-- What is nested in an object is declared on a walk, by induction on the object. -/
theorem nestedDeclarations_walk {members : Entries Json} (distinct : DistinctMembers members)
    (success : nestedDeclarations scope members = .ok declared)
    : ∃ sites, Walk (MeetsAmong 0 (nestedEntries members)) scope sites declared := by
  induction members using object_induction generalizing scope declared with
  | step members ih =>
  obtain ⟨_, found⟩ := nestedDeclarations_eq_ok.mp success
  refine entryDeclarations_walk (fun key inner member declared read => ?_) found 0
  have within := distinctMembers_of_nested distinct member
  exact (typeDeclarations_eq_ok.mp read).walk within (ih key inner member within)

theorem declarations_walk {document : Json} {declared : List Declaration}
    (distinct : document.DistinctKeys) (success : declarations document = .ok declared)
    : ∃ members sites,
        document = .object members
        ∧ Walk (MeetsAmong 0 (nestedEntries members)) "" sites declared := by
  unfold declarations at success
  split at success
  · next members =>
      obtain ⟨sites, walk⟩ := nestedDeclarations_walk (distinct.members rfl) success
      exact ⟨members, sites, rfl, walk⟩
  · cases success

-----------------------------------------------------------------------------------------
-- Loading a document
-----------------------------------------------------------------------------------------

/-- A load that succeeds adds the types of the document. -/
theorem loadDocument_eq_ok {catalog after : Catalog} {document : Json}
    (success : loadDocument catalog document = (.ok (), after))
    : ∃ nodes, nodesOf catalog document = .ok nodes ∧ Adds catalog nodes after := by
  unfold loadDocument at success
  cases found : nodesOf catalog document with
  | error malformation => simp [found] at success
  | ok nodes =>
      have inserts := nodesOf_inserts found
      have run : insertAll catalog nodes = (.ok (), after) := by
        rw [found] at success
        exact success
      rw [run] at inserts
      cases inserts with
      | all free adds => exact ⟨nodes, rfl, adds⟩

/-- A load that succeeds adds what is read from the declarations of the document. -/
theorem loadDocument_reads {catalog after : Catalog} {document : Json}
    (success : loadDocument catalog document = (.ok (), after))
    : ∃ declared,
        declarations document = .ok declared
        ∧ Adds catalog (declared.map (read declared catalog)) after := by
  obtain ⟨nodes, found, adds⟩ := loadDocument_eq_ok success
  obtain ⟨declared, given, each, _⟩ := nodesOf_eq_ok found
  exact ⟨declared, given, nodes_eq_read each ▸ adds⟩

/-- A load that succeeds adds exactly the types of the document, in pre-order. What was in the catalog
stays at its start as it was; then comes one type for each object of the document that declares
one and is met on a walk through the nested entries, which does not enter enumerations. The
types stand in the order of their places, a message before what is nested in it, and under the
dotted paths of their keys; no name occurs twice; and the fields of messages and the symbols of
enumerations are in the order of their keys.
-/
theorem load_appends_in_preorder {catalog after : Catalog} {document : Json}
    (distinct : document.DistinctKeys)
    (success : loadDocument catalog document = (.ok (), after))
    : ∃ members sites nodes,
        document = .object members
        ∧ (∀ site,
            site ∈ sites
            ↔ MeetsAmong 0 (nestedEntries members) site ∧ IsType site.members)
        ∧ (sites.Pairwise fun first second => first.position < second.position)
        ∧ List.Forall₂ (fun site node => DeclaredBy (dottedPath site.path) site.members node)
            sites nodes
        ∧ after.types.entries
          = catalog.types.entries ++ nodes.map (fun node => (node.name, node))
        ∧ after.names.Nodup := by
  obtain ⟨nodes, found, adds⟩ := loadDocument_eq_ok success
  obtain ⟨declared, given, each, _⟩ := nodesOf_eq_ok found
  obtain ⟨members, sites, same, walk⟩ := declarations_walk distinct given
  refine ⟨members, sites, nodes, same, fun site => walk.types, walk.ordered, ?_, adds,
    after.types.nodup⟩
  rw [nodes_eq_read each, List.forall₂_map_right_iff]
  refine walk.each.imp fun site declaration declares => ?_
  rw [← foldl_qualify_empty]
  exact declares declared catalog

/-- An object with nested entries. -/
def namespaceOf (nested : Entries Json) : Json :=
  .object [("nested", .object nested)]

/-- A document with a message that has an enumeration nested in it, with a message nested in the
enumeration, and with a second message and a service.
-/
def shopDocument : Json :=
  namespaceOf [
    ("shop", namespaceOf [
      ("Order", .object [
        ("nested", .object [
          ("Status", .object [
            ("values", .object [("OPEN", .integer 1), ("NEW", .integer 0)]),
            ("nested", .object [("Hidden", .object [("fields", .object [])])])])]),
        ("fields", .object [
          ("status", .object [("type", .text "Status")]),
          ("id", .object [("type", .text "string")])])]),
      ("Api", .object [("methods", .object [])]),
      ("Item", .object [("fields", .object [])])])]

/-- A catalog with one type. -/
def oldCatalog : Catalog :=
  ⟨OrderedMap.empty.insert "Old" (.message { name := "Old" })⟩

/-- The types of the shop follow the one that was there, each message before what is nested in it;
the message in the enumeration is not met, and neither the namespace nor the service is a type.
-/
theorem shop_appended
    : shopDocument.DistinctKeys
      ∧ (loadDocument oldCatalog shopDocument).1 = .ok ()
      ∧ ∃ (members : Entries Json) (sites : List Site),
          shopDocument = .object members
          ∧ (∀ site,
              site ∈ sites
              ↔ MeetsAmong 0 (nestedEntries members) site ∧ IsType site.members)
          ∧ sites.map (fun site => dottedPath site.path)
            = ["shop.Order", "shop.Order.Status", "shop.Item"] := by
  have distinct : shopDocument.DistinctKeys := by
    simp [shopDocument, namespaceOf, Json.distinctKeys_object_iff, Json.distinctMembers_cons,
      Json.distinctMembers_nil, Json.DistinctKeys.integer, Json.DistinctKeys.text, Entries.keys]
  have loads : (loadDocument oldCatalog shopDocument).1 = .ok () := by decide +kernel
  have names : (loadDocument oldCatalog shopDocument).2.names
      = ["Old", "shop.Order", "shop.Order.Status", "shop.Item"] := by
    decide +kernel
  cases run : loadDocument oldCatalog shopDocument with
  | mk result after =>
  rw [run] at loads names
  cases loads
  obtain ⟨members, sites, nodes, same, types, _, declared, entries, _⟩ :=
    load_appends_in_preorder distinct run
  refine ⟨distinct, rfl, members, sites, same, types, ?_⟩
  have paths : sites.map (fun site => dottedPath site.path) = nodes.map Node.name := by
    rw [← List.forall₂_eq_eq_eq, List.forall₂_map_left_iff, List.forall₂_map_right_iff]
    exact declared.imp fun _ _ declares => declares.name_eq.symm
  have keys : after.names = "Old" :: nodes.map Node.name := by
    rw [Catalog.names, OrderedMap.keys, entries, Entries.keys, List.map_append, List.map_map]
    rfl
  rw [paths]
  exact (List.cons.inj (keys.symm.trans names)).2

/-- The members of a document with an empty key. -/
def unnamedNamespace : Entries Json :=
  [("nested", .object [("", namespaceOf [("X", .object [("fields", .object [])])])])]

/-- An empty key at the start of a path leaves no dot behind: the message is named by what follows. -/
theorem empty_key_leaves_no_dot
    : (Json.object unnamedNamespace).DistinctKeys
      ∧ (loadDocument {} (.object unnamedNamespace)).1 = .ok ()
      ∧ ∃ site : Site,
          MeetsAmong 0 (nestedEntries unnamedNamespace) site
          ∧ IsType site.members
          ∧ ".".intercalate site.path ∉ (loadDocument {} (.object unnamedNamespace)).2.names := by
  refine ⟨?distinct, by decide +kernel, ⟨[0, 0], ["", "X"], [("fields", .object [])]⟩, ?met,
    .inl (by decide), by decide +kernel⟩
  case distinct =>
    simp [unnamedNamespace, namespaceOf, Json.distinctKeys_object_iff, Json.distinctMembers_cons,
      Json.distinctMembers_nil, Entries.keys]
  case met =>
    have inner : MeetsAmong 0 [("X", .object [("fields", .object [])])]
        (Site.under ⟨[], [], [("fields", .object [])]⟩ 0 "X") :=
      .first (.here _)
    have plain : ¬ IsEnumeration [("nested", .object [("X", .object [("fields", .object [])])])] :=
      fun enumeration => absurd enumeration.2 (by decide)
    exact .first (.nested plain inner)

end ProtoSchema.Descriptor
