import ProtoSchema.Proofs.Descriptor.Groups
import ProtoSchema.Proofs.GraphQL.UnknownReferences
import ProtoSchema.Proofs.MapEntries
import ProtoSchema.Proofs.TypeScript.UnknownReferences

/-! Loading keeps a reference to no type as it is written, and converting it fails. The exceptions
are a reference that is the simple name of a listed type, which denotes that type, and names that
stand for several things: a conversion takes what it has under such a name for what it looks for.
-/

namespace ProtoSchema

open Schema

/-- A listed type of a loaded catalog has a field that refers to no type of the catalog. -/
structure UnknownReference (scope : Scope) (message : Message) (field : Field)
    (reference : String)
    : Prop where
  loaded : Descriptor.Loaded scope.catalog
  stored : ∀ node ∈ scope.listed, node ∈ scope.catalog.nodes
  listed : .message message ∈ scope.listed
  member : field ∈ message.fields
  named : field.type = .named reference
  unknown : ∀ node ∈ scope.catalog.nodes, node.name ≠ Name.dropLeadingDots reference

variable {scope : Scope} {message : Message} {field : Field} {reference : String}

theorem UnknownReference.grouped (unknown : UnknownReference scope message field reference)
    : message.Grouped :=
  unknown.loaded.grouped (unknown.stored _ unknown.listed)

/-- Such a reference denotes nothing, unless it is the simple name of a listed type. -/
theorem UnknownReference.find?_eq_none (unknown : UnknownReference scope message field reference)
    (notSimple : ∀ node ∈ scope.listed, node.simpleName ≠ Name.dropLeadingDots reference)
    : scope.find? reference = none := by
  have listed : (scope.listed.find? fun node => node.name = Name.dropLeadingDots reference)
      = none := by
    refine List.find?_eq_none.mpr fun node member same => ?_
    exact unknown.unknown node (unknown.stored node member) (of_decide_eq_true same)
  have stored : scope.catalog.lookup (Name.dropLeadingDots reference) = none := by
    rw [Catalog.lookup, Name.dropLeadingDots_dropLeadingDots]
    cases found : scope.catalog.types.get? (Name.dropLeadingDots reference) with
    | none => rfl
    | some node =>
        have member : node ∈ scope.catalog.nodes := OrderedMap.mem_values_iff.mpr ⟨_, found⟩
        exact absurd (unknown.loaded.origin found).1 (unknown.unknown node member)
  have simple : (scope.listed.find? fun node => node.simpleName = Name.dropLeadingDots reference)
      = none := by
    refine List.find?_eq_none.mpr fun node member same => ?_
    exact notSimple node member (of_decide_eq_true same)
  simp only [Scope.find?, listed, stored, simple]
  rfl

/-- What belongs to the schema does not have the name of such a reference, unless it is an entry or
a group.
-/
theorem UnknownReference.matchesNothing (unknown : UnknownReference scope message field reference)
    (notSimple : ∀ node ∈ scope.listed, node.simpleName ≠ Name.dropLeadingDots reference)
    (notEntry : ¬ GraphQL.EntryName scope (Name.dropLeadingDots reference))
    (notGroup : ¬ GraphQL.GroupName scope (Name.dropLeadingDots reference))
    : GraphQL.MatchesNothing scope reference := by
  refine ⟨unknown.find?_eq_none notSimple, fun origin belongs named => ?_⟩
  cases belongs with
  | @declared node declared =>
      exact unknown.unknown node (declared.elim (unknown.stored node) id) named
  | entry declared member keyed =>
      rw [GraphQL.Origin.name_entry] at named
      exact notEntry (named ▸ .entry declared member keyed)
  | group declared present => exact notGroup (named ▸ .group declared present)

/-- Types of a loaded catalog are known by their names. -/
theorem UnknownReference.unique (unknown : UnknownReference scope message field reference)
    : ∀ node ∈ scope.listed, node.name = message.name → node = .message message :=
  fun node member named =>
    unknown.loaded.name_injective (unknown.stored node member) (unknown.stored _ unknown.listed)
      named

/-- Both conversions fail on a reference to no type of the catalog, unless it is the simple name of
a listed type or names stand for several things: that of the field's entries, for TypeScript also
that of the message, and for GraphQL also those of the field's group and the reference itself.
-/
theorem unknown_reference_fails {style : TypeScript.CommentStyle} {int64 : Integer64}
    (unknown : UnknownReference scope message field reference)
    (notSimple : ∀ node ∈ scope.listed, node.simpleName ≠ Name.dropLeadingDots reference)
    : (TypeScript.OwnNames scope message field
        → ∃ error, TypeScript.convert style int64 scope = .error error)
      ∧ (GraphQL.OwnNames scope message field
        → ¬ GraphQL.EntryName scope (Name.dropLeadingDots reference)
        → ¬ GraphQL.GroupName scope (Name.dropLeadingDots reference)
        → ∃ error, GraphQL.convert int64 scope = .error error) := by
  refine ⟨fun own => ?typeScript, fun own notEntry notGroup => ?graphQL⟩
  case typeScript =>
    exact TypeScript.convert_fails_of_unknown unknown.listed unknown.grouped unknown.member
      unknown.named (unknown.find?_eq_none notSimple) own
  case graphQL =>
    exact GraphQL.convert_fails_of_matchesNothing unknown.listed unknown.unique unknown.grouped
      unknown.member unknown.named (unknown.matchesNothing notSimple notEntry notGroup) own

/-- The scope that lists some types and has them in its catalog. -/
def scopeOf (nodes : List Node) : Scope where
  catalog := { types := .ofEntries (nodes.map fun node => (node.name, node)) }
  listed := nodes

theorem loaded_of_text {catalog : Catalog} (text : String)
    (same : (Descriptor.loadText {} "schema.json" text).2 = catalog)
    : Descriptor.Loaded catalog :=
  same ▸ .load .empty "schema.json" text

-----------------------------------------------------------------------------------------
-- An order of something missing
-----------------------------------------------------------------------------------------

/-- A message with a reference to nothing in a group and with another one in a map. -/
def orderText : String :=
  "\x7b\"nested\":\x7b\"Order\":\x7b\"fields\":\x7b\"item\":\x7b\"type\":\"Missing\"\x7d,"
    ++ "\"items\":\x7b\"keyType\":\"string\",\"type\":\"Missing\"\x7d\x7d,"
    ++ "\"oneofs\":\x7b\"content\":\x7b\"oneof\":[\"item\"]\x7d\x7d\x7d\x7d\x7d"

def orderItem : Field where
  name := "item"
  type := .named "Missing"
  required := false
  oneof := some "content"

def orderItems : Field where
  name := "items"
  type := .named "Missing"
  mapKey := some .string

def order : Message where
  name := "Order"
  fields := [orderItem, orderItems]
  oneofs := [{ name := "content", members := ["item"] }]

def orderScope : Scope :=
  scopeOf [.message order]

theorem unknown_order {field : Field} (member : field ∈ order.fields)
    (named : field.type = .named "Missing")
    : UnknownReference orderScope order field "Missing" where
  loaded := loaded_of_text orderText (by decide +kernel)
  stored := by decide
  listed := List.mem_cons_self
  member := member
  named := named
  unknown := by decide

/-- All that belongs to the schema: the message, the entries of its map and its group. -/
def orderOrigins : List GraphQL.Origin :=
  [.node (.message order), .node (.message (MapEntry.message order orderItems .string)),
    .group order "content"]

theorem names_orderOrigins
    : orderOrigins.map GraphQL.Origin.name
      = ["Order", "ItemsEntry_string_Missing", "Order.content"] := by
  decide +kernel

theorem mem_orderOrigins {origin : GraphQL.Origin} (belongs : GraphQL.Belongs orderScope origin)
    : origin ∈ orderOrigins := by
  have declares {node : Node} (declared : GraphQL.Declares orderScope node)
      : node = .message order := by
    rcases declared with listed | stored
    · exact List.mem_singleton.mp listed
    · exact List.mem_singleton.mp stored
  have fields {field : Field} (member : field ∈ order.fields)
      : field = orderItem ∨ field = orderItems := by
    rcases List.mem_cons.mp member with first | rest
    · exact .inl first
    · exact .inr (List.mem_singleton.mp rest)
  cases belongs with
  | declared declared =>
      cases declares declared
      exact List.mem_cons_self
  | entry declared member keyed =>
      cases declares declared
      rcases fields member with rfl | rfl
      · cases keyed
      · cases keyed
        exact List.mem_cons_of_mem _ List.mem_cons_self
  | group declared present =>
      cases declares declared
      obtain ⟨field, member, grouped⟩ := present
      rcases fields member with rfl | rfl
      · cases grouped
        exact List.mem_cons_of_mem _ (List.mem_cons_of_mem _ List.mem_cons_self)
      · cases grouped

/-- Each of these has its name for itself. -/
theorem hasOwnName_order {origin : GraphQL.Origin} (member : origin ∈ orderOrigins)
    : GraphQL.HasOwnName orderScope origin := by
  have distinct : (orderOrigins.map GraphQL.Origin.name).Nodup := by
    rw [names_orderOrigins]
    decide
  exact fun other belongs named =>
    List.inj_on_of_nodup_map distinct (mem_orderOrigins belongs) member named

/-- So do the declarations in TypeScript, which belong to the schema. -/
theorem ownName_order {node : Node} (member : .node node ∈ orderOrigins)
    : TypeScript.HasOwnName orderScope node := by
  intro other source named
  have belongs : GraphQL.Belongs orderScope (.node other) := by
    cases source with
    | listed member => exact .declared (.inl member)
    | entry owner shown keyed =>
        exact .entry (.inl owner) (TypeScript.mem_of_mem_shownFields shown) keyed
  exact GraphQL.Origin.node.inj (hasOwnName_order member (.node other) belongs named)

/-- None of these is called as the references are. -/
theorem missing_unnamed {origin : GraphQL.Origin} (belongs : GraphQL.Belongs orderScope origin)
    : origin.name ≠ "Missing" := by
  intro named
  have member : origin.name ∈ orderOrigins.map GraphQL.Origin.name :=
    List.mem_map_of_mem (mem_orderOrigins belongs)
  rw [names_orderOrigins, named] at member
  exact absurd member (by decide)

/-- The conversions of the message fail: to GraphQL for the field in the group, and to TypeScript
for the map.
-/
theorem order_fails
    : (UnknownReference orderScope order orderItem "Missing"
        ∧ ∃ error, GraphQL.convert .text orderScope = .error error)
      ∧ UnknownReference orderScope order orderItems "Missing"
        ∧ ∃ error, TypeScript.convert TypeScript.jsDoc .text orderScope = .error error := by
  have item : UnknownReference orderScope order orderItem "Missing" :=
    unknown_order List.mem_cons_self rfl
  have items : UnknownReference orderScope order orderItems "Missing" :=
    unknown_order (List.mem_cons_of_mem _ List.mem_cons_self) rfl
  have notSimple : ∀ node ∈ orderScope.listed,
      node.simpleName ≠ Name.dropLeadingDots "Missing" := by
    decide
  have plain : Name.dropLeadingDots "Missing" = "Missing" := by decide
  have notEntry : ¬ GraphQL.EntryName orderScope (Name.dropLeadingDots "Missing") := by
    rw [plain]
    intro entry
    generalize named : "Missing" = name at entry
    cases entry with
    | entry declared member keyed =>
        refine missing_unnamed (.entry declared member keyed) ?_
        rw [GraphQL.Origin.name_entry, named]
  have notGroup : ¬ GraphQL.GroupName orderScope (Name.dropLeadingDots "Missing") := by
    rw [plain]
    intro group
    generalize named : "Missing" = name at group
    cases group with
    | group declared present => exact missing_unnamed (.group declared present) named.symm
  have fails {field : Field} (unknown : UnknownReference orderScope order field "Missing") :=
    @unknown_reference_fails _ _ _ _ TypeScript.jsDoc .text unknown notSimple
  refine ⟨⟨item, (fails item).2 ?graphQL notEntry notGroup⟩, items, (fails items).1 ?typeScript⟩
  case graphQL =>
    refine ⟨fun key keyed => ?_, fun group grouped => ?_⟩
    · cases keyed
    · cases grouped
      exact hasOwnName_order (List.mem_cons_of_mem _ (List.mem_cons_of_mem _ List.mem_cons_self))
  case typeScript =>
    refine ⟨ownName_order List.mem_cons_self, fun key keyed => ?_⟩
    cases keyed
    exact ownName_order (List.mem_cons_of_mem _ List.mem_cons_self)

-----------------------------------------------------------------------------------------
-- Unknown references that pass
-----------------------------------------------------------------------------------------

/-- A message with a field of a type that it calls by its simple name, with a map to this type, and
with one to an unknown name that is spelled like that of the type but for an underscore.
-/
def shelfText : String :=
  "\x7b\"nested\":\x7b\"a.Item\":\x7b\"fields\":\x7b\x7d\x7d,\"Shelf\":\x7b\"fields\":\x7b"
    ++ "\"first\":\x7b\"type\":\"Item\"\x7d,\"items\":\x7b\"keyType\":\"string\",\"type\":\"a.Item\"\x7d,"
    ++ "\"Items\":\x7b\"keyType\":\"string\",\"type\":\"a_Item\"\x7d\x7d\x7d\x7d\x7d"

def shelfFirst : Field where
  name := "first"
  type := .named "Item"
  required := false

def shelfItems : Field where
  name := "Items"
  type := .named "a_Item"
  mapKey := some .string

def shelf : Message where
  name := "Shelf"
  fields :=
    [shelfFirst, { name := "items", type := .named "a.Item", mapKey := some .string }, shelfItems]

def shelfScope : Scope :=
  scopeOf [.message { name := "a.Item" }, .message shelf]

/-- A message with a group and a nested type of one name. -/
def choiceText : String :=
  "\x7b\"nested\":\x7b\"Choice\":\x7b\"fields\":\x7b\"value\":\x7b\"type\":\"Missing\"\x7d\x7d,"
    ++ "\"oneofs\":\x7b\"pick\":\x7b\"oneof\":[\"value\"]\x7d\x7d,"
    ++ "\"nested\":\x7b\"pick\":\x7b\"fields\":\x7b\x7d\x7d\x7d\x7d\x7d\x7d"

def choiceValue : Field where
  name := "value"
  type := .named "Missing"
  required := false
  oneof := some "pick"

def choice : Message where
  name := "Choice"
  fields := [choiceValue]
  oneofs := [{ name := "pick", members := ["value"] }]

def choiceScope : Scope :=
  scopeOf [.message choice, .message { name := "Choice.pick" }]

/-- A message with a reference to the entries of its map. -/
def indexText : String :=
  "\x7b\"nested\":\x7b\"Index\":\x7b\"fields\":\x7b"
    ++ "\"counts\":\x7b\"keyType\":\"string\",\"type\":\"int32\"\x7d,"
    ++ "\"entry\":\x7b\"type\":\"CountsEntry_string_int32\"\x7d\x7d\x7d\x7d\x7d"

def indexEntry : Field where
  name := "entry"
  type := .named "CountsEntry_string_int32"
  required := false

def index : Message where
  name := "Index"
  fields := [counts "counts", indexEntry]

def indexScope : Scope :=
  scopeOf [.message index]

/-- A message with a reference to its group. -/
def eitherText : String :=
  "\x7b\"nested\":\x7b\"Either\":\x7b\"fields\":\x7b"
    ++ "\"left\":\x7b\"type\":\"int32\"\x7d,\"side\":\x7b\"type\":\"Either.part\"\x7d\x7d,"
    ++ "\"oneofs\":\x7b\"part\":\x7b\"oneof\":[\"left\"]\x7d\x7d\x7d\x7d\x7d"

def eitherSide : Field where
  name := "side"
  type := .named "Either.part"
  required := false

def either : Message where
  name := "Either"
  fields :=
    [{ name := "left", type := .scalar .int32, required := false, oneof := some "part" },
      eitherSide]
  oneofs := [{ name := "part", members := ["left"] }]

def eitherScope : Scope :=
  scopeOf [.message either]

/-- A message with the name of the entries of a map. -/
def hiddenText : String :=
  "\x7b\"nested\":\x7b\"Index\":\x7b\"fields\":\x7b"
    ++ "\"counts\":\x7b\"keyType\":\"string\",\"type\":\"int32\"\x7d\x7d\x7d,"
    ++ "\"CountsEntry_string_int32\":\x7b\"fields\":\x7b\"lost\":\x7b\"type\":\"Missing\"\x7d\x7d\x7d\x7d\x7d"

def hiddenLost : Field where
  name := "lost"
  type := .named "Missing"
  required := false

def hidden : Message where
  name := "CountsEntry_string_int32"
  fields := [hiddenLost]

def hiddenScope : Scope :=
  scopeOf [.message { name := "Index", fields := [counts "counts"] }, .message hidden]

/-- Unknown references may be converted. Both conversions take a simple name for the listed type and
the entries of one map for those of another. The conversion to GraphQL takes a nested type for a
group, and entries or a group for what a reference of their name is to; that to TypeScript takes
the entries of a map for a listed message.
-/
theorem unknown_references_convert
    : (UnknownReference shelfScope shelf shelfFirst "Item"
        ∧ UnknownReference shelfScope shelf shelfItems "a_Item"
        ∧ (GraphQL.convert .text shelfScope).isOk
        ∧ (TypeScript.convert TypeScript.jsDoc .text shelfScope).isOk)
      ∧ (UnknownReference choiceScope choice choiceValue "Missing"
        ∧ (GraphQL.convert .text choiceScope).isOk)
      ∧ (UnknownReference indexScope index indexEntry "CountsEntry_string_int32"
        ∧ (GraphQL.convert .text indexScope).isOk)
      ∧ (UnknownReference eitherScope either eitherSide "Either.part"
        ∧ (GraphQL.convert .text eitherScope).isOk)
      ∧ UnknownReference hiddenScope hidden hiddenLost "Missing"
      ∧ (TypeScript.convert TypeScript.jsDoc .text hiddenScope).isOk := by
  refine ⟨?shelf, ?choice, ?index, ?either, ?hidden⟩
  case shelf =>
    have loaded : Descriptor.Loaded shelfScope.catalog :=
      loaded_of_text shelfText (by decide +kernel)
    refine ⟨⟨loaded, ?_, ?_, ?_, rfl, ?_⟩, ⟨loaded, ?_, ?_, ?_, rfl, ?_⟩, ?_, ?_⟩
    all_goals decide +kernel
  case choice =>
    refine ⟨⟨loaded_of_text choiceText ?_, ?_, ?_, ?_, rfl, ?_⟩, ?_⟩
    all_goals decide +kernel
  case index =>
    refine ⟨⟨loaded_of_text indexText ?_, ?_, ?_, ?_, rfl, ?_⟩, ?_⟩
    all_goals decide +kernel
  case either =>
    refine ⟨⟨loaded_of_text eitherText ?_, ?_, ?_, ?_, rfl, ?_⟩, ?_⟩
    all_goals decide +kernel
  case hidden =>
    refine ⟨⟨loaded_of_text hiddenText ?_, ?_, ?_, ?_, rfl, ?_⟩, ?_⟩
    all_goals decide +kernel

end ProtoSchema
