import ProtoSchema.Conversion
import ProtoSchema.Proofs.Descriptor.Scoping

/-! What a conversion prepares. The names that it mentions are looked up, those of inputs first, and
the first unknown one is reported. If all are known, nothing changes in the catalog but which
messages are inputs, and the types that are listed come from the changed catalog.
-/

namespace ProtoSchema.Conversion

open Schema

-----------------------------------------------------------------------------------------
-- Choices
-----------------------------------------------------------------------------------------

/-- A type to select, or a message to make an input. -/
inductive Choice where
  | select (name : String)
  | input (name : String)
deriving DecidableEq, Repr

def Choice.apply (conversion : Conversion) : Choice → Conversion
  | .select name => conversion.select name
  | .input name => conversion.input name

def Choice.selected? : Choice → Option String
  | .select name => some name
  | .input _ => none

def Choice.input? : Choice → Option String
  | .select _ => none
  | .input name => some name

/-- The conversion that choices lead to, made one after the other. -/
def configure (choices : List Choice) : Conversion :=
  choices.foldl Choice.apply {}

/-- The names that are looked up, those of inputs first. -/
def mentioned (choices : List Choice) : List String :=
  choices.filterMap Choice.input? ++ choices.filterMap Choice.selected?

/-- The names of the messages that are to be inputs. -/
def marks (choices : List Choice) : List String :=
  (choices.filterMap Choice.input?).map Name.dropLeadingDots

variable {catalog : Catalog} {choices others : List Choice} {scope : Scope}

/-- Choices add to a conversion in their order, by induction on them. -/
theorem foldl_apply (choices : List Choice) (conversion : Conversion)
    : choices.foldl Choice.apply conversion
      = { conversion with
          selected := conversion.selected ++ choices.filterMap Choice.selected?
          inputs := conversion.inputs ++ choices.filterMap Choice.input? } := by
  induction choices generalizing conversion with
  | nil => simp
  | cons choice rest ih =>
      rw [List.foldl_cons, ih]
      cases choice with
      | select name =>
          rw [List.filterMap_cons_some (show Choice.selected? (.select name) = some name from rfl),
            List.filterMap_cons_none (show Choice.input? (.select name) = none from rfl)]
          simp [Choice.apply, select]
      | input name =>
          rw [List.filterMap_cons_none (show Choice.selected? (.input name) = none from rfl),
            List.filterMap_cons_some (show Choice.input? (.input name) = some name from rfl)]
          simp [Choice.apply, input]

theorem configure_eq (choices : List Choice)
    : configure choices
      = { selected := choices.filterMap Choice.selected?
          inputs := choices.filterMap Choice.input? } := by
  rw [configure, foldl_apply]
  rfl

theorem mem_mentioned {name : String}
    : name ∈ mentioned choices ↔ .input name ∈ choices ∨ .select name ∈ choices := by
  rw [mentioned, List.mem_append, List.mem_filterMap, List.mem_filterMap]
  refine or_congr ⟨?_, fun member => ⟨_, member, rfl⟩⟩ ⟨?_, fun member => ⟨_, member, rfl⟩⟩
  · rintro ⟨choice, member, same⟩
    cases choice <;> cases same
    exact member
  · rintro ⟨choice, member, same⟩
    cases choice <;> cases same
    exact member

-----------------------------------------------------------------------------------------
-- Lookups that fail
-----------------------------------------------------------------------------------------

/-- The first of the names that the catalog does not have. -/
def unknown? (catalog : Catalog) (names : List String) : Option String :=
  names.find? fun name => !catalog.contains name

theorem unknown?_eq_none {names : List String}
    : unknown? catalog names = none ↔ ∀ name ∈ names, catalog.contains name := by
  simp [unknown?]

theorem unknown?_append (catalog : Catalog) (first second : List String)
    : unknown? catalog (first ++ second)
      = (unknown? catalog first).or (unknown? catalog second) :=
  List.find?_append

/-- A known name before the others is not the first unknown one. -/
theorem unknown?_cons_of_known {name : String} (known : catalog.contains name)
    (rest : List String)
    : unknown? catalog (name :: rest) = unknown? catalog rest := by
  rw [unknown?, List.find?_cons_of_neg (by simp [known]), unknown?]

theorem unknown?_cons_of_unknown {name : String} (unknown : catalog.contains name = false)
    (rest : List String)
    : unknown? catalog (name :: rest) = some name := by
  rw [unknown?, List.find?_cons_of_pos (by simp [unknown])]

/-- Finding all of the names fails with the first unknown one, by induction on the names. -/
theorem mapM_find (catalog : Catalog) (names : List String)
    : names.mapM (find catalog)
      = match unknown? catalog names with
        | some name => .error (unknownName catalog name)
        | none => .ok (names.filterMap catalog.lookup) := by
  induction names with
  | nil => rfl
  | cons name rest ih =>
      rw [List.mapM_cons, ih, find]
      cases found : catalog.lookup name with
      | none =>
          rw [unknown?_cons_of_unknown (by rw [Catalog.contains, found]; rfl)]
          rfl
      | some node =>
          rw [unknown?_cons_of_known (by rw [Catalog.contains, found]; rfl),
            List.filterMap_cons_some found]
          cases unknown? catalog rest <;> rfl

-----------------------------------------------------------------------------------------
-- Marked catalogs
-----------------------------------------------------------------------------------------

/-- A type as preparation leaves it: a named message is an input, and so is one that was an input
before.
-/
def inputIf (named : Bool) : Node → Node
  | .message content => .message { content with isInput := content.isInput || named }
  | .enumeration content => .enumeration content

@[simp] theorem inputIf_false (node : Node) : inputIf false node = node := by
  cases node <;> simp [inputIf]

@[simp] theorem name_inputIf (named : Bool) (node : Node)
    : (inputIf named node).name = node.name := by
  cases node <;> rfl

/-- Marking a message more than once is as good as marking it once. -/
theorem inputIf_markInput (named : Bool) (node : Node)
    : inputIf named node.markInput = inputIf true node := by
  cases node <;> simp [inputIf, Node.markInput, Message.asInput]

/-- The catalog with marks made one after the other. -/
def markAll (catalog : Catalog) (names : List String) : Catalog :=
  names.foldl (fun catalog name => catalog.modify name Node.markInput) catalog

/-- Changing types keeps their names. -/
theorem names_modify (catalog : Catalog) (name : String) (change : Node → Node)
    : (catalog.modify name change).names = catalog.names :=
  Entries.keys_modify _ change catalog.types.entries

/-- Which names are known does not change with the types under them. -/
theorem contains_modify (catalog : Catalog) (name : String) (change : Node → Node)
    : (catalog.modify name change).contains = catalog.contains := by
  funext other
  rw [Catalog.contains, Catalog.lookup, Catalog.modify, OrderedMap.get?_modify]
  split
  · rw [Option.isSome_map, Catalog.contains, Catalog.lookup]
  · rfl

/-- All marks together: every type is marked if its name is that of a mark. By induction on the
names, with the marks that are made first absorbed by those made later.
-/
theorem entries_markAll (catalog : Catalog) (names : List String)
    : (markAll catalog names).types.entries
      = catalog.types.entries.map fun entry =>
          (entry.1, inputIf (decide (entry.1 ∈ names.map Name.dropLeadingDots)) entry.2) := by
  induction names generalizing catalog with
  | nil => simp [markAll]
  | cons name rest ih =>
      have first : (catalog.modify name Node.markInput).types.entries
          = catalog.types.entries.map fun entry =>
              if entry.1 = Name.dropLeadingDots name then (entry.1, entry.2.markInput)
              else entry := rfl
      rw [markAll, List.foldl_cons, ← markAll, ih, first, List.map_map]
      refine List.map_congr_left fun entry _ => ?_
      by_cases same : entry.1 = Name.dropLeadingDots name
      · simp [same, inputIf_markInput]
      · simp [same]

theorem names_markAll (catalog : Catalog) (names : List String)
    : (markAll catalog names).names = catalog.names := by
  rw [Catalog.names, OrderedMap.keys, Entries.keys, entries_markAll, List.map_map]
  rfl

theorem contains_markAll (catalog : Catalog) (names : List String)
    : (markAll catalog names).contains = catalog.contains := by
  induction names generalizing catalog with
  | nil => rfl
  | cons name rest ih => rw [markAll, List.foldl_cons, ← markAll, ih, contains_modify]

/-- Marking fails with the first unknown name, by induction on the names. -/
theorem foldlM_markInput (catalog : Catalog) (names : List String)
    : names.foldlM markInput catalog
      = match unknown? catalog names with
        | some name => .error (unknownName catalog name)
        | none => .ok (markAll catalog names) := by
  induction names generalizing catalog with
  | nil => rfl
  | cons name rest ih =>
      rw [List.foldlM_cons, markInput]
      cases known : catalog.contains name with
      | false =>
          rw [unknown?_cons_of_unknown known]
          rfl
      | true =>
          have next := ih (catalog.modify name Node.markInput)
          rw [unknown?, contains_modify, ← unknown?] at next
          rw [unknown?_cons_of_known known, if_pos rfl]
          refine next.trans ?_
          simp only [unknownName, names_modify]
          rfl

-----------------------------------------------------------------------------------------
-- Preparation
-----------------------------------------------------------------------------------------

/-- The types that are listed from a catalog: the selected ones, or all if none is selected. -/
def listing (selected : List String) (catalog : Catalog) : List Node :=
  if selected.isEmpty then catalog.nodes else selected.filterMap catalog.lookup

/-- What there is to convert once the choices are made, provided that all names are known. -/
def preparedScope (choices : List Choice) (catalog : Catalog) : Scope where
  catalog := markAll catalog (choices.filterMap Choice.input?)
  listed :=
    listing (choices.filterMap Choice.selected?)
      (markAll catalog (choices.filterMap Choice.input?))

/-- Listing fails with the first unknown name, by cases on whether types are selected. -/
theorem list_eq (selected : List String) (catalog : Catalog)
    : (if selected.isEmpty then .ok catalog.nodes else selected.mapM (find catalog))
      = match unknown? catalog selected with
        | some name => .error (unknownName catalog name)
        | none => .ok (listing selected catalog) := by
  cases selected with
  | nil => rfl
  | cons name rest => exact mapM_find catalog (name :: rest)

/-- Preparation fails with the first unknown name and succeeds if there is none. -/
theorem prepare_configure (choices : List Choice) (catalog : Catalog)
    : (configure choices).prepare catalog
      = match unknown? catalog (mentioned choices) with
        | some name => .error (unknownName catalog name)
        | none => .ok (preparedScope choices catalog) := by
  rw [mentioned, unknown?_append, configure_eq, preparedScope]
  generalize choices.filterMap Choice.input? = inputs
  generalize choices.filterMap Choice.selected? = selected
  have prepared : prepare { selected, inputs } catalog
      = inputs.foldlM markInput catalog >>= fun marked =>
          (if selected.isEmpty then .ok marked.nodes else selected.mapM (find marked))
            >>= fun listed => .ok { catalog := marked, listed } := by
    cases selected <;> rfl
  rw [prepared, foldlM_markInput]
  simp only [list_eq]
  cases unknown? catalog inputs with
  | some name => rfl
  | none =>
      have same : unknown? (markAll catalog inputs) selected = unknown? catalog selected := by
        rw [unknown?, contains_markAll, unknown?]
      have fails (name : String) : unknownName (markAll catalog inputs) name
          = unknownName catalog name := by
        rw [unknownName, names_markAll, unknownName]
      rw [Option.none_or]
      simp only [bind, Except.bind, same, fails]
      cases unknown? catalog selected <;> rfl

/-- What a preparation that succeeds gives. The catalog has the same names in the same order, and
its types are as before except that the messages named as inputs are inputs. The listed types are
the selected ones in their order, or all types if none is selected; each is the type of its name in
the prepared catalog.
-/
structure Prepared (catalog : Catalog) (choices : List Choice) (scope : Scope) : Prop where
  names : scope.catalog.names = catalog.names
  nodes
    : scope.catalog.nodes
      = catalog.nodes.map fun node => inputIf (decide (node.name ∈ marks choices)) node
  all : choices.filterMap Choice.selected? = [] → scope.listed = scope.catalog.nodes
  selected
    : choices.filterMap Choice.selected? ≠ []
      → List.Forall₂
          (fun name node =>
            scope.catalog.lookup name = some node ∧ node.name = Name.dropLeadingDots name)
          (choices.filterMap Choice.selected?) scope.listed
  stored : ∀ node ∈ scope.listed, scope.catalog.types.get? node.name = some node

/-- The types of a marked catalog in terms of their own names. -/
theorem nodes_markAll (keyed : Descriptor.Keyed catalog) (names : List String)
    : (markAll catalog names).nodes
      = catalog.nodes.map fun node =>
          inputIf (decide (node.name ∈ names.map Name.dropLeadingDots)) node := by
  rw [Catalog.nodes, Catalog.nodes, OrderedMap.values, OrderedMap.values, entries_markAll,
    List.map_map, List.map_map]
  refine List.map_congr_left fun entry member => ?_
  have named : entry.2.name = entry.1 := keyed _ _ (OrderedMap.mem_entries_iff.mp member)
  simp only [Function.comp_apply, named]

/-- Marks do not affect that types stand under their own names. -/
theorem keyed_markAll (keyed : Descriptor.Keyed catalog) (names : List String)
    : Descriptor.Keyed (markAll catalog names) := by
  intro name node found
  have member := OrderedMap.mem_entries_iff.mpr found
  rw [entries_markAll] at member
  obtain ⟨⟨key, original⟩, present, same⟩ := List.mem_map.mp member
  cases same
  rw [name_inputIf]
  exact keyed _ _ (OrderedMap.mem_entries_iff.mp present)

/-- Names that are all known are found one by one, by induction on them. -/
theorem forall₂_filterMap_lookup {names : List String}
    (known : ∀ name ∈ names, catalog.contains name)
    : List.Forall₂ (fun name node => catalog.lookup name = some node) names
        (names.filterMap catalog.lookup) := by
  induction names with
  | nil => exact .nil
  | cons name rest ih =>
      obtain ⟨head, tail⟩ := List.forall_mem_cons.mp known
      obtain ⟨node, found⟩ := Option.isSome_iff_exists.mp head
      rw [List.filterMap_cons_some found]
      exact .cons found (ih tail)

/-- Selected types are listed in the order of selection, under their own names. -/
theorem forall₂_listing (keyed : Descriptor.Keyed catalog) {selected : List String}
    (some_ : selected ≠ []) (known : ∀ name ∈ selected, catalog.contains name)
    : List.Forall₂
        (fun name node =>
          catalog.lookup name = some node ∧ node.name = Name.dropLeadingDots name)
        selected (listing selected catalog) := by
  rw [listing, if_neg (by simpa using some_)]
  exact (forall₂_filterMap_lookup known).imp fun _ _ found => ⟨found, keyed _ _ found⟩

/-- What is listed stands under its own name, by cases on whether types are selected. -/
theorem get?_of_mem_listing (keyed : Descriptor.Keyed catalog) {selected : List String}
    {node : Node} (listed : node ∈ listing selected catalog)
    : catalog.types.get? node.name = some node := by
  rw [listing] at listed
  split at listed
  · obtain ⟨name, found⟩ := OrderedMap.mem_values_iff.mp listed
    rw [keyed name node found, found]
  · obtain ⟨name, _, found⟩ := List.mem_filterMap.mp listed
    have stored : catalog.types.get? (Name.dropLeadingDots name) = some node := found
    rw [keyed _ node stored, stored]

theorem prepared_preparedScope (keyed : Descriptor.Keyed catalog)
    (known : ∀ name ∈ mentioned choices, catalog.contains name)
    : Prepared catalog choices (preparedScope choices catalog) where
  names := names_markAll catalog _
  nodes := nodes_markAll keyed _
  all none_ := by
    rw [preparedScope, none_]
    rfl
  selected some_ := by
    refine forall₂_listing (keyed_markAll keyed _) some_ fun name member => ?_
    rw [contains_markAll]
    exact known name (List.mem_append_right _ member)
  stored _ listed := get?_of_mem_listing (keyed_markAll keyed _) listed

/-- Marks of the same names give the same catalog, in whatever order and however often they are
made.
-/
theorem markAll_congr {first second : List String}
    (same
      : ∀ name,
          name ∈ first.map Name.dropLeadingDots ↔ name ∈ second.map Name.dropLeadingDots)
    : markAll catalog first = markAll catalog second := by
  have entries
      : (markAll catalog first).types.entries = (markAll catalog second).types.entries := by
    rw [entries_markAll, entries_markAll]
    simp only [same]
  generalize markAll catalog first = one at entries
  generalize markAll catalog second = other at entries
  obtain ⟨⟨entriesOne, _⟩⟩ := one
  obtain ⟨⟨entriesOther, _⟩⟩ := other
  cases entries
  rfl

/-- Whether a name is known does not depend on its leading dots. -/
theorem contains_eq_of_dropLeadingDots {first second : String}
    (same : Name.dropLeadingDots first = Name.dropLeadingDots second)
    : catalog.contains first = catalog.contains second := by
  rw [Catalog.contains, Catalog.contains, Catalog.lookup, Catalog.lookup, same]

/-- Choices with the same selection and the same marks mention known names alike, by cases on what a
name is mentioned for.
-/
theorem known_of_same_marks
    (selected : others.filterMap Choice.selected? = choices.filterMap Choice.selected?)
    (marked : ∀ name, name ∈ marks others ↔ name ∈ marks choices)
    (known : ∀ name ∈ mentioned choices, catalog.contains name)
    : ∀ name ∈ mentioned others, catalog.contains name := by
  intro name member
  rcases List.mem_append.mp member with input | select
  · obtain ⟨other, present, same⟩ := List.mem_map.mp ((marked _).mp (List.mem_map_of_mem input))
    rw [← contains_eq_of_dropLeadingDots same]
    exact known other (List.mem_append_left _ present)
  · rw [selected] at select
    exact known name (List.mem_append_right _ select)

/-- Preparation succeeds exactly if all names that are mentioned are known. Then exactly the
messages named as inputs are marked, and the listed types are those of the marked catalog; otherwise
the first unknown name is reported, with those of inputs before those that are selected. What a
preparation that succeeds gives depends on neither the order nor the repetition of marks.
-/
theorem prepare_marks_named_inputs (keyed : Descriptor.Keyed catalog) (choices : List Choice)
    : ((∃ scope, (configure choices).prepare catalog = .ok scope)
        ↔ ∀ name, .input name ∈ choices ∨ .select name ∈ choices → catalog.contains name)
      ∧ (∀ scope,
          (configure choices).prepare catalog = .ok scope → Prepared catalog choices scope)
      ∧ (∀ error,
          (configure choices).prepare catalog = .error error
          → ∃ name,
              unknown? catalog (mentioned choices) = some name
              ∧ error
                = .typeNotFound (Name.dropLeadingDots name)
                    (Suggestion.hint? name catalog.names))
      ∧ ∀ others scope,
          others.filterMap Choice.selected? = choices.filterMap Choice.selected?
          → (∀ name, name ∈ marks others ↔ name ∈ marks choices)
          → (configure choices).prepare catalog = .ok scope
          → (configure others).prepare catalog = .ok scope := by
  simp only [← mem_mentioned, prepare_configure]
  cases first : unknown? catalog (mentioned choices) with
  | some name =>
      have unknown := mt unknown?_eq_none.mpr (by rw [first]; exact Option.some_ne_none name)
      refine ⟨⟨?_, fun known => absurd known unknown⟩, ?_, ?_, ?_⟩
      · rintro ⟨_, impossible⟩
        cases impossible
      · intro _ impossible
        cases impossible
      · intro error same
        cases same
        exact ⟨name, rfl, rfl⟩
      · intro _ _ _ _ impossible
        cases impossible
  | none =>
      have known := unknown?_eq_none.mp first
      refine ⟨⟨fun _ => known, fun _ => ⟨_, rfl⟩⟩, ?_, ?_, ?_⟩
      · intro scope same
        cases same
        exact prepared_preparedScope keyed known
      · intro _ impossible
        cases impossible
      · intro others scope selected marked same
        cases same
        rw [unknown?_eq_none.mpr (known_of_same_marks selected marked known), preparedScope,
          preparedScope, selected, markAll_congr marked]

/-- A message and an enumeration, each under its own name. -/
def orderCatalog : Catalog where
  types := .ofEntries [
    ("shop.Order", .message { name := "shop.Order" }),
    ("shop.Color", .enumeration { name := "shop.Color" })
  ]

theorem keyed_orderCatalog : Descriptor.Keyed orderCatalog := by
  intro name node found
  have entries : orderCatalog.types.entries = [
      ("shop.Order", .message { name := "shop.Order" }),
      ("shop.Color", .enumeration { name := "shop.Color" })] := rfl
  have member := OrderedMap.mem_entries_iff.mpr found
  rw [entries, List.mem_cons, List.mem_singleton] at member
  rcases member with same | same <;> cases same <;> rfl

/-- A message may be marked more than once, with and without leading dots, and before or after types
are selected.
-/
theorem order_prepared
    : Descriptor.Keyed orderCatalog
      ∧ ∃ scope,
          (configure [.input ".shop.Order", .select "shop.Color", .input "shop.Order"]).prepare
              orderCatalog
            = .ok scope
          ∧ Prepared orderCatalog
              [.input ".shop.Order", .select "shop.Color", .input "shop.Order"] scope := by
  have ⟨succeeds, prepared, _⟩ := prepare_marks_named_inputs keyed_orderCatalog
    [.input ".shop.Order", .select "shop.Color", .input "shop.Order"]
  have known : ∀ name ∈ mentioned
      [.input ".shop.Order", .select "shop.Color", .input "shop.Order"],
      orderCatalog.contains name := by decide
  have ⟨scope, success⟩ := succeeds.mpr fun name named => known name (mem_mentioned.mpr named)
  exact ⟨keyed_orderCatalog, scope, success, prepared scope success⟩

end ProtoSchema.Conversion
