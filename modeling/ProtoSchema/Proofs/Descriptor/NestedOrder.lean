import Mathlib.Data.List.Perm.Basic
import ProtoSchema.Proofs.Descriptor.WellShaped

/-! The order of nested entries. It decides in which order types are declared, and nothing else: what a
reference denotes is looked up by name among all declarations of the document, and these have
distinct names in every document that loads.
-/

namespace ProtoSchema.Descriptor

open Schema

variable {first second : Json} {declared others : List Declaration} {scope : String}

/-- The documents differ only in the order of entries inside of `nested` objects, at any depths: such
an object may be rearranged, and so may what its entries have inside.
-/
inductive Reordered : Json → Json → Prop
  | refl (value : Json) : Reordered value value
  | trans {first middle last : Json} (left : Reordered first middle)
    (right : Reordered middle last)
    : Reordered first last
  | nested (before after : Entries Json) {left right : Entries Json} (perm : left.Perm right)
    : Reordered (.object (before ++ ("nested", .object left) :: after))
        (.object (before ++ ("nested", .object right) :: after))
  | entry (before after left right : Entries Json) (key : String) {inner other : Json}
    (within : Reordered inner other)
    : Reordered (.object (before ++ ("nested", .object (left ++ (key, inner) :: right)) :: after))
        (.object (before ++ ("nested", .object (left ++ (key, other) :: right)) :: after))

theorem Reordered.symm (reordered : Reordered first second) : Reordered second first := by
  induction reordered with
  | refl value => exact .refl value
  | trans _ _ left right => exact .trans right left
  | nested before after perm => exact .nested before after perm.symm
  | entry before after left right key _ ih => exact .entry before after left right key ih

-----------------------------------------------------------------------------------------
-- Declarations up to their order
-----------------------------------------------------------------------------------------

/-- If the first outcome gives declarations, the second one gives the same up to their order. -/
def Preserves (first second : Except Malformation (List Declaration)) : Prop :=
  ∀ declared, first = .ok declared → ∃ others, second = .ok others ∧ declared.Perm others

theorem Preserves.refl (outcome : Except Malformation (List Declaration))
    : Preserves outcome outcome :=
  fun declared success => ⟨declared, success, .rfl⟩

theorem Preserves.trans {first middle last : Except Malformation (List Declaration)}
    (left : Preserves first middle) (right : Preserves middle last)
    : Preserves first last := by
  intro declared success
  obtain ⟨others, found, perm⟩ := left declared success
  obtain ⟨more, given, next⟩ := right others found
  exact ⟨more, given, perm.trans next⟩

/-- Entries that are rearranged declare the same up to the order. -/
theorem entryDeclarations_perm {left right : Entries Json} (perm : left.Perm right)
    : Preserves (entryDeclarations scope left) (entryDeclarations scope right) := by
  intro declared success
  obtain ⟨parts, each, rfl⟩ := entryDeclarations_eq_ok.mp success
  obtain ⟨others, read, same⟩ := List.perm_comp_forall₂ perm.symm each
  exact ⟨others.flatten, entryDeclarations_eq_ok.mpr ⟨others, read, rfl⟩, same.symm.flatten⟩

/-- An entry with a value that declares the same makes no difference, wherever it stands. -/
theorem entryDeclarations_replace {inner other : Json}
    (same
      : ∀ name, Preserves (typeDeclarations name inner) (typeDeclarations name other))
    (left right : Entries Json) (key : String)
    : Preserves (entryDeclarations scope (left ++ (key, inner) :: right))
        (entryDeclarations scope (left ++ (key, other) :: right)) := by
  have head
      : Preserves (entryDeclarations scope ((key, inner) :: (left ++ right)))
          (entryDeclarations scope ((key, other) :: (left ++ right))) := by
    intro declared success
    obtain ⟨own, read, rest⟩ := Outcome.bind_eq_ok.mp success
    obtain ⟨later, found, appended⟩ := Outcome.bind_eq_ok.mp rest
    cases appended
    obtain ⟨others, given, perm⟩ := same _ own read
    refine ⟨others ++ later, ?_, perm.append_right later⟩
    exact Outcome.bind_eq_ok.mpr ⟨others, given, Outcome.bind_eq_ok.mpr ⟨later, found, rfl⟩⟩
  exact ((entryDeclarations_perm List.perm_middle).trans head).trans
    (entryDeclarations_perm List.perm_middle.symm)

/-- The members of two objects are alike: they are the same apart from what is nested, and what is
nested declares the same.
-/
structure AlikeMembers (first second : Entries Json) : Prop where
  others : ∀ key, key ≠ "nested" → first.get? key = second.get? key
  nested : ∀ scope, Preserves (nestedDeclarations scope first) (nestedDeclarations scope second)

/-- Members are alike if they differ in nested entries that declare the same, by induction on the
members before these.
-/
theorem alikeMembers_of_entries {left right : Entries Json}
    (same
      : ∀ scope, Preserves (entryDeclarations scope left) (entryDeclarations scope right))
    (before after : Entries Json)
    : AlikeMembers (before ++ ("nested", .object left) :: after)
        (before ++ ("nested", .object right) :: after) := by
  induction before with
  | nil =>
      refine ⟨fun key other => ?_, fun scope => ?_⟩
      · simp [Entries.get?, Ne.symm other]
      · simpa [nestedDeclarations, scopeDeclarations] using same scope
  | cons entry rest ih =>
      obtain ⟨key, value⟩ := entry
      refine ⟨fun other apart => ?_, fun scope => ?_⟩
      · simp only [List.cons_append, Entries.get?, ih.others other apart]
      · simp only [List.cons_append, nestedDeclarations]
        split
        · exact .refl _
        · exact ih.nested scope

/-- Alike objects declare the same, by cases on how the first one is read. -/
theorem AlikeMembers.typeDeclarations {first second : Entries Json}
    (alike : AlikeMembers first second) (name : String)
    : Preserves (typeDeclarations name (.object first)) (typeDeclarations name (.object second)) := by
  have present (key : String) (other : key ≠ "nested") : key ∈ first.keys ↔ key ∈ second.keys := by
    rw [← Entries.get?_isSome_iff, ← Entries.get?_isSome_iff, alike.others key other]
  have fielded := present "fields" (by decide)
  have valued := present "values" (by decide)
  have comment : commentOf first = commentOf second := by
    rw [commentOf, commentOf, alike.others _ (by decide)]
  intro declared success
  simp only [typeDeclarations_eq_ok] at success ⊢
  cases success with
  | message here read inside =>
      obtain ⟨others, found, perm⟩ := alike.nested name _ inside
      rw [messageOf, alike.others _ (by decide), alike.others "oneofs" (by decide), comment] at read
      exact ⟨_, .message (fielded.mp here) read found, perm.cons _⟩
  | enumeration here read =>
      rw [enumerationOf, alike.others _ (by decide), alike.others "comments" (by decide),
        comment] at read
      exact ⟨_, .enumeration ⟨mt fielded.mpr here.1, valued.mp here.2⟩ read, .rfl⟩
  | scope untyped inside =>
      obtain ⟨others, found, perm⟩ := alike.nested name _ inside
      exact ⟨others, .scope (mt (Or.imp fielded.mpr valued.mpr) untyped) found, perm⟩

/-- Reordered documents declare the same up to the order, and so do reordered values as entries; by
induction on how they are reordered.
-/
theorem Reordered.preserves (reordered : Reordered first second)
    : Preserves (declarations first) (declarations second)
      ∧ ∀ name, Preserves (typeDeclarations name first) (typeDeclarations name second) := by
  induction reordered with
  | refl value => exact ⟨.refl _, fun name => .refl _⟩
  | trans _ _ left right =>
      exact ⟨left.1.trans right.1, fun name => (left.2 name).trans (right.2 name)⟩
  | nested before after perm =>
      have alike := alikeMembers_of_entries (fun _ => entryDeclarations_perm perm) before after
      exact ⟨alike.nested "", alike.typeDeclarations⟩
  | entry before after left right key _ ih =>
      have alike := alikeMembers_of_entries
        (fun _ => entryDeclarations_replace ih.2 left right key) before after
      exact ⟨alike.nested "", alike.typeDeclarations⟩

-----------------------------------------------------------------------------------------
-- Reading declarations in another order
-----------------------------------------------------------------------------------------

/-- Among declarations with distinct names, which one has a name does not depend on their order. -/
theorem find?_name_perm (perm : declared.Perm others)
    (distinct : (declared.map Declaration.name).Nodup) (name : String)
    : (declared.find? fun declaration => declaration.name = name)
      = others.find? fun declaration => declaration.name = name := by
  cases found : declared.find? fun declaration => declaration.name = name with
  | none =>
      rw [List.find?_eq_none] at found
      exact (List.find?_eq_none.mpr fun other member => found other (perm.mem_iff.mpr member)).symm
  | some declaration =>
      have member := List.mem_of_find?_eq_some found
      have named : declaration.name = name := by simpa using List.find?_some found
      rw [← named]
      refine (find?_eq_some_of_unique (fun other present same => ?_) (perm.mem_iff.mp member)).symm
      exact List.inj_on_of_nodup_map distinct (perm.mem_iff.mpr present) member same

/-- What is read from a declaration depends on the others only by the kinds that they give to names. -/
theorem read_congr {catalog : Catalog}
    (same : ∀ name, kind? declared catalog name = kind? others catalog name)
    (declaration : Declaration)
    : read declared catalog declaration = read others catalog declaration := by
  cases declaration with
  | enumeration content => rfl
  | message content =>
      have fields (field : FieldDeclaration)
          : readField declared catalog content.name field
            = readField others catalog content.name field := by
        simp only [readField, resolveType, resolveReference, hasPresence, isSingularMessage, same]
      rw [read, read, List.map_congr_left fun field _ => fields field]

/-- Declarations with distinct names are read the same in any order. -/
theorem read_perm {catalog : Catalog} (perm : declared.Perm others)
    (distinct : (declared.map Declaration.name).Nodup) (declaration : Declaration)
    : read declared catalog declaration = read others catalog declaration :=
  read_congr (fun name => by rw [kind?, kind?, find?_name_perm perm distinct]) declaration

-----------------------------------------------------------------------------------------
-- Loading reordered documents
-----------------------------------------------------------------------------------------

/-- A document that loads also loads when it is reordered. -/
theorem Reordered.loads {catalog : Catalog} (reordered : Reordered first second)
    (success : (loadDocument catalog first).1 = .ok ())
    : (loadDocument catalog second).1 = .ok () := by
  obtain ⟨declared, given, resolvable, distinct, unknown⟩ := loadDocument_ok_iff.mp success
  obtain ⟨others, found, perm⟩ := reordered.preserves.1 declared given
  have names := perm.map Declaration.name
  refine loadDocument_ok_iff.mpr ⟨others, found, fun declaration member => ?_, ?_, ?_⟩
  · exact resolvable declaration (perm.mem_iff.mpr member)
  · exact names.nodup_iff.mp distinct
  · exact fun name member => unknown name (names.mem_iff.mpr member)

/-- The order of nested entries is irrelevant to what a document means. Of two documents that differ
only in the order of entries inside of `nested` objects, both load or both fail; and if they load,
they leave catalogs with the same names, and with the same type under each name.
-/
theorem nested_order_irrelevant (catalog : Catalog) (reordered : Reordered first second)
    : ((loadDocument catalog first).1 = .ok () ↔ (loadDocument catalog second).1 = .ok ())
      ∧ ∀ left right,
          loadDocument catalog first = (.ok (), left)
          → loadDocument catalog second = (.ok (), right)
          → left.names.Perm right.names
            ∧ ∀ name, left.types.get? name = right.types.get? name := by
  refine ⟨⟨reordered.loads, reordered.symm.loads⟩, fun left right firstLoads secondLoads => ?_⟩
  obtain ⟨declared, given, firstAdds⟩ := loadDocument_reads firstLoads
  obtain ⟨others, found, secondAdds⟩ := loadDocument_reads secondLoads
  obtain ⟨same, again, perm⟩ := reordered.preserves.1 declared given
  cases found.symm.trans again
  obtain ⟨_, once, _, fresh⟩ :=
    loadDocument_ok_iff.mp (show (loadDocument catalog first).1 = .ok () by rw [firstLoads])
  cases given.symm.trans once
  have nodes
      : (declared.map (read declared catalog)).Perm (others.map (read others catalog)) := by
    rw [← List.map_congr_left fun declaration _ => read_perm perm fresh.distinct declaration]
    exact perm.map _
  refine ⟨?_, fun name => Option.ext fun node => ?_⟩
  · rw [firstAdds.names, secondAdds.names]
    exact (nodes.map Node.name).append_left catalog.names
  · rw [firstAdds.get?_iff, secondAdds.get?_iff, nodes.mem_iff]

/-- The nested entries of a document: a message, and a namespace with a message that refers to it and
to an enumeration after it.
-/
def orderedEntries : Entries Json :=
  [("Item", .object [("fields", .object [])]),
    ("shop", namespaceOf [
      ("Order", .object [
        ("fields", .object [
          ("item", .object [("type", .text "Item")]),
          ("status", .object [("type", .text "Status")])])]),
      ("Status", .object [("values", .object [("NEW", .integer 0)])])])]

/-- The same entries in another order, inside of the namespace as well. -/
def rearrangedEntries : Entries Json :=
  [("shop", namespaceOf [
      ("Status", .object [("values", .object [("NEW", .integer 0)])]),
      ("Order", .object [
        ("fields", .object [
          ("item", .object [("type", .text "Item")]),
          ("status", .object [("type", .text "Status")])])])]),
    ("Item", .object [("fields", .object [])])]

/-- Both documents load, and the message refers to the same types in both. -/
theorem rearranged_order_found
    : Reordered (namespaceOf orderedEntries) (namespaceOf rearrangedEntries)
      ∧ (loadDocument {} (namespaceOf orderedEntries)).2.names
        = ["Item", "shop.Order", "shop.Status"]
      ∧ (loadDocument {} (namespaceOf rearrangedEntries)).1 = .ok ()
      ∧ (loadDocument {} (namespaceOf rearrangedEntries)).2.types.get? "shop.Order"
        = (loadDocument {} (namespaceOf orderedEntries)).2.types.get? "shop.Order" := by
  have reordered : Reordered (namespaceOf orderedEntries) (namespaceOf rearrangedEntries) := by
    refine .trans ?_ (.nested [] [] (.swap _ _ []))
    exact .entry [] [] [_] [] "shop" (.nested [] [] (.swap _ _ []))
  have loads : (loadDocument {} (namespaceOf orderedEntries)).1 = .ok () := by decide +kernel
  have alike := nested_order_irrelevant {} reordered
  have others := alike.1.mp loads
  refine ⟨reordered, by decide +kernel, others, ?_⟩
  exact ((alike.2 _ _ (Prod.ext loads rfl) (Prod.ext others rfl)).2 "shop.Order").symm

end ProtoSchema.Descriptor
