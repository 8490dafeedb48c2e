import ProtoSchema.Descriptor.Load
import ProtoSchema.Proofs.Outcome

/-! How a load changes the catalog. Types are added at its end, up to the first whose name is taken;
so a catalog that was loaded from texts holds each type under its own name.
-/

namespace ProtoSchema.Descriptor

open Schema

variable {catalog before middle after : Catalog}

/-- The types stand at the end of the catalog, after those that were there before. -/
def Adds (before : Catalog) (nodes : List Node) (after : Catalog) : Prop :=
  after.types.entries = before.types.entries ++ nodes.map fun node => (node.name, node)

theorem Adds.refl (catalog : Catalog) : Adds catalog [] catalog :=
  (List.append_nil _).symm

theorem Adds.cons {node : Node} {nodes : List Node} (first : Adds before [node] middle)
    (rest : Adds middle nodes after)
    : Adds before (node :: nodes) after := by
  rw [Adds, rest, first, List.append_assoc]
  rfl

theorem Adds.names {nodes : List Node} (adds : Adds before nodes after)
    : after.names = before.names ++ nodes.map Node.name := by
  rw [Catalog.names, OrderedMap.keys, Entries.keys, adds, List.map_append, List.map_map]
  rfl

/-- A catalog to which nothing is added stays as it is. -/
theorem Adds.eq (adds : Adds before [] after) : after = before := by
  cases before with
  | mk types =>
      cases after with
      | mk others =>
          rw [Adds, List.map_nil, List.append_nil] at adds
          cases types
          cases others
          cases adds
          rfl

-----------------------------------------------------------------------------------------
-- Inserting types
-----------------------------------------------------------------------------------------

/-- A type whose name is free is added. -/
theorem insert_of_free {node : Node} (free : node.name ∉ catalog.names)
    : ∃ extended, catalog.insert node = .ok extended ∧ Adds catalog [node] extended := by
  have absent : catalog.types.contains node.name = false := by
    rw [← Bool.not_eq_true]
    exact fun known => free (Entries.get?_isSome_iff.mp known)
  refine ⟨⟨catalog.types.insert node.name node⟩, ?_, Entries.insert_of_absent free node⟩
  rw [Catalog.insert, OrderedMap.insertNew?, absent]
  rfl

/-- A type whose name is taken is not added. -/
theorem insert_of_taken {node : Node} (taken : node.name ∈ catalog.names)
    : catalog.insert node = .error ⟨node.name⟩ := by
  have known : catalog.types.contains node.name = true := Entries.get?_isSome_iff.mpr taken
  rw [Catalog.insert, OrderedMap.insertNew?, known]
  rfl

/-- How types are inserted one after the other: all of them are added, or those before the first
whose name is taken.
-/
inductive Inserts (catalog : Catalog) : List Node → Except Malformation Unit × Catalog → Prop
  | all {nodes : List Node} {after : Catalog}
    (free : ∀ node ∈ nodes, node.name ∉ catalog.names) (adds : Adds catalog nodes after)
    : Inserts catalog nodes (.ok (), after)
  | stopped {kept rest : List Node} {duplicate : Node} {after : Catalog}
    (free : ∀ node ∈ kept, node.name ∉ catalog.names) (taken : duplicate.name ∈ catalog.names)
    (adds : Adds catalog kept after)
    : Inserts catalog (kept ++ duplicate :: rest)
        (.error (.duplicateName duplicate.name), after)

/-- Types with distinct names are inserted so, by induction on the types. -/
theorem insertAll_inserts {nodes : List Node} (distinct : (nodes.map Node.name).Nodup)
    : Inserts catalog nodes (insertAll catalog nodes) := by
  induction nodes generalizing catalog with
  | nil => exact .all (fun _ member => absurd member List.not_mem_nil) (.refl catalog)
  | cons node rest ih =>
      obtain ⟨fresh, others⟩ := List.nodup_cons.mp distinct
      by_cases taken : node.name ∈ catalog.names
      · rw [insertAll, insert_of_taken taken]
        exact .stopped (fun _ member => absurd member List.not_mem_nil) taken (.refl catalog)
      · obtain ⟨extended, inserted, first⟩ := insert_of_free taken
        rw [insertAll, inserted]
        have free (nodes : List Node) (later : ∀ node ∈ nodes, node.name ∉ extended.names)
            : ∀ other ∈ node :: nodes, other.name ∉ catalog.names := by
          intro other member
          rcases List.mem_cons.mp member with rfl | member
          · exact taken
          · refine fun known => later other member ?_
            rw [first.names]
            exact List.mem_append_left _ known
        have inserts : Inserts extended rest (insertAll extended rest) := ih others
        simp only
        generalize insertAll extended rest = result at inserts
        cases inserts with
        | all later adds => exact .all (free rest later) (first.cons adds)
        | @stopped kept tail duplicate after later known adds =>
            have taken : duplicate.name ∈ catalog.names := by
              rw [first.names, List.mem_append, List.map_singleton, List.mem_singleton] at known
              refine known.resolve_right fun same => fresh ?_
              rw [← same, List.map_append, List.map_cons]
              exact List.mem_append_right _ List.mem_cons_self
            exact .stopped (free kept later) taken (first.cons adds)

-----------------------------------------------------------------------------------------
-- The check of names
-----------------------------------------------------------------------------------------

/-- The types passed the check of names: their names are distinct, and none of them is known
already, apart from leading dots.
-/
structure Checked (catalog : Catalog) (nodes : List Node) : Prop where
  unknown : ∀ node ∈ nodes, Name.dropLeadingDots node.name ∉ catalog.names
  distinct : (nodes.map Node.name).Nodup

/-- The check finds nothing exactly if the names are unknown and distinct, by induction on the
types.
-/
theorem firstDuplicate?_eq_none {seen : List String} {nodes : List Node}
    : firstDuplicate? catalog seen nodes = none
      ↔ (∀ node ∈ nodes, Name.dropLeadingDots node.name ∉ catalog.names ∧ node.name ∉ seen)
        ∧ (nodes.map Node.name).Nodup := by
  induction nodes generalizing seen with
  | nil => simp [firstDuplicate?]
  | cons node rest ih =>
      have contains : catalog.contains node.name = true
          ↔ Name.dropLeadingDots node.name ∈ catalog.names :=
        Entries.get?_isSome_iff
      rw [firstDuplicate?]
      by_cases duplicate : catalog.contains node.name || seen.contains node.name
      · rw [if_pos duplicate]
        rw [Bool.or_eq_true, contains, List.contains_iff_mem] at duplicate
        constructor
        · intro impossible
          cases impossible
        · intro passed
          obtain ⟨unknown, unseen⟩ := passed.1 node List.mem_cons_self
          exact (duplicate.elim unknown unseen).elim
      · rw [if_neg duplicate, ih]
        rw [Bool.or_eq_true, contains, List.contains_iff_mem, not_or] at duplicate
        rw [List.map_cons, List.nodup_cons]
        constructor
        · rintro ⟨passed, distinct⟩
          refine ⟨fun other member => ?_, fun known => ?_, distinct⟩
          · rcases List.mem_cons.mp member with rfl | later
            · exact duplicate
            · obtain ⟨unknown, unseen⟩ := passed other later
              exact ⟨unknown, fun known => unseen (List.mem_cons_of_mem node.name known)⟩
          · obtain ⟨other, later, same⟩ := List.mem_map.mp known
            exact (passed other later).2 (same ▸ List.mem_cons_self)
        · rintro ⟨passed, fresh, distinct⟩
          refine ⟨fun other later => ?_, distinct⟩
          obtain ⟨unknown, unseen⟩ := passed other (List.mem_cons_of_mem node later)
          refine ⟨unknown, fun known => ?_⟩
          rcases List.mem_cons.mp known with same | known
          · exact fresh (same ▸ List.mem_map_of_mem later)
          · exact unseen known

/-- What a document gives passed the check, and comes from its declarations one by one. -/
theorem nodesOf_eq_ok {document : Json} {nodes : List Node}
    (success : nodesOf catalog document = .ok nodes)
    : ∃ declared,
        declarations document = .ok declared
        ∧ List.Forall₂ (fun declaration node => resolve declared catalog declaration = .ok node)
            declared nodes
        ∧ Checked catalog nodes := by
  obtain ⟨declared, found, rest⟩ := Outcome.bind_eq_ok.mp success
  obtain ⟨resolved, each, checked⟩ := Outcome.bind_eq_ok.mp rest
  cases passed : firstDuplicate? catalog [] resolved with
  | some name => simp [passed] at checked
  | none =>
      rw [passed] at checked
      cases checked
      obtain ⟨unknown, distinct⟩ := firstDuplicate?_eq_none.mp passed
      exact ⟨declared, found, Outcome.mapM_eq_ok.mp each,
        fun node member => (unknown node member).1, distinct⟩

/-- Declarations that give types which pass the check are what a document gives. -/
theorem nodesOf_of_checked {document : Json} {declared : List Declaration} {nodes : List Node}
    (given : declarations document = .ok declared)
    (each : declared.mapM (resolve declared catalog) = .ok nodes) (checked : Checked catalog nodes)
    : nodesOf catalog document = .ok nodes := by
  have passed : firstDuplicate? catalog [] nodes = none :=
    firstDuplicate?_eq_none.mpr
      ⟨fun node member => ⟨checked.unknown node member, List.not_mem_nil⟩, checked.distinct⟩
  refine Outcome.bind_eq_ok.mpr ⟨declared, given, Outcome.bind_eq_ok.mpr ⟨nodes, each, ?_⟩⟩
  rw [passed]

/-- What a document gives can be inserted, since no name occurs twice in it. -/
theorem nodesOf_inserts {document : Json} {nodes : List Node}
    (success : nodesOf catalog document = .ok nodes)
    : Inserts catalog nodes (insertAll catalog nodes) := by
  obtain ⟨_, _, _, checked⟩ := nodesOf_eq_ok success
  exact insertAll_inserts checked.distinct

-----------------------------------------------------------------------------------------
-- Loaded catalogs
-----------------------------------------------------------------------------------------

/-- The catalog is reached from the empty one by loading texts, also ones that fail. -/
inductive Loaded : Catalog → Prop
  | empty : Loaded {}
  | load {catalog : Catalog} (loaded : Loaded catalog) (sourceName text : String)
    : Loaded (loadText catalog sourceName text).2

/-- How a text is loaded. It may be rejected before any type is inserted; otherwise all of its
types are added, or those before the first whose name is taken.
-/
inductive Loads (catalog : Catalog) (text : String) : Except Report Unit × Catalog → Prop
  | rejected (report : Report)
    (invalid
      : ∀ document nodes,
          Json.parse text.toUTF8.toList = .ok document → nodesOf catalog document ≠ .ok nodes)
    : Loads catalog text (.error report, catalog)
  | added {document : Json} {nodes : List Node} {after : Catalog}
    (parsed : Json.parse text.toUTF8.toList = .ok document)
    (found : nodesOf catalog document = .ok nodes) (adds : Adds catalog nodes after)
    : Loads catalog text (.ok (), after)
  | stopped {document : Json} {kept rest : List Node} {duplicate : Node} {after : Catalog}
    (report : Report) (parsed : Json.parse text.toUTF8.toList = .ok document)
    (found : nodesOf catalog document = .ok (kept ++ duplicate :: rest))
    (free : ∀ node ∈ kept, node.name ∉ catalog.names) (taken : duplicate.name ∈ catalog.names)
    (adds : Adds catalog kept after)
    : Loads catalog text (.error report, after)

/-- Texts are loaded so, by cases on how far the load comes. -/
theorem loadText_loads (catalog : Catalog) (sourceName text : String)
    : Loads catalog text (loadText catalog sourceName text) := by
  simp only [loadText, loadDocument]
  cases parsed : Json.parse text.toUTF8.toList with
  | error error =>
      refine .rejected _ fun document nodes same => ?_
      cases parsed.symm.trans same
  | ok document =>
      simp only
      cases found : nodesOf catalog document with
      | error malformation =>
          refine .rejected _ fun other nodes same => ?_
          cases parsed.symm.trans same
          rw [found]
          exact fun impossible => nomatch impossible
      | ok nodes =>
          have inserts := nodesOf_inserts found
          simp only
          generalize insertAll catalog nodes = result at inserts
          cases inserts with
          | all free adds => exact .added parsed found adds
          | stopped free taken adds => exact .stopped _ parsed found free taken adds

/-- What is loaded was there before or is among the types of the text's document. -/
theorem Loads.mem_entries {text : String} {result : Except Report Unit × Catalog}
    (loads : Loads before text result) {entry : String × Node}
    (member : entry ∈ result.2.types.entries)
    : entry ∈ before.types.entries
      ∨ ∃ document nodes,
          Json.parse text.toUTF8.toList = .ok document
          ∧ nodesOf before document = .ok nodes
          ∧ entry.2 ∈ nodes
          ∧ entry.2.name = entry.1 := by
  cases loads with
  | rejected _ _ => exact .inl member
  | added parsed found adds =>
      rw [adds] at member
      rcases List.mem_append.mp member with earlier | new
      · exact .inl earlier
      · obtain ⟨node, inside, rfl⟩ := List.mem_map.mp new
        exact .inr ⟨_, _, parsed, found, inside, rfl⟩
  | stopped _ parsed found _ _ adds =>
      rw [adds] at member
      rcases List.mem_append.mp member with earlier | new
      · exact .inl earlier
      · obtain ⟨node, inside, rfl⟩ := List.mem_map.mp new
        exact .inr ⟨_, _, parsed, found, List.mem_append_left _ inside, rfl⟩

/-- Each type of a loaded catalog stands under its name, and it is among the types of a document
that was loaded; by induction on the loads.
-/
theorem Loaded.origin (loaded : Loaded catalog) {name : String} {node : Node}
    (found : catalog.types.get? name = some node)
    : node.name = name
      ∧ ∃ text earlier document nodes,
          Json.parse text = .ok document
          ∧ nodesOf earlier document = .ok nodes
          ∧ node ∈ nodes := by
  have member := OrderedMap.mem_entries_iff.mpr found
  clear found
  induction loaded with
  | empty => exact absurd member List.not_mem_nil
  | @load catalog _ sourceName text ih =>
      rcases (loadText_loads catalog sourceName text).mem_entries member with earlier | new
      · exact ih earlier
      · obtain ⟨document, nodes, parsed, given, inside, named⟩ := new
        exact ⟨named, _, catalog, document, nodes, parsed, given, inside⟩

/-- A loaded catalog has one type of each name. -/
theorem Loaded.name_injective (loaded : Loaded catalog) {first second : Node}
    (left : first ∈ catalog.nodes) (right : second ∈ catalog.nodes)
    (same : first.name = second.name)
    : first = second := by
  obtain ⟨firstKey, firstFound⟩ := OrderedMap.mem_values_iff.mp left
  obtain ⟨secondKey, secondFound⟩ := OrderedMap.mem_values_iff.mp right
  rw [← (loaded.origin firstFound).1] at firstFound
  rw [← (loaded.origin secondFound).1, ← same, firstFound] at secondFound
  exact Option.some.inj secondFound

end ProtoSchema.Descriptor
