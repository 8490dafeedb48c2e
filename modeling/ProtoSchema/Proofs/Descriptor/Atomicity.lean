import ProtoSchema.Proofs.Descriptor.Loading

/-! What a failed load leaves behind. The check of names before the first insertion looks a name up
without its leading dots, while a type is inserted under its name as it is written; so a name with
leading dots that is taken passes the check, and the types before it stay in the catalog.
-/

namespace ProtoSchema.Descriptor

open Schema

variable {catalog : Catalog} {text : String}

/-- The types of the text pass the check of names and the first of them is new, but a later one has
a name that is taken.
-/
def Leaks (catalog : Catalog) (text : String) : Prop :=
  ∃ document first rest,
    Json.parse text.toUTF8.toList = .ok document
    ∧ nodesOf catalog document = .ok (first :: rest)
    ∧ first.name ∉ catalog.names
    ∧ ∃ duplicate ∈ rest, duplicate.name ∈ catalog.names

/-- A taken name that passes the check starts with a dot. -/
theorem Checked.dotted {nodes : List Node} (checked : Checked catalog nodes) {node : Node}
    (member : node ∈ nodes) (taken : node.name ∈ catalog.names)
    : node.name.toList.head? = some '.' := by
  by_contra plain
  refine checked.unknown node member ?_
  rw [Name.dropLeadingDots_of_head? plain]
  exact taken

theorem Leaks.dotted (leaks : Leaks catalog text)
    : ∃ name ∈ catalog.names, name.toList.head? = some '.' := by
  obtain ⟨_, _, _, _, found, _, duplicate, member, taken⟩ := leaks
  obtain ⟨_, _, _, checked⟩ := nodesOf_eq_ok found
  exact ⟨duplicate.name, taken, checked.dotted (List.mem_cons_of_mem _ member) taken⟩

/-- A load that fails leaves the catalog as it was unless it leaks, by cases on how far it came. -/
theorem Loads.unchanged_iff {report : Report} {after : Catalog}
    (loads : Loads catalog text (.error report, after))
    : after = catalog ↔ ¬ Leaks catalog text := by
  cases loads with
  | rejected _ invalid =>
      refine iff_of_true rfl ?_
      rintro ⟨document, first, rest, parsed, found, _⟩
      exact invalid document _ parsed found
  | @stopped document kept rest duplicate _ _ parsed found free taken adds =>
      cases kept with
      | nil =>
          refine iff_of_true adds.eq ?_
          rintro ⟨other, first, _, otherParsed, otherFound, new, _⟩
          cases parsed.symm.trans otherParsed
          cases found.symm.trans otherFound
          exact new taken
      | cons first kept =>
          have new := free first List.mem_cons_self
          refine iff_of_false (fun same => ?_) (not_not_intro ?_)
          · -- The first type is in the catalog now.
            have names := adds.names
            rw [same, List.map_cons] at names
            exact new (names ▸ List.mem_append_right _ List.mem_cons_self)
          · exact ⟨document, first, kept ++ duplicate :: rest, parsed, found, new, duplicate,
              List.mem_append_right _ List.mem_cons_self, taken⟩

/-- A load that fails leaves the catalog as it was, types and order, exactly if it does not leak; it
never leaks into a catalog without names that start with a dot.
-/
theorem failed_load_unchanged_iff {sourceName : String} {report : Report}
    (failed : (loadText catalog sourceName text).1 = .error report)
    : ((loadText catalog sourceName text).2 = catalog ↔ ¬ Leaks catalog text)
      ∧ ((∀ name ∈ catalog.names, name.toList.head? ≠ some '.')
          → (loadText catalog sourceName text).2 = catalog) := by
  have outcome : loadText catalog sourceName text
      = (.error report, (loadText catalog sourceName text).2) := Prod.ext failed rfl
  have loads := loadText_loads catalog sourceName text
  rw [outcome] at loads
  refine ⟨loads.unchanged_iff, fun plain => loads.unchanged_iff.mpr fun leaks => ?_⟩
  obtain ⟨name, member, dotted⟩ := leaks.dotted
  exact plain name member dotted

-----------------------------------------------------------------------------------------
-- A name that is taken, without and with a leading dot
-----------------------------------------------------------------------------------------

/-- A document with one message. -/
def plainText : String :=
  "\x7b\"nested\":\x7b\"A\":\x7b\"fields\":\x7b\x7d\x7d\x7d\x7d"

/-- A document with that message after one of another name. -/
def clashingText : String :=
  "\x7b\"nested\":\x7b\"B\":\x7b\"fields\":\x7b\x7d\x7d,\"A\":\x7b\"fields\":\x7b\x7d\x7d\x7d\x7d"

/-- Loading the second document after the first fails and leaves the catalog as it was. -/
theorem clashing_load_unchanged
    : (∃ report, (loadText (loadText {} "a.json" plainText).2 "b.json" clashingText).1
          = .error report)
      ∧ (loadText (loadText {} "a.json" plainText).2 "b.json" clashingText).2
        = (loadText {} "a.json" plainText).2 := by
  have failed
      : (loadText (loadText {} "a.json" plainText).2 "b.json" clashingText).1
        = .error (.ofConversion ["load descriptor b.json"] (.malformed (.duplicateName "A"))) := by
    decide +kernel
  refine ⟨⟨_, failed⟩, (failed_load_unchanged_iff failed).2 ?_⟩
  decide +kernel

/-- A document with one message, whose name starts with a dot. -/
def dottedText : String :=
  "\x7b\"nested\":\x7b\".A\":\x7b\"fields\":\x7b\x7d\x7d\x7d\x7d"

/-- A document with that message after one of another name. -/
def leakingText : String :=
  "\x7b\"nested\":\x7b\"B\":\x7b\"fields\":\x7b\x7d\x7d,\".A\":\x7b\"fields\":\x7b\x7d\x7d\x7d\x7d"

/-- The catalog of the first document. -/
def dottedCatalog : Catalog :=
  (loadText {} "a.json" dottedText).2

/-- Loading the second document after the first fails and leaves its new message in the catalog. -/
theorem failed_load_leaks
    : Loaded dottedCatalog
      ∧ (∃ report, (loadText dottedCatalog "b.json" leakingText).1 = .error report)
      ∧ (loadText dottedCatalog "b.json" leakingText).2 ≠ dottedCatalog := by
  have failed
      : (loadText dottedCatalog "b.json" leakingText).1
        = .error (.ofConversion ["load descriptor b.json"]
            (.malformed (.duplicateName ".A"))) := by decide +kernel
  have before : dottedCatalog.names = [".A"] := by decide +kernel
  have after : (loadText dottedCatalog "b.json" leakingText).2.names = [".A", "B"] := by
    decide +kernel
  refine ⟨.load .empty "a.json" dottedText, ⟨_, failed⟩, fun same => ?_⟩
  rw [same, before] at after
  cases after

end ProtoSchema.Descriptor
