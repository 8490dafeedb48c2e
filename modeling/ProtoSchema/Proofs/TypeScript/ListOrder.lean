import ProtoSchema.Proofs.TypeScript.Success

/-! The order of the listed types. Where references are to the names of listed types or to keys of
the catalog, they denote the same for every list of the same types; so such lists give the same
declarations and the same warnings.
-/

namespace ProtoSchema.TypeScript

open Schema
open Execution

variable {style : CommentStyle} {int64 : Integer64} {scope rival : Scope}
  {progress last : Progress}

/-- The scopes have one catalog and list the same types, in any order and any number. -/
structure SameTypes (scope rival : Scope) : Prop where
  catalog : rival.catalog = scope.catalog
  listed : ∀ node, node ∈ rival.listed ↔ node ∈ scope.listed

/-- The reference is to the name of a listed type or to a key of the catalog. -/
def Direct (scope : Scope) : FieldType → Prop
  | .scalar _ => True
  | .named reference =>
      (∃ node ∈ scope.listed, node.name = Name.dropLeadingDots reference)
      ∨ Name.dropLeadingDots reference ∈ scope.catalog.names

instance (scope : Scope) : (type : FieldType) → Decidable (Direct scope type)
  | .scalar _ => .isTrue trivial
  | .named _ => inferInstanceAs (Decidable (_ ∨ _))

/-- All references in listed messages are direct. -/
def DirectReferences (scope : Scope) : Prop :=
  ∀ message, .message message ∈ scope.listed → ∀ field ∈ message.fields, Direct scope field.type

theorem SameTypes.symm (same : SameTypes scope rival) : SameTypes rival scope :=
  ⟨same.catalog.symm, fun node => (same.listed node).symm⟩

theorem SameTypes.once (same : SameTypes scope rival) (once : ListedOnce scope)
    : ListedOnce rival :=
  fun first member second other =>
    once first ((same.listed first).mp member) second ((same.listed second).mp other)

theorem SameTypes.apart (same : SameTypes scope rival) (apart : EntriesApart scope)
    : EntriesApart rival where
  entries := fun first second =>
    apart.entries ((same.listed _).mp first) ((same.listed _).mp second)
  unlisted := fun owner member keyed node listed =>
    apart.unlisted ((same.listed _).mp owner) member keyed node ((same.listed _).mp listed)

theorem SameTypes.direct (same : SameTypes scope rival) {type : FieldType}
    (direct : Direct scope type)
    : Direct rival type := by
  cases type with
  | scalar kind => trivial
  | named reference =>
      rcases direct with ⟨node, member, named⟩ | known
      · exact .inl ⟨node, (same.listed node).mpr member, named⟩
      · exact .inr (same.catalog ▸ known)

theorem SameTypes.directReferences (same : SameTypes scope rival) (direct : DirectReferences scope)
    : DirectReferences rival :=
  fun message owner field member =>
    same.direct (direct message ((same.listed _).mp owner) field member)

theorem SameTypes.source (same : SameTypes scope rival) {node : Node} (source : Source scope node)
    : Source rival node := by
  cases source with
  | listed member => exact .listed ((same.listed node).mpr member)
  | entry owner shown keyed => exact .entry ((same.listed _).mpr owner) shown keyed

-----------------------------------------------------------------------------------------
-- What direct references denote
-----------------------------------------------------------------------------------------

/-- Whether a type is listed does not depend on the order of the list. -/
theorem SameTypes.isListed_eq (same : SameTypes scope rival) (name : String)
    : isListed rival name = isListed scope name := by
  rw [Bool.eq_iff_iff]
  simp only [isListed, List.any_eq_true, same.listed]

/-- The first listed type of a name is any listed type of that name. -/
theorem find?_listed_of_mem (once : ListedOnce scope) {node : Node} (member : node ∈ scope.listed)
    : (scope.listed.find? fun listed => listed.name = node.name) = some node :=
  find?_eq_some_of_unique (fun other listed named => once other listed node member named) member

theorem find?_of_listed (once : ListedOnce scope) {reference : String} {node : Node}
    (member : node ∈ scope.listed) (named : node.name = Name.dropLeadingDots reference)
    : scope.find? reference = some node := by
  have listed := find?_listed_of_mem once member
  rw [named] at listed
  rw [Scope.find?, listed]
  rfl

/-- Where no listed type has the name, a key of the catalog denotes what stands under it. -/
theorem find?_of_unlisted {reference : String}
    (unlisted : ¬ ∃ node ∈ scope.listed, node.name = Name.dropLeadingDots reference)
    (known : Name.dropLeadingDots reference ∈ scope.catalog.names)
    : scope.find? reference = scope.catalog.lookup reference
      ∧ ∃ node, scope.catalog.lookup reference = some node := by
  have absent : (scope.listed.find? fun node => node.name = Name.dropLeadingDots reference)
      = none := by
    rw [List.find?_eq_none]
    intro node member named
    exact unlisted ⟨node, member, of_decide_eq_true named⟩
  obtain ⟨node, found⟩ := OrderedMap.mem_keys_iff.mp known
  have stored : scope.catalog.lookup reference = some node := found
  have again : scope.catalog.lookup (Name.dropLeadingDots reference) = some node := by
    rw [Catalog.lookup, Name.dropLeadingDots_dropLeadingDots]
    exact found
  refine ⟨?_, node, stored⟩
  rw [Scope.find?, absent, again, stored]
  rfl

theorem finds_of_direct (once : ListedOnce scope) {type : FieldType} (direct : Direct scope type)
    : Finds scope type := by
  cases type with
  | scalar kind => trivial
  | named reference =>
      by_cases listed : ∃ node ∈ scope.listed, node.name = Name.dropLeadingDots reference
      · obtain ⟨node, member, named⟩ := listed
        exact ⟨node, find?_of_listed once member named⟩
      · obtain ⟨same, node, found⟩ := find?_of_unlisted listed (direct.resolve_left listed)
        exact ⟨node, same.trans found⟩

/-- A direct reference denotes the same for every list of the same types. -/
theorem SameTypes.find?_eq (same : SameTypes scope rival) (once : ListedOnce scope)
    {reference : String} (direct : Direct scope (.named reference))
    : rival.find? reference = scope.find? reference := by
  by_cases listed : ∃ node ∈ scope.listed, node.name = Name.dropLeadingDots reference
  · obtain ⟨node, member, named⟩ := listed
    rw [find?_of_listed once member named,
      find?_of_listed (same.once once) ((same.listed node).mpr member) named]
  · have unlisted : ¬ ∃ node ∈ rival.listed, node.name = Name.dropLeadingDots reference := by
      rintro ⟨node, member, named⟩
      exact listed ⟨node, (same.listed node).mp member, named⟩
    have known := direct.resolve_left listed
    rw [(find?_of_unlisted listed known).1,
      (find?_of_unlisted unlisted (same.catalog ▸ known)).1, same.catalog]

-----------------------------------------------------------------------------------------
-- Texts and warnings
-----------------------------------------------------------------------------------------

/-- All references in the type are direct. -/
def DirectNode (scope : Scope) : Node → Prop
  | .enumeration _ => True
  | .message content => ∀ field ∈ content.fields, Direct scope field.type

theorem Source.direct {node : Node} (source : Source scope node)
    (direct : DirectReferences scope)
    : DirectNode scope node := by
  cases source with
  | listed member =>
      cases node with
      | enumeration content => trivial
      | message content => exact direct content member
  | @entry message field key owner shown keyed =>
      intro inner inside
      have value : Direct scope field.type :=
        direct message owner field (mem_of_mem_shownFields shown)
      rcases MapEntry.mem_fields.mp inside with rfl | rfl
      · trivial
      · exact value

section

variable (same : SameTypes scope rival) (once : ListedOnce scope)

include same once

theorem baseText_eq {type : FieldType} (direct : Direct scope type)
    : baseText int64 rival type = baseText int64 scope type := by
  cases type with
  | scalar kind => rfl
  | named reference => rw [baseText, baseText, same.find?_eq once direct]

theorem undeclared?_eq {type : FieldType} (direct : Direct scope type)
    : undeclared? rival type = undeclared? scope type := by
  cases type with
  | scalar kind => rfl
  | named reference => simp only [undeclared?, same.find?_eq once direct, same.isListed_eq]

theorem fieldText_eq {message : Message} {field : Field} (direct : Direct scope field.type)
    : fieldText int64 rival message field = fieldText int64 scope message field := by
  unfold fieldText
  split
  · rfl
  · rw [baseText_eq same once direct]

/-- A type with direct references has the same declaration for both scopes, property by property.
-/
theorem nodeText_eq {node : Node} (direct : DirectNode scope node)
    : nodeText style int64 rival node = nodeText style int64 scope node := by
  cases node with
  | enumeration content => rfl
  | message content =>
      have slots (slot : Message.Slot) (member : slot ∈ content.slots)
          : slotText style int64 rival content slot = slotText style int64 scope content slot := by
        have fields (field : Field) (inside : field ∈ slotFields content slot)
            : fieldText int64 rival content field = fieldText int64 scope content field := by
          have shown : field ∈ shownFields content := List.mem_flatMap.mpr ⟨slot, member, inside⟩
          exact fieldText_eq same once (direct field (mem_of_mem_shownFields shown))
        cases slot with
        | single field => rw [slotText, slotText, fields field (List.mem_singleton_self field)]
        | group group =>
            rw [slotFields] at fields
            rw [slotText, slotText, List.map_congr_left fields]
      rw [nodeText, nodeText, messageText, messageText, List.map_congr_left slots]

theorem dangles_of_direct {node : Node} {name : String} (direct : DirectNode scope node)
    (dangles : Dangles scope node name)
    : Dangles rival node name := by
  cases dangles with
  | field shown keyless undeclared =>
      rw [← undeclared?_eq same once (direct _ (mem_of_mem_shownFields shown))] at undeclared
      exact .field shown keyless undeclared

end

-----------------------------------------------------------------------------------------
-- Runs on lists of the same types
-----------------------------------------------------------------------------------------

/-- What one run declares, the run on another list of the same types declares alike. -/
theorem Progress.Finished.agrees (finished : progress.Finished style int64 scope)
    (other : last.Finished style int64 rival) (same : SameTypes scope rival)
    (apart : EntriesApart scope) (once : ListedOnce scope) (direct : DirectReferences scope)
    {name text : String} (found : progress.registry.get? name = some text)
    : last.registry.get? name = some text := by
  obtain ⟨node, source, rfl, rfl, -, -⟩ := finished.sound.declared found
  rw [← nodeText_eq same once (source.direct direct)]
  exact (other.declares (same.apart apart) (same.once once) (same.source source)).1

/-- What one run warns about, the run on another list of the same types warns about as well. -/
theorem Progress.Finished.warns (finished : progress.Finished style int64 scope)
    (other : last.Finished style int64 rival) (same : SameTypes scope rival)
    (apart : EntriesApart scope) (once : ListedOnce scope) (direct : DirectReferences scope)
    {name : String} (warned : name ∈ progress.warned)
    : name ∈ last.warned := by
  obtain ⟨node, source, dangles⟩ := finished.sound.warned warned
  obtain ⟨-, -, covers⟩ :=
    other.declares (same.apart apart) (same.once once) (same.source source)
  exact covers.warned name (dangles_of_direct same once (source.direct direct) dangles)

/-- A type that can be declared can be declared for both lists if its references are direct. -/
theorem Writable.relisted {node : Node} (writable : Writable scope node)
    (member : node ∈ scope.listed) (same : SameTypes scope rival) (once : ListedOnce scope)
    (direct : DirectReferences scope)
    : Writable rival node := by
  cases writable with
  | enumeration content => exact .enumeration content
  | @message content groups _ =>
      refine .message groups fun field shown => finds_of_direct (same.once once) ?_
      exact same.direct (direct content member field (mem_of_mem_shownFields shown))

/-- If a run succeeds, so does the run on any list of the same types. -/
theorem Progress.Finished.relisted (finished : progress.Finished style int64 scope)
    (same : SameTypes scope rival) (apart : EntriesApart scope) (once : ListedOnce scope)
    (direct : DirectReferences scope)
    : ∃ last, exec (build style int64 rival) {} = (.ok ⟨⟩, last) := by
  refine build_succeeds (same.apart apart) fun node member => ?_
  have listed := (same.listed node).mp member
  exact (finished.writable apart once listed).relisted listed same once direct

/-- Types are declared in the order of the list, each after the entries of its maps, and nothing
else is; building once more changes nothing. Where entries keep apart, references are direct and
listed types of one name are the same, every permutation of the list is built as well, with the
same declarations and with warnings about the same types.
-/
theorem build_declares_in_order (built : exec (build style int64 scope) {} = (.ok ⟨⟩, progress))
    : progress.registry.keys = declarationOrder scope.listed
      ∧ progress.registry.keys.Nodup
      ∧ exec (build style int64 scope) progress = (.ok ⟨⟩, progress)
      ∧ (EntriesApart scope
          → DirectReferences scope
          → ListedOnce scope
          → ∀ other : List Node,
              other.Perm scope.listed
              → ∃ last,
                  exec (build style int64 { scope with listed := other }) {} = (.ok ⟨⟩, last)
                  ∧ (∀ name, last.registry.get? name = progress.registry.get? name)
                  ∧ ∀ name, name ∈ last.warned ↔ name ∈ progress.warned) := by
  refine ⟨?order, progress.registry.nodup, exec_build_again built, ?permuted⟩
  case order =>
    obtain ⟨_, rfl⟩ := exec_build_ok.mp built
    exact Progress.keys_foldl_addNode scope.listed {}
  case permuted =>
    intro apart direct once other permuted
    have finished := build_finished built
    have same : SameTypes scope { scope with listed := other } :=
      ⟨rfl, fun node => permuted.mem_iff⟩
    obtain ⟨last, run⟩ := finished.relisted same apart once direct
    have rebuilt := build_finished run
    have otherApart := same.apart apart
    have otherOnce := same.once once
    have otherDirect := same.directReferences direct
    refine ⟨last, run, fun name => Option.ext fun text => ?_, fun name => ?_⟩
    · exact ⟨rebuilt.agrees finished same.symm otherApart otherOnce otherDirect,
        finished.agrees rebuilt same apart once direct⟩
    · exact ⟨rebuilt.warns finished same.symm otherApart otherOnce otherDirect,
        finished.warns rebuilt same apart once direct⟩

-----------------------------------------------------------------------------------------
-- A list of types in two orders
-----------------------------------------------------------------------------------------

/-- A message with a map, a group and a type that is not listed. -/
def order : Message where
  name := "shop.Order"
  fields := [
    { name := "total", type := .named ".shop.Money", required := false },
    { name := "card", type := .scalar .string, oneof := some "payment", required := false },
    { name := "labels", type := .scalar .int32, mapKey := some .string },
    { name := "status", type := .named "shop.Status", oneof := some "payment", required := false }]
  oneofs := [{ name := "payment", members := ["card", "status"] }]

/-- A message that refers to the other one and has an equal map. -/
def cart : Message where
  name := "shop.Cart"
  fields := [
    { name := "order", type := .named "shop.Order", required := false },
    { name := "labels", type := .scalar .int32, mapKey := some .string }]

def status : Enumeration where
  name := "shop.Status"

/-- The two messages and the enumeration, with one more type in the catalog. -/
def shop : Scope where
  catalog := { types := .ofEntries [("shop.Money", .message { name := "shop.Money" })] }
  listed := [.message cart, .message order, .enumeration status]

theorem message_shop {message : Message} (member : .message message ∈ shop.listed)
    : message = cart ∨ message = order := by
  simpa [shop] using member

theorem map_shop {message : Message} {field : Field} {key : Scalar}
    (owner : .message message ∈ shop.listed) (member : field ∈ message.fields)
    (keyed : field.mapKey = some key)
    : MapEntry.message message field key
      = MapEntry.message cart { name := "labels", type := .scalar .int32, mapKey := some .string }
          .string := by
  have all : ∀ message ∈ [cart, order], ∀ field ∈ message.fields,
      field.mapKey = none
      ∨ field = { name := "labels", type := .scalar .int32, mapKey := some .string } := by decide
  rcases message_shop owner with rfl | rfl
  · rcases all cart (by simp) field member with keyless | rfl
    · cases keyless.symm.trans keyed
    · cases keyed
      rfl
  · rcases all order (by simp) field member with keyless | rfl
    · cases keyless.symm.trans keyed
    · cases keyed
      decide +kernel

theorem shop_entriesApart : EntriesApart shop where
  entries := fun first second left right leftKeyed rightKeyed _ =>
    (map_shop first left leftKeyed).trans (map_shop second right rightKeyed).symm
  unlisted := by
    intro message field key owner member keyed node listed
    rw [← MapEntry.name_message, map_shop owner member keyed]
    revert node
    decide +kernel

theorem shop_directReferences : DirectReferences shop := by
  intro message owner field member
  have all : ∀ message ∈ [cart, order], ∀ field ∈ message.fields, Direct shop field.type := by
    decide +kernel
  rcases message_shop owner with rfl | rfl
  · exact all cart (by simp) field member
  · exact all order (by simp) field member

/-- Listed in another order, the types have the same declarations after one another. -/
theorem shop_declares_in_order
    : ∃ progress last,
        exec (build jsDoc .text shop) {} = (.ok ⟨⟩, progress)
        ∧ progress.registry.keys
          = ["shop.LabelsEntry_string_int32", "shop.Cart", "shop.Order", "shop.Status"]
        ∧ exec (build jsDoc .text
              { shop with
                listed := [.enumeration status, .message order, .message cart] }) {}
          = (.ok ⟨⟩, last)
        ∧ ∀ name, last.registry.get? name = progress.registry.get? name := by
  have succeeds : (exec (build jsDoc .text shop) {}).1 = .ok ⟨⟩ := by decide +kernel
  have once : ListedOnce shop := by
    unfold ListedOnce
    decide +kernel
  have permuted : [.enumeration status, .message order, .message cart].Perm shop.listed := by
    decide +kernel
  have built : exec (build jsDoc .text shop) {} = (.ok ⟨⟩, (exec (build jsDoc .text shop) {}).2) :=
    Prod.ext succeeds rfl
  obtain ⟨keys, -, -, orders⟩ := build_declares_in_order built
  obtain ⟨last, run, same, -⟩ :=
    orders shop_entriesApart shop_directReferences once _ permuted
  have order : declarationOrder shop.listed
      = ["shop.LabelsEntry_string_int32", "shop.Cart", "shop.Order", "shop.Status"] := by
    decide +kernel
  exact ⟨_, last, built, keys.trans order, run, same⟩

end ProtoSchema.TypeScript
