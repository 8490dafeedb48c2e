import ProtoSchema.Descriptor.Declaration
import ProtoSchema.Proofs.Json.DistinctKeys
import ProtoSchema.Proofs.Outcome

/-! A document as a tree of objects. What an object declares is told by its own members and by what
the objects nested in it declare, so facts about declarations are proved for an object from those
nested in it.
-/

namespace ProtoSchema.Descriptor

open Schema
open Json (DistinctMembers)

variable {scope : String} {members entries : Entries Json} {declared : List Declaration}

-----------------------------------------------------------------------------------------
-- The tree of a document
-----------------------------------------------------------------------------------------

/-- The entries that an object lists as nested in it. -/
def nestedEntries (members : Entries Json) : Entries Json :=
  ((members.get? "nested").bind Json.members?).getD []

/-- The object declares an enumeration: it has values and no fields. -/
def IsEnumeration (members : Entries Json) : Prop :=
  "fields" ∉ members.keys ∧ "values" ∈ members.keys

/-- The object declares a message or an enumeration. -/
def IsType (members : Entries Json) : Prop :=
  "fields" ∈ members.keys ∨ "values" ∈ members.keys

/-- An object in the tree of nested entries: the indices and the keys of the entries that lead to it,
and its members.
-/
structure Site where
  position : List Nat
  path : List String
  members : Entries Json

namespace Site

/-- The site as it is seen from outside of an entry. -/
def under (site : Site) (index : Nat) (key : String) : Site where
  position := index :: site.position
  path := key :: site.path
  members := site.members

/-- The name that a site gets within a scope. -/
def name (site : Site) (scope : String) : String :=
  site.path.foldl Name.qualify scope

end Site

mutual

/-- A walk from an object meets the object itself and what is met among its nested entries. Nothing
is nested in an enumeration.
-/
inductive Meets : Entries Json → Site → Prop
  | here (members : Entries Json) : Meets members ⟨[], [], members⟩
  | nested {members : Entries Json} {site : Site} (enters : ¬ IsEnumeration members)
    (inside : MeetsAmong 0 (nestedEntries members) site)
    : Meets members site

/-- A walk through entries, the first of which has the given index, meets what is met from each. -/
inductive MeetsAmong : Nat → Entries Json → Site → Prop
  | first {index : Nat} {key : String} {members rest : Entries Json} {site : Site}
    (meets : Meets members site)
    : MeetsAmong index ((key, .object members) :: rest) (site.under index key)
  | later {index : Nat} {entry : String × Json} {rest : Entries Json} {site : Site}
    (meets : MeetsAmong (index + 1) rest site)
    : MeetsAmong index (entry :: rest) site

end

-----------------------------------------------------------------------------------------
-- Objects nested in objects
-----------------------------------------------------------------------------------------

theorem members?_eq_some {value : Json} {members : Entries Json}
    (found : value.members? = some members)
    : value = .object members := by
  cases value <;> cases found
  rfl

theorem bind_members?_eq_some_iff {key : String} {members inner : Entries Json}
    : (members.get? key).bind Json.members? = some inner
      ↔ members.get? key = some (.object inner) := by
  constructor
  · intro found
    obtain ⟨value, stored, object⟩ := Option.bind_eq_some_iff.mp found
    rw [stored, members?_eq_some object]
  · intro found
    rw [found]
    rfl

theorem nestedEntries_cons (key : String) (value : Json) (rest : Entries Json)
    : nestedEntries ((key, value) :: rest)
      = if key = "nested" then value.members?.getD [] else nestedEntries rest := by
  rw [nestedEntries, Entries.get?]
  split <;> rfl

theorem sizeOf_lt_of_get? {key : String} {value : Json} (found : members.get? key = some value)
    : sizeOf value < sizeOf members := by
  have smaller := List.sizeOf_lt_of_mem (Entries.mem_of_get?_eq_some found)
  rw [Prod.mk.sizeOf_spec] at smaller
  omega

/-- What is nested in an object is smaller than the object. -/
theorem sizeOf_lt_of_nested {key : String} {inner : Entries Json}
    (member : (key, .object inner) ∈ nestedEntries members)
    : sizeOf inner < sizeOf members := by
  unfold nestedEntries at member
  cases present : (members.get? "nested").bind Json.members? with
  | none => simp [present] at member
  | some entries =>
      rw [present, Option.getD_some] at member
      have outer := sizeOf_lt_of_get? (bind_members?_eq_some_iff.mp present)
      have smaller := List.sizeOf_lt_of_mem member
      simp only [Prod.mk.sizeOf_spec, Json.object.sizeOf_spec] at outer smaller
      omega

/-- What holds of an object whenever it holds of all objects nested in it holds of every object, by
recursion on its size.
-/
theorem object_induction {motive : Entries Json → Prop}
    (step
      : ∀ members,
          (∀ key inner, (key, .object inner) ∈ nestedEntries members → motive inner)
          → motive members)
    (members : Entries Json)
    : motive members :=
  step members fun _ inner _ => object_induction step inner
termination_by sizeOf members
decreasing_by exact sizeOf_lt_of_nested ‹_›

theorem meets_iff {site : Site}
    : Meets members site
      ↔ site = ⟨[], [], members⟩
        ∨ ¬ IsEnumeration members ∧ MeetsAmong 0 (nestedEntries members) site := by
  constructor
  · intro meets
    cases meets with
    | here => exact .inl rfl
    | nested enters inside => exact .inr ⟨enters, inside⟩
  · rintro (rfl | ⟨enters, inside⟩)
    · exact .here members
    · exact .nested enters inside

/-- What is met among entries is met from one of them, by induction on the entries. -/
theorem MeetsAmong.exists_entry {start : Nat} {site : Site} (meets : MeetsAmong start entries site)
    : ∃ index key inner below,
        (key, .object inner) ∈ entries ∧ Meets inner below ∧ site = below.under index key := by
  induction entries generalizing start with
  | nil => cases meets
  | cons entry rest ih =>
      cases meets with
      | first meets => exact ⟨start, _, _, _, List.mem_cons_self, meets, rfl⟩
      | later meets =>
          obtain ⟨index, key, inner, below, member, found⟩ := ih meets
          exact ⟨index, key, inner, below, List.mem_cons_of_mem entry member, found⟩

/-- What is met from an entry is met among the entries, by induction on these. -/
theorem MeetsAmong.of_entry {key : String} {inner : Entries Json} {below : Site}
    (member : (key, .object inner) ∈ entries) (meets : Meets inner below) (start : Nat)
    : ∃ index, MeetsAmong start entries (below.under index key) := by
  induction entries generalizing start with
  | nil => exact absurd member List.not_mem_nil
  | cons entry rest ih =>
      rcases List.mem_cons.mp member with rfl | later
      · exact ⟨start, .first meets⟩
      · obtain ⟨index, found⟩ := ih later (start + 1)
        exact ⟨index, .later found⟩

/-- All objects that are met from one have a property exactly if it has it itself and, where its nested
entries are visited, all objects that are met among these have it.
-/
theorem forall_meets_iff {Property : Entries Json → Prop}
    : (∀ site, Meets members site → Property site.members)
      ↔ Property members
        ∧ (¬ IsEnumeration members
          → ∀ site, MeetsAmong 0 (nestedEntries members) site → Property site.members) := by
  constructor
  · intro all
    exact ⟨all _ (.here members), fun enters site inside => all site (.nested enters inside)⟩
  · rintro ⟨own, below⟩ site meets
    rcases meets_iff.mp meets with rfl | ⟨enters, inside⟩
    · exact own
    · exact below enters site inside

/-- All objects that are met among entries have a property exactly if all that are met from each of
them have it.
-/
theorem forall_meetsAmong_iff {Property : Entries Json → Prop} {start : Nat}
    : (∀ site, MeetsAmong start entries site → Property site.members)
      ↔ ∀ key inner,
          (key, .object inner) ∈ entries → ∀ site, Meets inner site → Property site.members := by
  constructor
  · intro all key inner member site meets
    obtain ⟨index, found⟩ := MeetsAmong.of_entry member meets start
    exact all (site.under index key) found
  · intro all site meets
    obtain ⟨index, key, inner, below, member, found, rfl⟩ := meets.exists_entry
    exact all key inner member below found

/-- The object at this site is met on the walk through the document. -/
def MetIn (document : Json) (site : Site) : Prop :=
  ∃ members, document = .object members ∧ MeetsAmong 0 (nestedEntries members) site

theorem metIn_object {site : Site}
    : MetIn (.object members) site ↔ MeetsAmong 0 (nestedEntries members) site := by
  simp [MetIn]

-----------------------------------------------------------------------------------------
-- Declarations of objects
-----------------------------------------------------------------------------------------

/-- The member named `nested`, if there is one, is an object. -/
def NestsObject (members : Entries Json) : Prop :=
  ∀ value, members.get? "nested" = some value → ∃ entries, value = .object entries

/-- What is nested in an object is read entry by entry, by induction on its members. -/
theorem nestedDeclarations_eq_ok
    : nestedDeclarations scope members = .ok declared
      ↔ NestsObject members ∧ entryDeclarations scope (nestedEntries members) = .ok declared := by
  induction members with
  | nil => simp [nestedDeclarations, NestsObject, nestedEntries, Entries.get?, entryDeclarations]
  | cons entry rest ih =>
      obtain ⟨key, value⟩ := entry
      rw [nestedDeclarations, nestedEntries_cons]
      by_cases same : key = "nested"
      · simp only [NestsObject, Entries.get?, same, if_true, Option.some.injEq, forall_eq']
        cases value with
        | object entries =>
            simp [scopeDeclarations, Json.members?]
        | null | bool _ | integer _ | decimal _ _ _ | text _ | array _ =>
            simp [scopeDeclarations]
      · simp only [NestsObject, Entries.get?, same, if_false]
        exact ih

/-- The declarations of entries are those of each of them, by induction on the entries. -/
theorem entryDeclarations_eq_ok
    : entryDeclarations scope entries = .ok declared
      ↔ ∃ parts,
          List.Forall₂
            (fun entry part => typeDeclarations (Name.qualify scope entry.1) entry.2 = .ok part)
            entries parts
          ∧ parts.flatten = declared := by
  induction entries generalizing declared with
  | nil =>
      rw [entryDeclarations]
      simp
  | cons entry rest ih =>
      rw [entryDeclarations, Outcome.bind_eq_ok]
      simp only [Outcome.bind_eq_ok, ih, List.forall₂_cons_left_iff]
      constructor
      · rintro ⟨first, read, _, ⟨parts, others, rfl⟩, same⟩
        cases same
        exact ⟨first :: parts, ⟨first, parts, read, others, rfl⟩, rfl⟩
      · rintro ⟨_, ⟨first, parts, read, others, rfl⟩, rfl⟩
        exact ⟨first, read, _, ⟨parts, others, rfl⟩, rfl⟩

/-- How an object is read under a name: as a message with what is nested in it, as an enumeration, or
only as what is nested in it.
-/
inductive ReadAs (name : String) (members : Entries Json) : List Declaration → Prop
  | message {content : MessageDeclaration} {nested : List Declaration}
    (present : "fields" ∈ members.keys) (read : messageOf name members = .ok content)
    (inside : nestedDeclarations name members = .ok nested)
    : ReadAs name members (.message content :: nested)
  | enumeration {content : Enumeration} (present : IsEnumeration members)
    (read : enumerationOf name members = .ok content)
    : ReadAs name members [.enumeration content]
  | scope {nested : List Declaration} (untyped : ¬ IsType members)
    (inside : nestedDeclarations name members = .ok nested)
    : ReadAs name members nested

theorem typeDeclarations_eq_ok {name : String}
    : typeDeclarations name (.object members) = .ok declared ↔ ReadAs name members declared := by
  rw [typeDeclarations]
  simp only [Entries.get?_isSome_iff]
  by_cases fielded : "fields" ∈ members.keys
  · simp only [fielded, if_true, Outcome.bind_eq_ok]
    constructor
    · rintro ⟨content, read, nested, inside, same⟩
      cases same
      exact .message fielded read inside
    · intro reads
      cases reads with
      | message _ read inside => exact ⟨_, read, _, inside, rfl⟩
      | enumeration present _ => exact absurd fielded present.1
      | scope untyped _ => exact absurd (.inl fielded) untyped
  · by_cases valued : "values" ∈ members.keys
    · simp only [fielded, valued, if_false, if_true, Outcome.bind_eq_ok]
      constructor
      · rintro ⟨content, read, same⟩
        cases same
        exact .enumeration ⟨fielded, valued⟩ read
      · intro reads
        cases reads with
        | message present _ _ => exact absurd present fielded
        | enumeration _ read => exact ⟨_, read, rfl⟩
        | scope untyped _ => exact absurd (.inr valued) untyped
    · simp only [fielded, valued, if_false]
      constructor
      · exact fun inside => .scope (not_or.mpr ⟨fielded, valued⟩) inside
      · intro reads
        cases reads with
        | message present _ _ => exact absurd present fielded
        | enumeration present _ => exact absurd present.2 valued
        | scope _ inside => exact inside

theorem object_of_typeDeclarations {name : String} {value : Json}
    (success : typeDeclarations name value = .ok declared)
    : ∃ members, value = .object members := by
  cases value with
  | object members => exact ⟨members, rfl⟩
  | null | bool _ | integer _ | decimal _ _ _ | text _ | array _ => cases success

-----------------------------------------------------------------------------------------
-- Sites and their declarations
-----------------------------------------------------------------------------------------

/-- The declaration that an object itself makes under a name, apart from what is nested in it. -/
inductive Reads (name : String) (members : Entries Json) : Declaration → Prop
  | message {content : MessageDeclaration} (present : "fields" ∈ members.keys)
    (read : messageOf name members = .ok content)
    : Reads name members (.message content)
  | enumeration {content : Enumeration} (present : IsEnumeration members)
    (read : enumerationOf name members = .ok content)
    : Reads name members (.enumeration content)

/-- An object that declares something declares a type. -/
theorem Reads.isType {name : String} {declaration : Declaration}
    (reads : Reads name members declaration)
    : IsType members := by
  cases reads with
  | message present _ => exact .inl present
  | enumeration present _ => exact .inr present.2

/-- What is read from an object is what it declares itself and what is declared by the objects that
are met among its nested entries, given that this holds of what is nested in it.
-/
theorem ReadAs.mem_iff {name : String} (reads : ReadAs name members declared)
    (nested
      : ∀ {declared},
          nestedDeclarations name members = .ok declared
          → ∀ declaration,
              declaration ∈ declared
              ↔ ∃ site,
                  MeetsAmong 0 (nestedEntries members) site
                  ∧ Reads (site.name name) site.members declaration)
    (declaration : Declaration)
    : declaration ∈ declared
      ↔ ∃ site, Meets members site ∧ Reads (site.name name) site.members declaration := by
  have split
      : (∃ site, Meets members site ∧ Reads (site.name name) site.members declaration)
        ↔ Reads name members declaration
          ∨ ¬ IsEnumeration members
            ∧ ∃ site,
                MeetsAmong 0 (nestedEntries members) site
                ∧ Reads (site.name name) site.members declaration := by
    simp only [meets_iff, or_and_right, exists_or, exists_eq_left, and_assoc, exists_and_left]
    rfl
  rw [split]
  cases reads with
  | @message content _ present read inside =>
      have plain : ¬ IsEnumeration members := fun enumeration => enumeration.1 present
      rw [List.mem_cons, nested inside, and_iff_right plain]
      refine or_congr_left ⟨?_, fun reads => ?_⟩
      · rintro rfl
        exact .message present read
      · cases reads with
        | message _ again =>
            cases read.symm.trans again
            rfl
        | enumeration enumeration _ => exact absurd enumeration plain
  | @enumeration content present read =>
      rw [List.mem_singleton, or_iff_left fun deeper => deeper.1 present]
      refine ⟨?_, fun reads => ?_⟩
      · rintro rfl
        exact .enumeration present read
      · cases reads with
        | message fielded _ => exact absurd fielded present.1
        | enumeration _ again =>
            cases read.symm.trans again
            rfl
  | scope untyped inside =>
      have plain : ¬ IsEnumeration members := fun enumeration => untyped (.inr enumeration.2)
      rw [nested inside, and_iff_right plain, or_iff_right fun reads => untyped reads.isType]

/-- The declarations of an object are those of the objects that are met among its nested entries,
under their qualified names; by induction on the object.
-/
theorem mem_nestedDeclarations_iff (success : nestedDeclarations scope members = .ok declared)
    (declaration : Declaration)
    : declaration ∈ declared
      ↔ ∃ site,
          MeetsAmong 0 (nestedEntries members) site
          ∧ Reads (site.name scope) site.members declaration := by
  induction members using object_induction generalizing scope declared declaration with
  | step members ih =>
  obtain ⟨_, found⟩ := nestedDeclarations_eq_ok.mp success
  obtain ⟨parts, each, rfl⟩ := entryDeclarations_eq_ok.mp found
  rw [List.mem_flatten]
  constructor
  · rintro ⟨part, present, inside⟩
    obtain ⟨⟨key, value⟩, member, read⟩ := related_of_mem each present
    obtain ⟨inner, rfl⟩ := object_of_typeDeclarations read
    obtain ⟨below, meets, reads⟩ :=
      ((typeDeclarations_eq_ok.mp read).mem_iff (ih key inner member) declaration).mp inside
    obtain ⟨index, met⟩ := MeetsAmong.of_entry member meets 0
    exact ⟨below.under index key, met, reads⟩
  · rintro ⟨site, met, reads⟩
    obtain ⟨index, key, inner, below, member, meets, rfl⟩ := met.exists_entry
    obtain ⟨part, present, read⟩ := related_to_mem each member
    exact ⟨part, present,
      ((typeDeclarations_eq_ok.mp read).mem_iff (ih key inner member) declaration).mpr
        ⟨below, meets, reads⟩⟩

/-- The declarations of a document are those of the objects that are met in it. -/
theorem mem_declarations_iff {document : Json} (success : declarations document = .ok declared)
    (declaration : Declaration)
    : declaration ∈ declared
      ↔ ∃ site, MetIn document site ∧ Reads (site.name "") site.members declaration := by
  unfold declarations at success
  split at success
  · simp only [metIn_object]
    exact mem_nestedDeclarations_iff success declaration
  · cases success

/-- An object that is nested in one without a key twice has none either. -/
theorem distinctMembers_of_nested (distinct : DistinctMembers members) {key : String}
    {inner : Entries Json} (member : (key, .object inner) ∈ nestedEntries members)
    : DistinctMembers inner := by
  have entries : DistinctMembers (nestedEntries members) := by
    unfold nestedEntries
    cases found : (members.get? "nested").bind Json.members? with
    | none => exact Json.distinctMembers_nil
    | some entries => exact (distinct.get (bind_members?_eq_some_iff.mp found)).members rfl
  exact (entries.each _ member).members rfl

/-- Nor has an object that is met in such an object, by induction on the latter. -/
theorem distinctMembers_of_meetsAmong (distinct : DistinctMembers members) {site : Site}
    (met : MeetsAmong 0 (nestedEntries members) site)
    : DistinctMembers site.members := by
  induction members using object_induction generalizing site with
  | step members ih =>
  obtain ⟨index, key, inner, below, member, meets, rfl⟩ := met.exists_entry
  have within := distinctMembers_of_nested distinct member
  rcases meets_iff.mp meets with rfl | ⟨_, deeper⟩
  · exact within
  · have nested : DistinctMembers below.members := ih key inner member within deeper
    exact nested

theorem distinctMembers_of_metIn {document : Json} (distinct : document.DistinctKeys) {site : Site}
    (met : MetIn document site)
    : DistinctMembers site.members := by
  obtain ⟨members, rfl, inside⟩ := met
  exact distinctMembers_of_meetsAmong (distinct.members rfl) inside

end ProtoSchema.Descriptor
