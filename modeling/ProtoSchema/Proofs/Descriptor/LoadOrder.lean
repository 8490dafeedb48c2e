import ProtoSchema.Proofs.Descriptor.Loading

/-! The order in which texts are loaded. References may be to types that were loaded before, so a
text that is loaded after another one is read with more types known. This matters for the fields
whose references are to types of the other text: such a reference may be moved to another scope,
and only then is it known whether it is to an enumeration.
-/

namespace ProtoSchema.Descriptor

open Schema

variable {declared : List Declaration} {before after : Catalog} {nodes : List Node}

/-- Types that stand under names still stand under them. -/
def Extends (before after : Catalog) : Prop :=
  ∀ name node, before.types.get? name = some node → after.types.get? name = some node

/-- The field that a declaration in a message gives, unless it is a repeated map. -/
def readField (declared : List Declaration) (catalog : Catalog) (message : String)
    (field : FieldDeclaration)
    : Field where
  name := field.name
  type := resolveType declared catalog message field.typeName
  repeated := field.rule = .repeated
  required :=
    field.rule = .required
      || !hasPresence declared catalog field (resolveType declared catalog message field.typeName)
  oneof := field.oneof
  mapKey := field.mapKey
  comment := field.comment

/-- The type that a declaration gives if none of its fields is a repeated map. -/
def read (declared : List Declaration) (catalog : Catalog) : Declaration → Node
  | .enumeration content => .enumeration content
  | .message content =>
      .message
        { name := content.name,
          fields := content.fields.map (readField declared catalog content.name),
          oneofs := content.oneofs,
          comment := content.comment }

/-- A reference in a field denotes a type that is known only after another text was loaded, and this
matters: without that text it stands for another name, or the type is an enumeration and nothing
else decides whether the field tracks presence.
-/
def LateReference (declared : List Declaration) (before after : Catalog) (message : String)
    (field : FieldDeclaration) (reference : String)
    : Prop :=
  let name := resolveReference declared after message reference
  kind? declared before name = none
    ∧ kind? declared after name ≠ none
    ∧ (resolveReference declared before message reference ≠ name
      ∨ kind? declared after name = some .enumeration
        ∧ field.rule = .unspecified
        ∧ field.mapKey = none
        ∧ field.tracksPresence = false
        ∧ field.oneof = none)

/-- The type of a field is a late reference. -/
def Late (declared : List Declaration) (before after : Catalog) (message : String)
    (field : FieldDeclaration)
    : Prop :=
  match FieldType.ofName field.typeName with
  | .scalar _ => False
  | .named reference => LateReference declared before after message field reference

/-- No field of the declared messages has a late reference. -/
def NothingLate (declared : List Declaration) (before after : Catalog) : Prop :=
  ∀ content,
    .message content ∈ declared
    → ∀ field ∈ content.fields, ¬ Late declared before after content.name field

instance (declared : List Declaration) (before after : Catalog) (message : String)
    (field : FieldDeclaration) (reference : String)
    : Decidable (LateReference declared before after message field reference) :=
  inferInstanceAs (Decidable (_ ∧ _ ∧ (_ ∨ _)))

instance (declared : List Declaration) (before after : Catalog) (message : String)
    (field : FieldDeclaration)
    : Decidable (Late declared before after message field) :=
  match named : FieldType.ofName field.typeName with
  | .scalar _ => .isFalse (by simp [Late, named])
  | .named reference =>
      decidable_of_iff (LateReference declared before after message field reference)
        (by simp only [Late, named])

/-- Loads a text that must load. -/
def loadInto (catalog : Catalog) (source : String × String) : Except Report Catalog :=
  match loadText catalog source.1 source.2 with
  | (.ok (), loaded) => .ok loaded
  | (.error report, _) => .error report

-----------------------------------------------------------------------------------------
-- Reading declarations
-----------------------------------------------------------------------------------------

theorem name_read (declared : List Declaration) (catalog : Catalog) (declaration : Declaration)
    : (read declared catalog declaration).name = declaration.name := by
  cases declaration <;> rfl

theorem names_readField {catalog : Catalog} {message : String} (fields : List FieldDeclaration)
    : (fields.map (readField declared catalog message)).map Field.name
      = fields.map FieldDeclaration.name := by
  rw [List.map_map]
  rfl

/-- What a declaration gives is what is read, by cases on the declaration. -/
theorem resolve_eq_ok {catalog : Catalog} {declaration : Declaration} {node : Node}
    (success : resolve declared catalog declaration = .ok node)
    : read declared catalog declaration = node := by
  cases declaration with
  | enumeration content =>
      cases success
      rfl
  | message content =>
      obtain ⟨fields, resolved, same⟩ := Outcome.bind_eq_ok.mp success
      cases same
      have each (declaration : FieldDeclaration) (field : Field)
          (success : resolveField declared catalog content.name declaration = .ok field)
          : id field = readField declared catalog content.name declaration := by
        unfold resolveField at success
        split at success
        · cases success
        · cases success
          rfl
      have fields_eq := Outcome.map_eq_of_mapM resolved each
      rw [List.map_id] at fields_eq
      rw [read, fields_eq]

/-- What declarations give is what is read one by one. -/
theorem nodes_eq_read {catalog : Catalog}
    (each
      : List.Forall₂ (fun declaration node => resolve declared catalog declaration = .ok node)
          declared nodes)
    : nodes = declared.map (read declared catalog) := by
  have read_eq : nodes.map id = declared.map (read declared catalog) :=
    Outcome.map_eq_of_mapM (Outcome.mapM_eq_ok.mpr each) fun _ _ success =>
      (resolve_eq_ok success).symm
  rwa [List.map_id] at read_eq

/-- A kind that is known stays known. -/
theorem kind?_of_extends (more : Extends before after) {name : String} {kind : Kind}
    (known : kind? declared before name = some kind)
    : kind? declared after name = some kind := by
  unfold kind? at known ⊢
  cases own : declared.find? fun declaration => declaration.name = name with
  | some declaration =>
      rw [own] at known
      exact known
  | none =>
      rw [own] at known
      obtain ⟨node, found, same⟩ := Option.map_eq_some_iff.mp known
      exact Option.map_eq_some_iff.mpr ⟨node, more _ _ found, same⟩

/-- The first known name among some is the same, or it was not known before; by induction on the
names.
-/
theorem find?_of_extends (more : Extends before after) (names : List String)
    : (names.find? fun name => (kind? declared before name).isSome)
        = (names.find? fun name => (kind? declared after name).isSome)
      ∨ ∃ name,
          (names.find? fun name => (kind? declared after name).isSome) = some name
          ∧ kind? declared before name = none
          ∧ kind? declared after name ≠ none := by
  induction names with
  | nil => exact .inl rfl
  | cons name rest ih =>
      cases early : kind? declared before name with
      | some kind => simp [early, kind?_of_extends more early]
      | none =>
          cases late : kind? declared after name with
          | some kind => exact .inr ⟨name, by simp [late], early, by simp [late]⟩
          | none => simpa [early, late] using ih

/-- A reference stands for the same name, or for one that was not known before. -/
theorem resolveReference_of_extends (more : Extends before after) (scope reference : String)
    : resolveReference declared before scope reference
        = resolveReference declared after scope reference
      ∨ kind? declared before (resolveReference declared after scope reference) = none
        ∧ kind? declared after (resolveReference declared after scope reference) ≠ none := by
  unfold resolveReference
  split
  · exact .inl rfl
  · have names := (Name.scopes scope).map fun outer => Name.qualify outer reference
    rcases find?_of_extends more
      ((Name.scopes scope).map fun outer => Name.qualify outer reference) with same | late
    · rw [same]
      exact .inl rfl
    · obtain ⟨name, found, unknown, known⟩ := late
      rw [found]
      exact .inr ⟨unknown, known⟩

/-- Whether a field is required depends on the kind of its type exactly if nothing else decides it,
by cases on what is declared.
-/
theorem required_eq_iff (field : FieldDeclaration) (first second : FieldType)
    {left right : Catalog}
    : (decide (field.rule = .required) || !hasPresence declared left field first)
        = (decide (field.rule = .required) || !hasPresence declared right field second)
      ↔ (field.rule = .unspecified ∧ field.mapKey = none ∧ field.tracksPresence = false
            ∧ field.oneof = none
          → isSingularMessage declared left field first
            = isSingularMessage declared right field second) := by
  rw [hasPresence, hasPresence]
  cases field with
  | mk name typeName rule mapKey tracksPresence oneof comment =>
      cases tracksPresence with
      | true => simp
      | false =>
          cases oneof with
          | some group => simp
          | none =>
              cases mapKey with
              | some key => simp [isSingularMessage]
              | none => cases rule <;> simp [isSingularMessage]

/-- A field is read differently exactly if its reference is late, by cases on its type and on what
its reference denotes.
-/
theorem readField_eq_iff (more : Extends before after) (message : String)
    (field : FieldDeclaration)
    : readField declared before message field = readField declared after message field
      ↔ ¬ Late declared before after message field := by
  cases named : FieldType.ofName field.typeName with
  | scalar kind =>
      have type (catalog : Catalog)
          : resolveType declared catalog message field.typeName = .scalar kind := by
        rw [resolveType, named]
      simp [readField, type, hasPresence, isSingularMessage, Late, named]
  | named reference =>
      have type (catalog : Catalog)
          : resolveType declared catalog message field.typeName
            = .named (resolveReference declared catalog message reference) := by
        rw [resolveType, named]
      have known := @resolveReference_of_extends declared _ _ more message reference
      simp only [readField, type, Late, LateReference, named, Field.mk.injEq,
        FieldType.named.injEq, true_and, and_true, required_eq_iff]
      generalize resolveReference declared after message reference = name at known
      by_cases stays : resolveReference declared before message reference = name
      · rw [stays]
        constructor
        · rintro ⟨-, alike⟩ ⟨unknown, -, moved | ⟨enumeration, undecided⟩⟩
          · exact moved rfl
          · simp [isSingularMessage, unknown, enumeration, undecided] at alike
        · intro settled
          refine ⟨rfl, fun undecided => ?_⟩
          cases early : kind? declared before name with
          | some kind => simp [isSingularMessage, early, kind?_of_extends more early]
          | none =>
              have other : kind? declared after name ≠ some .enumeration := fun late =>
                settled ⟨early, by simp [late], .inr ⟨late, undecided⟩⟩
              simp [isSingularMessage, early, other]
      · have late := known.resolve_left stays
        constructor
        · exact fun same => absurd same.1 stays
        · exact fun settled => absurd ⟨late.1, late.2, .inl stays⟩ settled

-----------------------------------------------------------------------------------------
-- Loading two texts
-----------------------------------------------------------------------------------------

/-- The declarations of the document that a text writes. -/
def Declares (text : String) (declared : List Declaration) : Prop :=
  ∃ document,
    Json.parse text.toUTF8.toList = .ok document ∧ declarations document = .ok declared

instance (text : String) (declared : List Declaration) : Decidable (Declares text declared) :=
  match parsed : Json.parse text.toUTF8.toList with
  | .ok document =>
      decidable_of_iff (declarations document = .ok declared)
        ⟨fun found => ⟨document, parsed, found⟩, fun ⟨_, again, found⟩ => by
          cases parsed.symm.trans again
          exact found⟩
  | .error error => .isFalse fun ⟨_, again, _⟩ => nomatch parsed.symm.trans again

theorem Declares.unique {text : String} {first second : List Declaration}
    (left : Declares text first) (right : Declares text second)
    : first = second := by
  obtain ⟨document, parsed, found⟩ := left
  obtain ⟨other, again, same⟩ := right
  cases parsed.symm.trans again
  cases found.symm.trans same
  rfl

/-- A load that succeeds adds what is read. -/
theorem loadInto_eq_ok {catalog : Catalog} {source : String × String}
    (success : loadInto catalog source = .ok after)
    : ∃ declared,
        Declares source.2 declared ∧ Adds catalog (declared.map (read declared catalog)) after := by
  have loads := loadText_loads catalog source.1 source.2
  unfold loadInto at success
  generalize loadText catalog source.1 source.2 = result at loads success
  cases loads with
  | rejected _ _ => cases success
  | stopped _ _ _ _ _ _ => cases success
  | @added _ nodes _ parsed found adds =>
      cases success
      obtain ⟨declared, given, each, -⟩ := nodesOf_eq_ok found
      exact ⟨declared, ⟨_, parsed, given⟩, nodes_eq_read each ▸ adds⟩

/-- Two texts that load one after the other load one by one. -/
theorem loadInto_pair {start : Catalog} {first second : String × String}
    (success : [first, second].foldlM loadInto start = .ok after)
    : ∃ middle, loadInto start first = .ok middle ∧ loadInto middle second = .ok after := by
  obtain ⟨middle, loaded, rest⟩ := Outcome.bind_eq_ok.mp success
  obtain ⟨last, again, same⟩ := Outcome.bind_eq_ok.mp rest
  cases same
  exact ⟨middle, loaded, again⟩

theorem Adds.get?_iff (adds : Adds before nodes after) {name : String}
    {node : Node}
    : after.types.get? name = some node
      ↔ before.types.get? name = some node ∨ node ∈ nodes ∧ node.name = name := by
  rw [← OrderedMap.mem_entries_iff, ← OrderedMap.mem_entries_iff, adds, List.mem_append,
    List.mem_map]
  simp

theorem Adds.extends (adds : Adds before nodes after) : Extends before after :=
  fun _ _ found => adds.get?_iff.mpr (.inl found)

theorem Adds.get?_of_mem (adds : Adds before nodes after) {node : Node} (member : node ∈ nodes)
    : after.types.get? node.name = some node :=
  adds.get?_iff.mpr (.inr ⟨member, rfl⟩)

/-- Two texts with these declarations are loaded in both orders from one start. -/
structure LoadedTwice (start : Catalog) (declared others : List Declaration)
    (withDeclared withOthers left right : Catalog)
    : Prop where
  declaredFirst : Adds start (declared.map (read declared start)) withDeclared
  othersSecond : Adds withDeclared (others.map (read others withDeclared)) left
  othersFirst : Adds start (others.map (read others start)) withOthers
  declaredSecond : Adds withOthers (declared.map (read declared withOthers)) right

/-- How a declaration was read for two catalogs. An enumeration is the same in both; a message is
the same up to types of fields and whether fields are required, and a field is the same exactly if
its reference is not late.
-/
inductive Reread (declared : List Declaration) (before after left right : Catalog)
    : Declaration → Prop
  | enumeration {content : Enumeration}
    (first : left.types.get? content.name = some (.enumeration content))
    (second : right.types.get? content.name = some (.enumeration content))
    : Reread declared before after left right (.enumeration content)
  | message {content : MessageDeclaration} {early late : Message}
    (first : left.types.get? content.name = some (.message early))
    (second : right.types.get? content.name = some (.message late))
    (rest : late = { early with fields := late.fields })
    (earlyFields : early.fields = content.fields.map (readField declared before content.name))
    (lateFields : late.fields = content.fields.map (readField declared after content.name))
    (fields
      : ∀ field ∈ content.fields,
          ∃ type required,
            readField declared after content.name field
            = { readField declared before content.name field with type, required })
    (same
      : ∀ field ∈ content.fields,
          readField declared before content.name field
            = readField declared after content.name field
          ↔ ¬ Late declared before after content.name field)
    : Reread declared before after left right (.message content)

section LoadedTwice

variable {start withDeclared withOthers left right : Catalog} {declared others : List Declaration}

theorem LoadedTwice.symm
    (loaded : LoadedTwice start declared others withDeclared withOthers left right)
    : LoadedTwice start others declared withOthers withDeclared right left :=
  ⟨loaded.othersFirst, loaded.declaredSecond, loaded.declaredFirst, loaded.othersSecond⟩

variable (loaded : LoadedTwice start declared others withDeclared withOthers left right)

include loaded

theorem LoadedTwice.names
    : left.names = start.names ++ declared.map Declaration.name ++ others.map Declaration.name := by
  rw [loaded.othersSecond.names, loaded.declaredFirst.names, List.map_map, List.map_map]
  simp only [Function.comp_def, name_read]

/-- What stands in the one catalog was there from the start or is read from one of the texts. -/
theorem LoadedTwice.get?_iff {name : String} {node : Node}
    : left.types.get? name = some node
      ↔ (start.types.get? name = some node
          ∨ node ∈ declared.map (read declared start) ∧ node.name = name)
        ∨ node ∈ others.map (read others withDeclared) ∧ node.name = name := by
  rw [loaded.othersSecond.get?_iff, loaded.declaredFirst.get?_iff]

/-- Each declaration is found in both catalogs as it was read, by cases on the declaration. -/
theorem LoadedTwice.reread {declaration : Declaration} (member : declaration ∈ declared)
    : Reread declared start withOthers left right declaration := by
  have first := loaded.othersSecond.extends _ _
    (loaded.declaredFirst.get?_of_mem (List.mem_map_of_mem member))
  have second := loaded.declaredSecond.get?_of_mem (List.mem_map_of_mem member)
  rw [name_read] at first second
  cases declaration with
  | enumeration content => exact .enumeration first second
  | message content =>
      exact .message first second rfl rfl rfl (fun _ _ => ⟨_, _, rfl⟩)
        fun field _ => readField_eq_iff loaded.othersFirst.extends content.name field

/-- If no reference is late, the declarations are read alike. -/
theorem LoadedTwice.read_eq (settled : NothingLate declared start withOthers)
    {declaration : Declaration} (member : declaration ∈ declared)
    : read declared start declaration = read declared withOthers declaration := by
  cases declaration with
  | enumeration content => rfl
  | message content =>
      have fields : content.fields.map (readField declared start content.name)
          = content.fields.map (readField declared withOthers content.name) :=
        List.map_congr_left fun field inside =>
          (readField_eq_iff loaded.othersFirst.extends content.name field).mpr
            (settled content member field inside)
      rw [read, read, fields]

/-- If no reference is late, what stands in the one catalog stands in the other one. -/
theorem LoadedTwice.extends (settled : NothingLate declared start withOthers)
    (otherSettled : NothingLate others start withDeclared)
    : Extends left right := by
  intro name node found
  have same := List.map_congr_left fun _ member => loaded.read_eq settled member
  have otherSame := List.map_congr_left fun _ member => loaded.symm.read_eq otherSettled member
  rw [loaded.get?_iff, same, ← otherSame] at found
  rw [loaded.symm.get?_iff]
  tauto

/-- If a type stands alike in both catalogs, none of its references is late. -/
theorem LoadedTwice.nothingLate
    (same : ∀ name, left.types.get? name = right.types.get? name)
    : NothingLate declared start withOthers := by
  intro content member field inside
  cases loaded.reread member with
  | message first second _ earlyFields lateFields _ fields =>
      rw [same, second] at first
      cases first
      have equal := List.map_inj_left.mp (earlyFields.symm.trans lateFields) field inside
      exact (fields field inside).mp equal

end LoadedTwice

/-- Two texts that can be loaded in both orders give catalogs with the same names, where only the
order differs, and keep the types that were there before. Their own types are the same up to
fields with late references, which are references to types of the other text; so the catalogs
hold equal types exactly if no reference is late.
-/
theorem load_order_matters_for_late_references {start left right : Catalog}
    {first second : String × String}
    (forward : [first, second].foldlM loadInto start = .ok left)
    (backward : [second, first].foldlM loadInto start = .ok right)
    : ∃ declared others withFirst withSecond,
        Declares first.2 declared
        ∧ Declares second.2 others
        ∧ loadInto start first = .ok withFirst
        ∧ loadInto start second = .ok withSecond
        ∧ left.names
          = start.names ++ declared.map Declaration.name ++ others.map Declaration.name
        ∧ right.names
          = start.names ++ others.map Declaration.name ++ declared.map Declaration.name
        ∧ Extends start left
        ∧ Extends start right
        ∧ (∀ declaration ∈ declared, Reread declared start withSecond left right declaration)
        ∧ (∀ declaration ∈ others, Reread others start withFirst right left declaration)
        ∧ ((∀ name, left.types.get? name = right.types.get? name)
            ↔ NothingLate declared start withSecond ∧ NothingLate others start withFirst) := by
  obtain ⟨withFirst, firstAlone, secondAfter⟩ := loadInto_pair forward
  obtain ⟨withSecond, secondAlone, firstAfter⟩ := loadInto_pair backward
  obtain ⟨declared, given, declaredFirst⟩ := loadInto_eq_ok firstAlone
  obtain ⟨others, otherGiven, othersFirst⟩ := loadInto_eq_ok secondAlone
  obtain ⟨_, same, othersSecond⟩ := loadInto_eq_ok secondAfter
  cases otherGiven.unique same
  obtain ⟨_, same, declaredSecond⟩ := loadInto_eq_ok firstAfter
  cases given.unique same
  have loaded : LoadedTwice start declared others withFirst withSecond left right :=
    ⟨declaredFirst, othersSecond, othersFirst, declaredSecond⟩
  refine ⟨declared, others, withFirst, withSecond, given, otherGiven, firstAlone, secondAlone,
    loaded.names, loaded.symm.names, ?_, ?_, ?_, ?_, ?_, ?_⟩
  · exact fun name node found => othersSecond.extends _ _ (declaredFirst.extends _ _ found)
  · exact fun name node found => declaredSecond.extends _ _ (othersFirst.extends _ _ found)
  · exact fun declaration member => loaded.reread member
  · exact fun declaration member => loaded.symm.reread member
  · exact fun same =>
      ⟨loaded.nothingLate same, loaded.symm.nothingLate fun name => (same name).symm⟩
  · rintro ⟨settled, otherSettled⟩ name
    exact Option.ext fun node => ⟨loaded.extends settled otherSettled name node,
      loaded.symm.extends otherSettled settled name node⟩

-----------------------------------------------------------------------------------------
-- Texts in both orders
-----------------------------------------------------------------------------------------

/-- A message that refers to a message of another text by its qualified name. -/
def invoiceSource : String × String :=
  ("invoice.json",
    "\x7b\"nested\":\x7b\"billing\":\x7b\"nested\":\x7b\"Invoice\":\x7b\"fields\":\x7b"
      ++ "\"total\":\x7b\"type\":\"common.Money\"\x7d\x7d\x7d\x7d\x7d\x7d\x7d")

def moneySource : String × String :=
  ("common.json",
    "\x7b\"nested\":\x7b\"common\":\x7b\"nested\":\x7b\"Money\":\x7b\"fields\":\x7b"
      ++ "\x7d\x7d\x7d\x7d\x7d\x7d")

def invoice : MessageDeclaration where
  name := "billing.Invoice"
  fields := [{ name := "total", typeName := "common.Money" }]
  oneofs := []
  comment := none

def money : MessageDeclaration where
  name := "common.Money"
  fields := []
  oneofs := []
  comment := none

def catalogOf (nodes : List Node) : Catalog where
  types := .ofEntries (nodes.map fun node => (node.name, node))

def invoiceNode : Node :=
  .message
    { name := "billing.Invoice",
      fields := [{ name := "total", type := .named "common.Money", required := false }] }

def moneyNode : Node :=
  .message { name := "common.Money" }

/-- The two texts give the same types in both orders. -/
theorem invoice_load_order
    : ∃ left right,
        [invoiceSource, moneySource].foldlM loadInto {} = .ok left
        ∧ [moneySource, invoiceSource].foldlM loadInto {} = .ok right
        ∧ left.names = ["billing.Invoice", "common.Money"]
        ∧ right.names = ["common.Money", "billing.Invoice"]
        ∧ ∀ name, left.types.get? name = right.types.get? name := by
  have forward
      : [invoiceSource, moneySource].foldlM loadInto {}
        = .ok (catalogOf [invoiceNode, moneyNode]) := by decide +kernel
  have backward
      : [moneySource, invoiceSource].foldlM loadInto {}
        = .ok (catalogOf [moneyNode, invoiceNode]) := by decide +kernel
  have given : Declares invoiceSource.2 [.message invoice] := by decide +kernel
  have otherGiven : Declares moneySource.2 [.message money] := by decide +kernel
  have alone : loadInto {} moneySource = .ok (catalogOf [moneyNode]) := by decide +kernel
  obtain ⟨_, _, withFirst, _, first, second, -, other, -, -, -, -, -, -, same⟩ :=
    load_order_matters_for_late_references forward backward
  cases first.unique given
  cases second.unique otherGiven
  cases other.symm.trans alone
  have settled : NothingLate [.message invoice] {} (catalogOf [moneyNode]) := by
    intro content member field inside
    simp only [List.mem_singleton, Declaration.message.injEq] at member
    subst member
    rw [List.mem_singleton.mp inside]
    decide +kernel
  have otherSettled : NothingLate [.message money] {} withFirst := by
    intro content member field inside
    simp only [List.mem_singleton, Declaration.message.injEq] at member
    subst member
    exact absurd inside List.not_mem_nil
  exact ⟨_, _, forward, backward, by decide +kernel, by decide +kernel,
    same.mpr ⟨settled, otherSettled⟩⟩

/-- A message with one field, of a type that is declared elsewhere. -/
def holder (name type : String) (required : Bool) : Node :=
  .message { name, fields := [{ name := "x", type := .named type, required }] }

/-- A message with a field of a type that another text declares as an enumeration. -/
def levelledSource : String × String :=
  ("a.json",
    "\x7b\"nested\":\x7b\"M\":\x7b\"fields\":\x7b\"x\":\x7b\"type\":\"E\"\x7d\x7d\x7d\x7d\x7d")

def levelSource : String × String :=
  ("b.json", "\x7b\"nested\":\x7b\"E\":\x7b\"values\":\x7b\"ZERO\":0\x7d\x7d\x7d\x7d")

def level : Node :=
  .enumeration { name := "E", values := .ofEntries [("ZERO", 0)] }

/-- A message with a field of a type that is found outside its scope, or within it once another
text declares one there.
-/
def innerSource : String × String :=
  ("a.json",
    "\x7b\"nested\":\x7b\"a\":\x7b\"nested\":\x7b\"M\":\x7b\"fields\":\x7b"
      ++ "\"x\":\x7b\"type\":\"T\"\x7d\x7d\x7d\x7d\x7d\x7d\x7d")

def shadowSource : String × String :=
  ("b.json",
    "\x7b\"nested\":\x7b\"a\":\x7b\"nested\":\x7b\"T\":\x7b\"fields\":\x7b\x7d\x7d\x7d\x7d\x7d\x7d")

/-- The order in which texts are loaded decides whether a field is required and which type it has.
-/
theorem load_order_changes_types
    : (∃ left right,
        [levelledSource, levelSource].foldlM loadInto {} = .ok left
        ∧ [levelSource, levelledSource].foldlM loadInto {} = .ok right
        ∧ left.types.get? "M" = some (holder "M" "E" false)
        ∧ right.types.get? "M" = some (holder "M" "E" true))
      ∧ ∃ left right,
        [innerSource, shadowSource].foldlM loadInto (catalogOf [.message { name := "T" }])
          = .ok left
        ∧ [shadowSource, innerSource].foldlM loadInto (catalogOf [.message { name := "T" }])
          = .ok right
        ∧ left.types.get? "a.M" = some (holder "a.M" "T" false)
        ∧ right.types.get? "a.M" = some (holder "a.M" "a.T" false) := by
  refine ⟨⟨catalogOf [holder "M" "E" false, level], catalogOf [level, holder "M" "E" true],
      ?_, ?_, ?_, ?_⟩,
    ⟨catalogOf [.message { name := "T" }, holder "a.M" "T" false, .message { name := "a.T" }],
      catalogOf [.message { name := "T" }, .message { name := "a.T" }, holder "a.M" "a.T" false],
      ?_, ?_, ?_, ?_⟩⟩
  all_goals decide +kernel

end ProtoSchema.Descriptor
