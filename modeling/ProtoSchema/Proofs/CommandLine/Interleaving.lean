import ProtoSchema.CommandLine.Arguments

/-! Command lines whose options and positional words interleave. What the arguments ask for is
made up of the words, the types, the inputs, the flag and the outputs, each kind for itself, so it
does not matter how items of different kinds are mixed, nor what the values of options look like.
-/

namespace ProtoSchema.CommandLine

-----------------------------------------------------------------------------------------
-- Items of a command line
-----------------------------------------------------------------------------------------

/-- An item of a command line: a positional word, an option with its value or a flag. The value of a
type or an input may be attached to its option, and the option for the output may be a short one.
-/
inductive Item where
  | word (text : String)
  | type (attached : Bool) (value : String)
  | input (attached : Bool) (value : String)
  | output (short : Bool) (value : String)
  | int64AsNumber
deriving DecidableEq, Repr

inductive Item.Kind where
  | word
  | type
  | input
  | output
  | int64AsNumber
deriving DecidableEq, Repr

/-- The arguments for an option with a value. -/
def optionArguments (name : String) (attached : Bool) (value : String) : List String :=
  if attached then [name ++ "=" ++ value] else [name, value]

namespace Item

/-- The arguments that write an item. -/
def arguments : Item → List String
  | .word text => [text]
  | .type attached value => optionArguments "--type" attached value
  | .input attached value => optionArguments "--input" attached value
  | .output short value => optionArguments (if short then "-o" else "--output") false value
  | .int64AsNumber => ["--int64-as-number"]

def kind : Item → Kind
  | .word _ => .word
  | .type _ _ => .type
  | .input _ _ => .input
  | .output _ _ => .output
  | .int64AsNumber => .int64AsNumber

/-- The text of a word or the value of an option. -/
def text? : Item → Option String
  | .word text => some text
  | .type _ value => some value
  | .input _ value => some value
  | .output _ value => some value
  | .int64AsNumber => none

end Item

/-- The items of a kind, in order. -/
def itemsOf (kind : Item.Kind) (items : List Item) : List Item :=
  items.filter fun item => item.kind = kind

/-- The texts of the items of a kind, in order. -/
def textsOf (kind : Item.Kind) (items : List Item) : List String :=
  (itemsOf kind items).filterMap Item.text?

/-- What the items ask for besides the command, which is their first word. -/
def settingsOf (items : List Item) : Settings where
  descriptors := (textsOf .word items).tail
  types := textsOf .type items
  inputs := textsOf .input items
  int64 := if .int64AsNumber ∈ items then .number else .text
  output := (textsOf .output items).getLast?

/-- What the items so far ask for. -/
def draftOf (items : List Item) : Draft where
  command := (textsOf .word items).head?.bind Command.ofWord?
  settings := settingsOf items

variable {draft : Draft} {items others rest : List Item} {item : Item} {kind : Item.Kind}
  {value : String} {further : List String}

theorem itemsOf_append
    : itemsOf kind (items ++ others) = itemsOf kind items ++ itemsOf kind others :=
  List.filter_append ..

@[simp] theorem textsOf_append
    : textsOf kind (items ++ others) = textsOf kind items ++ textsOf kind others := by
  rw [textsOf, itemsOf_append, List.filterMap_append, textsOf, textsOf]

@[simp] theorem textsOf_singleton (kind : Item.Kind) (item : Item)
    : textsOf kind [item] = if item.kind = kind then item.text?.toList else [] := by
  rw [textsOf, itemsOf]
  by_cases same : item.kind = kind
  · cases text : item.text? <;> simp [same, text]
  · simp [same]

-----------------------------------------------------------------------------------------
-- Reading an item
-----------------------------------------------------------------------------------------

/-- What the draft asks for after one more item. -/
def Draft.take (draft : Draft) : Item → Except ArgumentError Draft
  | .word text => draft.addPositional text
  | .type _ value => .ok (draft.addValue .type value)
  | .input _ value => .ok (draft.addValue .input value)
  | .output _ value => .ok (draft.addValue .output value)
  | .int64AsNumber => .ok { draft with settings.int64 := .number }

/-- The item is no word, or a word that does not start with a dash. -/
def Item.Undashed (item : Item) : Prop :=
  item.kind = .word → ∀ text ∈ item.text?, text.toList.head? ≠ some '-'

/-- An argument that does not start with a dash is positional. -/
theorem ofText_of_undashed {text : String} (undashed : text.toList.head? ≠ some '-')
    : Argument.ofText text = .positional text := by
  unfold Argument.ofText
  split
  · next same => simp [same] at undashed
  · next same => simp [same] at undashed
  · next same => simp [same] at undashed
  · rfl

/-- An option takes the next argument for its value, whatever that looks like. -/
theorem readArguments_apart {name : String} {switch : Switch}
    (form : Argument.ofText name = .option name none) (known : Switch.ofName? name = some switch)
    (valued : switch = .type ∨ switch = .input ∨ switch = .output)
    : readArguments draft (name :: value :: further)
      = readArguments (draft.addValue switch value) further := by
  rcases valued with rfl | rfl | rfl <;> simp only [readArguments, form, known]

/-- An option takes the value that is attached to it. -/
theorem readArguments_attached {argument name : String} {switch : Switch}
    (form : Argument.ofText argument = .option name (some value))
    (known : Switch.ofName? name = some switch)
    (valued : switch = .type ∨ switch = .input ∨ switch = .output)
    : readArguments draft (argument :: further)
      = readArguments (draft.addValue switch value) further := by
  rcases valued with rfl | rfl | rfl <;> simp only [readArguments, form, known]

/-- The arguments of an item are read as the item, by cases on it. -/
theorem readArguments_item (undashed : item.Undashed)
    : readArguments draft (item.arguments ++ further)
      = draft.take item >>= fun draft => readArguments draft further := by
  cases item with
  | word text =>
      have form := ofText_of_undashed (undashed rfl text rfl)
      simp only [Item.arguments, List.cons_append, List.nil_append, readArguments, form, Draft.take]
  | type attached value =>
      cases attached with
      | false => exact readArguments_apart (by decide) (by decide) (.inl rfl)
      | true =>
          have form : Argument.ofText ("--type" ++ "=" ++ value)
              = .option "--type" (some value) := by
            simp [Argument.ofText, longOption]
          exact readArguments_attached form (by decide) (.inl rfl)
  | input attached value =>
      cases attached with
      | false => exact readArguments_apart (by decide) (by decide) (.inr (.inl rfl))
      | true =>
          have form : Argument.ofText ("--input" ++ "=" ++ value)
              = .option "--input" (some value) := by
            simp [Argument.ofText, longOption]
          exact readArguments_attached form (by decide) (.inr (.inl rfl))
  | output short value =>
      cases short with
      | false => exact readArguments_apart (by decide) (by decide) (.inr (.inr rfl))
      | true => exact readArguments_apart (by decide) (by decide) (.inr (.inr rfl))
  | int64AsNumber =>
      have form : Argument.ofText "--int64-as-number" = .option "--int64-as-number" none := by
        decide
      have known : Switch.ofName? "--int64-as-number" = some .int64AsNumber := by decide
      simp only [Item.arguments, List.cons_append, List.nil_append, readArguments, form, known]
      rfl

-----------------------------------------------------------------------------------------
-- Reading all items
-----------------------------------------------------------------------------------------

/-- The first of the items' words names a command. -/
def StartsWithCommand (items : List Item) : Prop :=
  ∀ text ∈ (textsOf .word items).head?, ∃ command : Command, text = command.word

theorem ofWord?_word (command : Command) : Command.ofWord? command.word = some command := by
  cases command <;> decide

theorem StartsWithCommand.of_append (starts : StartsWithCommand (items ++ rest))
    : StartsWithCommand items := by
  intro text first
  refine starts text ?_
  rw [textsOf_append, List.head?_append, Option.mem_def.mp first]
  rfl

/-- One more item takes the draft of some items to that of all of them, by cases on the item; a word
is the command if it is the first one.
-/
theorem take_draftOf (starts : StartsWithCommand (items ++ [item]))
    : (draftOf items).take item = .ok (draftOf (items ++ [item])) := by
  cases item with
  | word text =>
      cases words : textsOf .word items with
      | nil =>
          obtain ⟨command, rfl⟩ := starts text (by simp [words, Item.kind, Item.text?])
          simp [Draft.take, Draft.addPositional, draftOf, settingsOf, words, Item.kind, Item.text?,
            ofWord?_word]
      | cons first more =>
          obtain ⟨command, rfl⟩ := starts first (by simp [words])
          simp [Draft.take, Draft.addPositional, draftOf, settingsOf, words, Item.kind, Item.text?,
            ofWord?_word]
  | type attached value =>
      simp [Draft.take, Draft.addValue, draftOf, settingsOf, Item.kind, Item.text?]
  | input attached value =>
      simp [Draft.take, Draft.addValue, draftOf, settingsOf, Item.kind, Item.text?]
  | output short value =>
      simp [Draft.take, Draft.addValue, draftOf, settingsOf, Item.kind, Item.text?]
  | int64AsNumber => simp [Draft.take, draftOf, settingsOf, Item.kind]

/-- The arguments of items are read item by item, by induction on those that are left; the draft is
what the items before them ask for.
-/
theorem readArguments_items (starts : StartsWithCommand (items ++ rest))
    (undashed : ∀ item ∈ rest, item.Undashed)
    : readArguments (draftOf items) (rest.flatMap Item.arguments)
      = (draftOf (items ++ rest)).finish := by
  induction rest generalizing items with
  | nil => rw [List.flatMap_nil, readArguments, List.append_nil]
  | cons item rest ih =>
      obtain ⟨first, later⟩ := List.forall_mem_cons.mp undashed
      rw [List.append_cons] at starts ⊢
      rw [List.flatMap_cons, readArguments_item first, take_draftOf starts.of_append]
      exact ih starts later

/-- Arguments ask for what their items do, where no word starts with a dash. -/
theorem parseArguments_items (starts : StartsWithCommand items)
    (undashed : ∀ text ∈ textsOf .word items, text.toList.head? ≠ some '-')
    : parseArguments (items.flatMap Item.arguments) = (draftOf items).finish := by
  have each (item : Item) (member : item ∈ items) : item.Undashed := by
    intro word text found
    refine undashed text (List.mem_filterMap.mpr ⟨item, ?_, found⟩)
    exact List.mem_filter.mpr ⟨member, by simpa using word⟩
  have run
      : readArguments (draftOf []) (items.flatMap Item.arguments) = (draftOf ([] ++ items)).finish :=
    readArguments_items starts each
  exact run

/-- The items of each kind are the same, in the same order. -/
def SameKinds (first second : List Item) : Prop :=
  ∀ kind, itemsOf kind first = itemsOf kind second

theorem SameKinds.textsOf_eq (same : SameKinds items others) (kind : Item.Kind)
    : textsOf kind items = textsOf kind others := by
  rw [textsOf, same kind, textsOf]

/-- What items ask for does not depend on how those of different kinds are mixed. -/
theorem SameKinds.draftOf_eq (same : SameKinds items others) : draftOf items = draftOf others := by
  have own (items : List Item)
      : .int64AsNumber ∈ items ↔ .int64AsNumber ∈ itemsOf .int64AsNumber items := by
    simp [itemsOf, Item.kind]
  have flag : .int64AsNumber ∈ items ↔ .int64AsNumber ∈ others := by
    rw [own items, same, ← own others]
  simp only [draftOf, settingsOf, same.textsOf_eq, flag]

/-- What interleaved items ask for. They may be mixed in any way, as long as no word starts with a
dash, the first word names a command and there is at least one more. Then the arguments ask for
this command; the descriptors are the other words, the types and inputs the values of their
options, all in order; 64-bit integers are numbers exactly if the flag is among the items; and the
output is the value of the last option for it. So any other items of which those of each kind are
the same, in the same order, ask for the same.
-/
theorem interleaved_items_parse (items : List Item) (command : Command) (descriptor : String)
    (descriptors : List String)
    (words : textsOf .word items = command.word :: descriptor :: descriptors)
    (undashed : ∀ text ∈ textsOf .word items, text.toList.head? ≠ some '-')
    : parseArguments (items.flatMap Item.arguments)
        = .ok (.run {
            command
            settings := {
              descriptors := descriptor :: descriptors
              types := textsOf .type items
              inputs := textsOf .input items
              int64 := if .int64AsNumber ∈ items then .number else .text
              output := (textsOf .output items).getLast? } })
      ∧ ∀ others,
          SameKinds others items
          → parseArguments (others.flatMap Item.arguments)
            = parseArguments (items.flatMap Item.arguments) := by
  have starts {others : List Item} (same : textsOf .word others = textsOf .word items)
      : StartsWithCommand others := by
    intro first found
    rw [same, words] at found
    exact ⟨command, (Option.some.inj found).symm⟩
  have parsed := parseArguments_items (starts rfl) undashed
  refine ⟨?_, fun others same => ?_⟩
  · rw [parsed]
    simp [draftOf, settingsOf, Draft.finish, words, ofWord?_word]
  · have texts := same.textsOf_eq .word
    rw [parsed, parseArguments_items (starts texts) (texts ▸ undashed), same.draftOf_eq]

/-- Items with an option before the command and values that look like options, the command and the
separator.
-/
def mixedItems : List Item :=
  [.type false "--input", .word "graphql", .output true "graphql", .int64AsNumber, .word "a.json",
    .type true "", .output false "--", .word "dir"]

/-- The same items, words first. -/
def sortedItems : List Item :=
  [.word "graphql", .word "a.json", .word "dir", .type false "--input", .type true "",
    .output true "graphql", .output false "--", .int64AsNumber]

/-- What the values look like makes no difference, and neither does the order of the kinds. -/
theorem mixed_items_parse
    : textsOf .word mixedItems = Command.graphQL.word :: "a.json" :: ["dir"]
      ∧ (∀ text ∈ textsOf .word mixedItems, text.toList.head? ≠ some '-')
      ∧ mixedItems.flatMap Item.arguments
        = ["--type", "--input", "graphql", "-o", "graphql", "--int64-as-number", "a.json", "--type=",
          "--output", "--", "dir"]
      ∧ parseArguments (sortedItems.flatMap Item.arguments)
        = .ok (.run {
            command := .graphQL
            settings := {
              descriptors := ["a.json", "dir"]
              types := ["--input", ""]
              int64 := .number
              output := some "--" } }) := by
  have words : textsOf .word mixedItems = Command.graphQL.word :: "a.json" :: ["dir"] := by decide
  have undashed : ∀ text ∈ textsOf .word mixedItems, text.toList.head? ≠ some '-' := by decide
  have same : SameKinds sortedItems mixedItems := by
    intro kind
    cases kind <;> decide
  obtain ⟨parsed, others⟩ :=
    interleaved_items_parse mixedItems .graphQL "a.json" ["dir"] words undashed
  exact ⟨words, undashed, by decide, (others sortedItems same).trans parsed⟩

end ProtoSchema.CommandLine
