import ProtoSchema.Proofs.Schema.EntryNames
import ProtoSchema.Proofs.TypeScript.Sources

/-! Which declaration a map field gets for its entries. Where names tell maps apart, it is that of
its own entries, unless a listed type has their name.
-/

namespace ProtoSchema.TypeScript

open Schema
open Execution

variable {style : CommentStyle} {int64 : Integer64} {scope : Scope} {progress : Progress}

/-- Leading dots of a reference do not show in the text of its type. -/
theorem baseText_absolute (type : FieldType)
    : baseText int64 scope type.absolute = baseText int64 scope type := by
  cases type with
  | scalar kind => rfl
  | named reference =>
      rw [FieldType.absolute, baseText, baseText, Scope.find?_dropLeadingDots]

/-- Equal entries of one name have one declaration. -/
theorem nodeText_entry_eq {first second : Message} {left right : Field}
    {leftKey rightKey : Scalar}
    (named : MapEntry.name first left leftKey = MapEntry.name second right rightKey)
    (same : MapEntry.SameEntry first second left right leftKey rightKey)
    : nodeText style int64 scope (.message (MapEntry.message first left leftKey))
      = nodeText style int64 scope (.message (MapEntry.message second right rightKey)) := by
  have value : baseText int64 scope left.type = baseText int64 scope right.type := by
    rw [← baseText_absolute, same.value, baseText_absolute]
  have header (properties : List String)
      : printInterface style (MapEntry.message first left leftKey) properties
        = printInterface style (MapEntry.message second right rightKey) properties := by
    rw [printInterface, printInterface, Message.simpleName, Message.simpleName,
      MapEntry.name_message, MapEntry.name_message, named]
    rfl
  rw [nodeText, nodeText, messageText_entry, messageText_entry, header]
  simp only [MapEntry.message, List.map_cons, List.map_nil, value, same.key]
  rfl

/-- After a run that succeeds, what is declared under the name of the entries of a map is the
declaration of these entries, unless a listed type has the name.
-/
theorem declared_entry
    (clear
      : ∀ message field,
          .message message ∈ scope.listed
          → field ∈ message.fields
          → field.isMap
          → MapEntry.Clear message field)
    (built : exec (build style int64 scope) {} = (.ok ⟨⟩, progress)) {message : Message}
    {field : Field} {key : Scalar} (listed : .message message ∈ scope.listed)
    (member : field ∈ message.fields) (keyed : field.mapKey = some key) {text : String}
    (found : progress.registry.get? (MapEntry.name message field key) = some text)
    : text = nodeText style int64 scope (.message (MapEntry.message message field key))
      ∨ ∃ node ∈ scope.listed, node.name = MapEntry.name message field key := by
  obtain ⟨node, source, named, rfl, _, _⟩ := (build_sound built).declared found
  have tells {message : Message} {field : Field} {key : Scalar}
      (listed : .message message ∈ scope.listed) (member : field ∈ message.fields)
      (keyed : field.mapKey = some key)
      : MapEntry.Clear message field :=
    clear message field listed member (by rw [Field.isMap, keyed]; rfl)
  cases source with
  | listed other => exact .inr ⟨node, other, named⟩
  | entry other shown otherKeyed =>
      rw [Node.name, MapEntry.name_message] at named
      have inside := mem_of_mem_shownFields shown
      have same := MapEntry.sameEntry_of_name_eq (tells other inside otherKeyed)
        (tells listed member keyed) named
      exact .inl (nodeText_entry_eq named same)

end ProtoSchema.TypeScript
