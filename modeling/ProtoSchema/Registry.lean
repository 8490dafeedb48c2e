import ProtoSchema.OrderedMap

/-! A registry holds what each qualified name was converted to. A name is registered once: the
first registration wins, and a second one fails and changes nothing.
-/

namespace ProtoSchema

/-- Qualified names and what they were converted to, in order of registration. -/
abbrev Registry (α : Type) :=
  OrderedMap α

/-- The failure to register a name that already has an entry. -/
structure AlreadyRegistered where
  name : String
deriving DecidableEq, Repr

def AlreadyRegistered.message (failure : AlreadyRegistered) : String :=
  "type `" ++ failure.name ++ "` is already registered"

/-- Registers an entry under a name that has none yet. -/
def Registry.register {α : Type} (registry : Registry α) (name : String) (entry : α)
    : Except AlreadyRegistered (Registry α) :=
  match registry.insertNew? name entry with
  | some registered => .ok registered
  | none => .error ⟨name⟩

end ProtoSchema
