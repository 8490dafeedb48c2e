import ProtoSchema.Proofs.GraphQL.Integer64
import ProtoSchema.Proofs.TypeScript.Integer64

/-! What stands for 64-bit integers concerns nothing else: with text or with numbers, conversions to
both targets end alike.
-/

namespace ProtoSchema

open Schema

/-- The setting for 64-bit integers changes only the types of fields that hold them. Under both
settings, the conversions fail with the same error or both succeed; in the latter case they have
registered the same names in the same order, for the same origins. The GraphQL types of an origin
differ only in the innermost names of the types of such fields and members, which are `String` and
`Float`. For TypeScript the warnings are the same as well, and the declarations differ only in the
primitives for such fields and in the unions of groups with such members.
-/
theorem integer64_changes_integers_only (style : TypeScript.CommentStyle) (scope : Scope)
    : ((∃ error,
          GraphQL.convert .text scope = .error error ∧ GraphQL.convert .number scope = .error error)
        ∨ (∃ left right,
            GraphQL.convert .text scope = .ok left ∧ GraphQL.convert .number scope = .ok right)
          ∧ (GraphQL.finalProgress .text scope).registry.Matches
              (GraphQL.RegisteredTwins scope)
              (GraphQL.finalProgress .number scope).registry)
      ∧ ((∃ error,
          TypeScript.convert style .text scope = .error error
          ∧ TypeScript.convert style .number scope = .error error)
        ∨ (∃ left right,
            TypeScript.convert style .text scope = .ok left
            ∧ TypeScript.convert style .number scope = .ok right
            ∧ left.warnings = right.warnings)
          ∧ (TypeScript.finalProgress style .text scope).registry.Matches
              (TypeScript.DeclaredTwins style scope)
              (TypeScript.finalProgress style .number scope).registry) :=
  ⟨GraphQL.convert_agrees scope, TypeScript.convert_agrees style scope⟩

end ProtoSchema
