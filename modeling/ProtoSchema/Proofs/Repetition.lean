import ProtoSchema.Proofs.GraphQL.Materialization
import ProtoSchema.Proofs.Schema.Repetition
import ProtoSchema.Proofs.TypeScript.DeclarationOrder

/-! Conversions of lists with several types of one name. Both conversions skip a type whose name
they have met, so they do the same for the list in which each type is replaced by the first one of
its name.
-/

namespace ProtoSchema.GraphQL

open Schema
open Execution

variable {int64 : Integer64} {scope rival : Scope} {before : Progress}

section

variable (alike : Scope.Alike scope rival)

include alike

theorem resolve_alike : resolve rival = resolve scope := by
  funext reference
  simp only [resolve, alike.find?, alike.knownNames]

theorem fieldType_alike : fieldType int64 rival = fieldType int64 scope := by
  funext message field
  simp only [fieldType, baseType, resolve_alike alike]

theorem slotField_alike : slotField int64 rival = slotField int64 scope := by
  funext message slot
  have member (group : String)
      : memberType int64 rival message group = memberType int64 scope message group := by
    funext name
    simp only [memberType, fieldType_alike alike]
  cases slot with
  | single field => simp only [slotField, fieldType_alike alike]
  | group group => simp only [slotField, groupType, member]

theorem force_alike : force int64 rival = force int64 scope := by
  funext qualified
  simp only [force, messageFields, slotField_alike alike]

theorem forceFirst_alike (count : Nat)
    : forceFirst int64 rival count = forceFirst int64 scope count := by
  induction count with
  | zero => rfl
  | succ count ih => simp only [forceFirst, force_alike alike, ih]

end

/-- Forcing more names changes nothing once an error has occurred or nothing is deferred, by
induction on the outcome.
-/
theorem ForcedFirst.stable {count more : Nat} {outcome : Except ConversionError Unit × Progress}
    (forced : ForcedFirst int64 scope count before outcome)
    (ended : outcome.1 = .ok ⟨⟩ → outcome.2.deferred.keys = []) (enough : count ≤ more)
    : exec (forceFirst int64 scope more) before = outcome := by
  induction forced generalizing more with
  | spent before =>
      cases more with
      | zero => rfl
      | succ more =>
          unfold forceFirst
          rw [exec_get_bind, ended rfl]
          rfl
  | done none_ =>
      obtain ⟨more, rfl⟩ := Nat.exists_eq_succ_of_ne_zero (Nat.ne_zero_of_lt enough)
      unfold forceFirst
      rw [exec_get_bind, none_]
      rfl
  | next first run rest ih =>
      obtain ⟨more, rfl⟩ := Nat.exists_eq_succ_of_ne_zero (Nat.ne_zero_of_lt enough)
      unfold forceFirst
      rw [exec_get_bind, first]
      simp only
      rw [exec_bind_ok run]
      exact ih ended (Nat.le_of_succ_le_succ enough)
  | failed first run =>
      obtain ⟨more, rfl⟩ := Nat.exists_eq_succ_of_ne_zero (Nat.ne_zero_of_lt enough)
      unfold forceFirst
      rw [exec_get_bind, first]
      simp only
      rw [exec_bind_error run]

/-- Any larger count than the bound on the work would do to convert all deferred fields. -/
theorem exec_forceFirst_of_le {count : Nat} (enough : workBound scope before ≤ count)
    : exec (forceFirst int64 scope count) before = exec (materialize int64 scope) before := by
  refine (exec_materialize before).stable (fun success => ?_) enough
  exact materialize_ok (exec_eq_of_ok success)

theorem exec_materialize_alike (alike : Scope.Alike scope rival)
    : exec (materialize int64 rival) before = exec (materialize int64 scope) before := by
  have left := @exec_forceFirst_of_le int64 rival before
    (max (workBound rival before) (workBound scope before)) (Nat.le_max_left _ _)
  have right := @exec_forceFirst_of_le int64 scope before
    (max (workBound rival before) (workBound scope before)) (Nat.le_max_right _ _)
  rw [← left, ← right, forceFirst_alike alike]

/-- Some type is registered under the name. -/
def Progress.Knows (progress : Progress) (name : String) : Prop :=
  ∃ reference, progress.reference? name = some reference

theorem resolveNode_skips (node : Node) (progress : Progress) (known : progress.Knows node.name)
    : exec (discard (resolveNode node)) progress = (.ok ⟨⟩, progress) := by
  obtain ⟨reference, known⟩ := known
  unfold resolveNode
  rw [exec_discard, exec_get_bind, known]
  rfl

theorem resolveNode_marks (node : Node) (progress last : Progress)
    (run : exec (discard (resolveNode node)) progress = (.ok ⟨⟩, last))
    : last.Knows node.name ∧ ∀ name, progress.Knows name → last.Knows name := by
  have allowed : Request.listed.Allows { catalog := {}, listed := [node] } (.node node) :=
    .listed (List.mem_singleton_self node)
  have serves : Serves .text _ .listed progress (fun _ last => last.Knows node.name)
      (exec (discard (resolveNode node)) progress) :=
    (resolveNode_serves allowed progress).discard fun reference _ result => ⟨reference, result.1⟩
  rw [run] at serves
  cases serves with
  | ok steps registered =>
      exact ⟨registered, fun name known => known.imp (Registers.keeps steps name)⟩

/-- Building registers the first type of each name; later ones are found registered. -/
theorem exec_build_firsts (scope : Scope) (progress : Progress)
    : exec (build scope.firsts) progress = exec (build scope) progress :=
  Scope.exec_forM_firsts resolveNode_skips resolveNode_marks scope progress

theorem convert_firsts (int64 : Integer64) (scope : Scope)
    : convert int64 scope.firsts = convert int64 scope := by
  rw [convert_eq, convert_eq, conversion, conversion, exec_bind, exec_bind, exec_build_firsts]
  simp only [exec_schemas, exec_materialize_alike scope.alike_firsts]

end ProtoSchema.GraphQL

namespace ProtoSchema.TypeScript

open Schema
open Execution

variable {style : CommentStyle} {int64 : Integer64} {scope rival : Scope}

section

variable (alike : Scope.Alike scope rival)

include alike

theorem isListed_alike (name : String) : isListed rival name = isListed scope name := by
  have names (scope : Scope)
      : isListed scope name = (scope.listed.map Node.name).any (· = name) := by
    rw [isListed, List.any_map]
    rfl
  rw [names, names, alike.listed]

theorem referenceName_alike : referenceName rival = referenceName scope := by
  funext reference
  have listed := isListed_alike alike
  simp only [isListed] at listed
  simp only [referenceName, alike.find?, alike.knownNames, listed]

theorem fieldType_alike : fieldType style int64 rival = fieldType style int64 scope := by
  funext message field
  have base : baseType int64 rival = baseType int64 scope := by
    funext type
    simp only [baseType, referenceName_alike alike]
  have plain : plainProperty style int64 rival = plainProperty style int64 scope := by
    funext inner
    simp only [plainProperty, base]
  simp only [fieldType, declareEntry, plain, base]

theorem declare_alike : declare style int64 rival = declare style int64 scope := by
  funext node
  have property : slotProperty style int64 rival = slotProperty style int64 scope := by
    funext message slot
    simp only [slotProperty, fieldType_alike alike]
  simp only [declare, declaration, property]

end

theorem declare_skips (node : Node) (progress : Progress)
    (known : node.name ∈ progress.registry.keys)
    : exec (declare style int64 scope node) progress = (.ok ⟨⟩, progress) := by
  rw [declare, exec_get_bind, if_pos (Progress.contains_iff.mpr known), exec_pure]

theorem declare_marks (node : Node) (progress last : Progress)
    (run : exec (declare style int64 scope node) progress = (.ok ⟨⟩, last))
    : node.name ∈ last.registry.keys
      ∧ ∀ name, name ∈ progress.registry.keys → name ∈ last.registry.keys := by
  obtain ⟨_, rfl⟩ := exec_declare_ok.mp run
  rw [Progress.keys_addNode]
  exact ⟨mem_declareName, declareName_subset _ node⟩

/-- The first type of each name is declared; later ones are found declared. -/
theorem convert_firsts (style : CommentStyle) (int64 : Integer64) (scope : Scope)
    : convert style int64 scope.firsts = convert style int64 scope := by
  have built : exec (build style int64 scope.firsts) {} = exec (build style int64 scope) {} := by
    rw [build, declare_alike scope.alike_firsts]
    exact @Scope.exec_forM_firsts _ _ (declare style int64 scope)
      (fun (progress : Progress) name => name ∈ progress.registry.keys)
      declare_skips declare_marks scope {}
  rw [exec, exec] at built
  rw [convert, convert, built]

end ProtoSchema.TypeScript
