import ProtoSchema.Proofs.Execution
import ProtoSchema.Schema.Catalog

/-! Listed types of one name. The first one is what every reference to the name denotes, so a list
in which each type is replaced by the first one of its name gives references the same meaning. A run
that handles each name once does the same for both lists.
-/

namespace ProtoSchema.Schema.Scope

open Execution

variable {scope rival : Scope}

/-- The first listed type that has the name of the given one. -/
def firstOf (scope : Scope) (node : Node) : Node :=
  (scope.listed.find? fun other => other.name = node.name).getD node

/-- The scope that lists the first type of each name in the place of all types of the name. -/
def firsts (scope : Scope) : Scope :=
  { scope with listed := scope.listed.map scope.firstOf }

/-- References denote the same in both scopes, the same types are listed as far as names tell, and
the same names are suggested for unknown ones.
-/
structure Alike (scope rival : Scope) : Prop where
  find? : ∀ reference, rival.find? reference = scope.find? reference
  listed : rival.listed.map Node.name = scope.listed.map Node.name
  catalog : rival.catalog = scope.catalog

theorem Alike.knownNames (alike : Alike scope rival) : rival.knownNames = scope.knownNames := by
  rw [Scope.knownNames, Scope.knownNames, alike.listed, alike.catalog]

-----------------------------------------------------------------------------------------
-- The first type of each name
-----------------------------------------------------------------------------------------

/-- The first item with one property is the first with another one that it has and that implies the
first property, by induction on the items.
-/
theorem find?_of_imp {α : Type} {items : List α} {item : α} {weak strong : α → Bool}
    (found : items.find? weak = some item) (holds : strong item = true)
    (implies : ∀ other, strong other = true → weak other = true)
    : items.find? strong = some item := by
  induction items with
  | nil => cases found
  | cons head rest ih =>
      cases early : weak head with
      | true =>
          rw [List.find?_cons_of_pos early] at found
          cases found
          rw [List.find?_cons_of_pos holds]
      | false =>
          rw [List.find?_cons_of_neg (by simp [early])] at found
          have skipped : ¬ strong head = true := fun late => by
            simp [implies head late] at early
          rw [List.find?_cons_of_neg skipped]
          exact ih found

theorem name_firstOf (scope : Scope) (node : Node) : (scope.firstOf node).name = node.name := by
  unfold firstOf
  cases found : scope.listed.find? fun other => other.name = node.name with
  | none => rfl
  | some other => simpa using List.find?_some found

theorem firstOf_eq (scope : Scope) {node other : Node} (named : node.name = other.name)
    (member : node ∈ scope.listed)
    : scope.firstOf node = scope.firstOf other := by
  have isSome : (scope.listed.find? fun other => other.name = node.name).isSome := by
    simpa using ⟨node, member, rfl⟩
  obtain ⟨first, found⟩ := Option.isSome_iff_exists.mp isSome
  rw [firstOf, firstOf, ← named, found]
  rfl

theorem firstOf_mem {node : Node} (member : node ∈ scope.listed)
    : scope.firstOf node ∈ scope.listed := by
  unfold firstOf
  cases found : scope.listed.find? fun other => other.name = node.name with
  | none => exact member
  | some other => exact List.mem_of_find?_eq_some found

/-- What is found on the list by a property that names decide is the first type of its name. -/
theorem find?_firsts_listed {holds : Node → Bool}
    (byName : ∀ first second, first.name = second.name → holds first = holds second)
    : scope.firsts.listed.find? holds = scope.listed.find? holds := by
  have same : holds ∘ scope.firstOf = holds :=
    funext fun node => byName _ node (scope.name_firstOf node)
  rw [firsts, List.find?_map, same]
  cases found : scope.listed.find? holds with
  | none => rfl
  | some node =>
      have first : (scope.listed.find? fun other => other.name = node.name) = some node := by
        refine find?_of_imp found (by simp) fun other named => ?_
        rw [byName other node (of_decide_eq_true named)]
        exact List.find?_some found
      rw [Option.map_some, firstOf, first]
      rfl

theorem alike_firsts (scope : Scope) : Alike scope scope.firsts where
  find? := by
    intro reference
    have byName := @find?_firsts_listed scope
      (fun node => node.name = Name.dropLeadingDots reference)
      fun first second named => by rw [named]
    have bySimple := @find?_firsts_listed scope
      (fun node => node.simpleName = Name.dropLeadingDots reference)
      fun first second named => by rw [Node.simpleName, Node.simpleName, named]
    rw [Scope.find?, Scope.find?, byName, bySimple]
    rfl
  listed := by
    rw [firsts, List.map_map]
    exact List.map_congr_left fun node _ => scope.name_firstOf node
  catalog := rfl

/-- In the scope of first types, listed types of one name are the same. -/
theorem firsts_unique {first second : Node} (left : first ∈ scope.firsts.listed)
    (right : second ∈ scope.firsts.listed) (named : first.name = second.name)
    : first = second := by
  obtain ⟨one, member, rfl⟩ := List.mem_map.mp left
  obtain ⟨other, _, rfl⟩ := List.mem_map.mp right
  rw [name_firstOf, name_firstOf] at named
  exact firstOf_eq scope named member

theorem mem_of_mem_firsts {node : Node} (member : node ∈ scope.firsts.listed)
    : node ∈ scope.listed := by
  obtain ⟨other, inside, rfl⟩ := List.mem_map.mp member
  exact firstOf_mem inside

-----------------------------------------------------------------------------------------
-- Runs that handle each name once
-----------------------------------------------------------------------------------------

/-- A listed type that no earlier one shares its name with is the first of its name. -/
theorem firstOf_eq_self {earlier rest : List Node} {node : Node}
    (listed : scope.listed = earlier ++ node :: rest)
    (fresh : ∀ other ∈ earlier, other.name ≠ node.name)
    : scope.firstOf node = node := by
  have none_ : (earlier.find? fun other => other.name = node.name) = none := by
    simpa [List.find?_eq_none] using fresh
  rw [firstOf, listed, List.find?_append, none_, Option.none_or,
    List.find?_cons_of_pos (by simp)]
  rfl

section

variable {ε σ : Type} {pass : Node → ExceptT ε (StateM σ) PUnit} {marked : σ → String → Prop}
  (skips : ∀ node state, marked state node.name → exec (pass node) state = (.ok ⟨⟩, state))
  (marks
    : ∀ node state last,
        exec (pass node) state = (.ok ⟨⟩, last)
        → marked last node.name ∧ ∀ name, marked state name → marked last name)

include skips marks

/-- A run that marks the names of the types that it handles and skips marked ones treats the rest
of the list like the first types of its names, by induction on the rest; the names of the earlier
types are marked.
-/
theorem exec_forM_firstOf (earlier rest : List Node) (state : σ)
    (listed : scope.listed = earlier ++ rest)
    (known : ∀ node ∈ earlier, marked state node.name)
    : exec ((rest.map scope.firstOf).forM pass) state = exec (rest.forM pass) state := by
  induction rest generalizing earlier state with
  | nil => rfl
  | cons node rest ih =>
      have head : exec (pass (scope.firstOf node)) state = exec (pass node) state := by
        by_cases again : ∃ other ∈ earlier, other.name = node.name
        · obtain ⟨other, member, named⟩ := again
          have old := known other member
          rw [named] at old
          rw [skips node state old, skips _ state ((scope.name_firstOf node).symm ▸ old)]
        · rw [firstOf_eq_self listed fun other member named => again ⟨other, member, named⟩]
      have unfolded (first : Node) (others : List Node)
          : (first :: others).forM pass = pass first >>= fun _ => others.forM pass := rfl
      rw [List.map_cons, unfolded, unfolded, exec_bind, exec_bind, head]
      cases run : exec (pass node) state with
      | mk result last =>
          cases result with
          | error error => rfl
          | ok value =>
              obtain ⟨own, kept⟩ := marks node state last run
              refine ih (earlier ++ [node]) last (by simp [listed]) fun other member => ?_
              rcases List.mem_append.mp member with old | new
              · exact kept _ (known other old)
              · rw [List.mem_singleton.mp new]
                exact own

/-- Such a run over the list is the run over the first types of its names. -/
theorem exec_forM_firsts (scope : Scope) (state : σ)
    : exec (scope.firsts.listed.forM pass) state = exec (scope.listed.forM pass) state :=
  exec_forM_firstOf skips marks [] scope.listed state rfl fun _ member =>
    absurd member List.not_mem_nil

end

end ProtoSchema.Schema.Scope
