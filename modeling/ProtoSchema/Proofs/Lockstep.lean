import Mathlib.Data.List.Forall2
import ProtoSchema.OrderedMap
import ProtoSchema.Proofs.Execution

/-! Two runs side by side. They run in lockstep if, from related states, they fail with the same
error or give related results, and leave related states in both cases. Whole computations run in
lockstep once their parts do; what they build up, lists and maps, then corresponds entry by entry.
-/

namespace ProtoSchema

/-- Two lists belong to a third one, item by item. -/
inductive SideBySide {α β γ : Type} (Related : α → β → γ → Prop)
    : List α → List β → List γ → Prop
  | nil : SideBySide Related [] [] []
  | cons {item : α} {left : β} {right : γ} {items : List α} {lefts : List β} {rights : List γ}
    (head : Related item left right) (tail : SideBySide Related items lefts rights)
    : SideBySide Related (item :: items) (left :: lefts) (right :: rights)

/-- What belongs to changed items belongs to the items, by induction on these. -/
theorem SideBySide.of_change {α β γ δ : Type} {Related : α → β → γ → Prop} {change : δ → α}
    {items : List δ} {lefts : List β} {rights : List γ}
    (all : SideBySide (fun item => Related (change item)) items lefts rights)
    : SideBySide Related (items.map change) lefts rights := by
  induction all with
  | nil => exact .nil
  | cons head _ ih => exact .cons head ih

/-- Values that are computed from items belong to what is related to these. -/
theorem SideBySide.of_forall₂ {α β γ : Type} {Related : α → β → Prop} {Shared : α → β → γ → Prop}
    {items : List α} {values : List β} (compute : α → γ)
    (all : List.Forall₂ Related items values)
    (shared
      : ∀ item ∈ items, ∀ value, Related item value → Shared item value (compute item))
    : SideBySide Shared items values (items.map compute) := by
  induction all with
  | nil => exact .nil
  | cons head _ ih =>
      obtain ⟨first, others⟩ := List.forall_mem_cons.mp shared
      exact .cons (first _ head) (ih others)

/-- What belongs to items is computed from them if it always is for a single one. -/
theorem SideBySide.eq_map {α β γ : Type} {Related : α → β → γ → Prop} {compute : α → γ}
    {items : List α} {lefts : List β} {rights : List γ}
    (all : SideBySide Related items lefts rights)
    (each : ∀ item left right, Related item left right → right = compute item)
    : rights = items.map compute := by
  induction all with
  | nil => rfl
  | cons head _ ih => rw [List.map_cons, ih, each _ _ _ head]

-----------------------------------------------------------------------------------------
-- Maps
-----------------------------------------------------------------------------------------

/-- Entries of two maps belong together: they have the same key and related values. -/
def MatchingEntry {α : Type} (Related : String → α → α → Prop) (left right : String × α) : Prop :=
  left.1 = right.1 ∧ Related left.1 left.2 right.2

/-- Two maps have the same keys in the same order, and related values under them. -/
def OrderedMap.Matches {α : Type} (Related : String → α → α → Prop) (left right : OrderedMap α)
    : Prop :=
  List.Forall₂ (MatchingEntry Related) left.entries right.entries

/-- Two maps have nothing under a key, or related values. -/
inductive MatchingValue {α : Type} (Related : α → α → Prop) : Option α → Option α → Prop
  | absent : MatchingValue Related none none
  | present {left right : α} (related : Related left right)
    : MatchingValue Related (some left) (some right)

section Maps

variable {α : Type} {Related : String → α → α → Prop}

theorem Entries.matches_get? {left right : Entries α}
    (all : List.Forall₂ (MatchingEntry Related) left right) (key : String)
    : MatchingValue (Related key) (left.get? key) (right.get? key) := by
  induction all with
  | nil => exact .absent
  | @cons first second _ _ head tail ih =>
      obtain ⟨same, related⟩ := head
      rw [Entries.get?, Entries.get?, ← same]
      split
      · next found => exact .present (found ▸ related)
      · exact ih

/-- Related values under one key keep entries matching, by induction on the entries. -/
theorem Entries.matches_insert {left right : Entries α} {key : String} {first second : α}
    (all : List.Forall₂ (MatchingEntry Related) left right) (related : Related key first second)
    : List.Forall₂ (MatchingEntry Related) (left.insert key first) (right.insert key second) := by
  induction all with
  | nil => exact .cons ⟨rfl, related⟩ .nil
  | @cons one other _ _ head tail ih =>
      rw [Entries.insert, Entries.insert, ← head.1]
      split
      · exact .cons ⟨rfl, related⟩ tail
      · exact .cons head ih

/-- Changes that relate the values of one key keep entries matching, by induction on the entries. -/
theorem Entries.matches_modify {left right : Entries α} {key : String} {change other : α → α}
    (all : List.Forall₂ (MatchingEntry Related) left right)
    (step
      : ∀ first second,
          (key, first) ∈ left
          → Related key first second
          → Related key (change first) (other second))
    : List.Forall₂ (MatchingEntry Related) (left.modify key change) (right.modify key other) := by
  induction all with
  | nil => exact .nil
  | @cons one rival rest others head tail ih =>
      have changed : MatchingEntry Related (if one.1 = key then (one.1, change one.2) else one)
          (if rival.1 = key then (rival.1, other rival.2) else rival) := by
        rw [← head.1]
        split
        · next same =>
            subst same
            exact ⟨rfl, step one.2 rival.2 List.mem_cons_self head.2⟩
        · exact head
      exact .cons changed (ih fun first second member =>
        step first second (List.mem_cons_of_mem one member))

namespace OrderedMap

theorem Matches.get? {left right : OrderedMap α} (all : left.Matches Related right) (key : String)
    : MatchingValue (Related key) (left.get? key) (right.get? key) :=
  Entries.matches_get? all key

theorem Matches.insert {left right : OrderedMap α} {key : String} {first second : α}
    (all : left.Matches Related right) (related : Related key first second)
    : (left.insert key first).Matches Related (right.insert key second) :=
  Entries.matches_insert all related

theorem Matches.modify {left right : OrderedMap α} {key : String} {change other : α → α}
    (all : left.Matches Related right)
    (step
      : ∀ first second,
          left.get? key = some first
          → Related key first second
          → Related key (change first) (other second))
    : (left.modify key change).Matches Related (right.modify key other) :=
  Entries.matches_modify all fun first second member =>
    step first second (mem_entries_iff.mp member)

end OrderedMap

end Maps

namespace Execution

variable {ε σ α β : Type}

-----------------------------------------------------------------------------------------
-- Computations
-----------------------------------------------------------------------------------------

/-- The outcomes of two runs agree: both failed with the same error, or they gave related results;
and they left related states.
-/
inductive Agree (States : σ → σ → Prop) (Results : α → α → Prop)
    : Except ε α × σ → Except ε α × σ → Prop
  | ok {first second : α} {left right : σ} (results : Results first second)
    (states : States left right)
    : Agree States Results (.ok first, left) (.ok second, right)
  | error (error : ε) {left right : σ} (states : States left right)
    : Agree States Results (.error error, left) (.error error, right)

/-- Two computations run in lockstep: from related states, their outcomes agree. -/
def Lockstep (States : σ → σ → Prop) (Results : α → α → Prop)
    (first second : ExceptT ε (StateM σ) α)
    : Prop :=
  ∀ left right, States left right → Agree States Results (exec first left) (exec second right)

variable {States : σ → σ → Prop} {Results : α → α → Prop} {More : β → β → Prop}
  {first second : ExceptT ε (StateM σ) α}

theorem Lockstep.of_pure {one other : α} (results : Results one other)
    : Lockstep (ε := ε) States Results (pure one) (pure other) :=
  fun _ _ states => .ok results states

theorem Lockstep.of_throw (error : ε)
    : Lockstep States Results (throw error : ExceptT ε (StateM σ) α) (throw error) :=
  fun _ _ states => .error error states

theorem Lockstep.of_modify {change other : σ → σ}
    (step : ∀ left right, States left right → States (change left) (other right))
    : Lockstep States Eq (modify change : ExceptT ε (StateM σ) PUnit) (modify other) :=
  fun left right states => .ok rfl (step left right states)

/-- Results may be related by what follows from their relation. -/
theorem Agree.imp {Weaker : α → α → Prop} {one other : Except ε α × σ}
    (agree : Agree States Results one other)
    (weaken : ∀ first second, Results first second → Weaker first second)
    : Agree States Weaker one other := by
  cases agree with
  | ok results states => exact .ok (weaken _ _ results) states
  | error error states => exact .error error states

/-- Outcomes that agree are continued alike, by cases on them. What follows may depend on what the
first of the runs did.
-/
theorem Agree.andThen {next other : α → ExceptT ε (StateM σ) β} {left right : σ}
    (head : Agree States Results (exec first left) (exec second right))
    (tail
      : ∀ {one rival : α} {middle after : σ},
          exec first left = (.ok one, middle)
          → Results one rival
          → States middle after
          → Agree States More (exec (next one) middle) (exec (other rival) after))
    : Agree States More (exec (first >>= next) left) (exec (second >>= other) right) := by
  rw [exec_bind, exec_bind]
  cases run : exec first left with
  | mk outcome middle =>
      rw [run] at head
      generalize exec second right = rival at head
      cases head with
      | ok results states => exact tail run results states
      | error error states => exact .error error states

theorem Agree.bind {next other : α → ExceptT ε (StateM σ) β} {left right : σ}
    (head : Agree States Results (exec first left) (exec second right))
    (tail : ∀ one rival, Results one rival → Lockstep States More (next one) (other rival))
    : Agree States More (exec (first >>= next) left) (exec (second >>= other) right) :=
  head.andThen fun _ results states => tail _ _ results _ _ states

theorem Lockstep.bind {next other : α → ExceptT ε (StateM σ) β}
    (head : Lockstep States Results first second)
    (tail : ∀ one rival, Results one rival → Lockstep States More (next one) (other rival))
    : Lockstep States More (first >>= next) (second >>= other) :=
  fun left right states => (head left right states).bind tail

theorem Lockstep.map {change other : α → β} (head : Lockstep States Results first second)
    (results : ∀ one rival, Results one rival → More (change one) (other rival))
    : Lockstep States More (first >>= fun value => pure (change value))
        (second >>= fun value => pure (other value)) :=
  head.bind fun one rival related => .of_pure (results one rival related)

/-- A computation that begins by reading the state runs in lockstep if what follows does in each
pair of related states.
-/
theorem Lockstep.of_get {next other : σ → ExceptT ε (StateM σ) α}
    (tail
      : ∀ left right,
          States left right
          → Agree States Results (exec (next left) left) (exec (other right) right))
    : Lockstep States Results (get >>= next) (get >>= other) := by
  intro left right states
  rw [exec_get_bind, exec_get_bind]
  exact tail left right states

/-- Runs over a list go in lockstep if those over its items do, by induction on the list. -/
theorem Lockstep.mapM {Results : α → β → β → Prop} {pass other : α → ExceptT ε (StateM σ) β}
    {items : List α}
    (each : ∀ item ∈ items, Lockstep States (Results item) (pass item) (other item))
    : Lockstep States (SideBySide Results items) (items.mapM pass) (items.mapM other) := by
  induction items with
  | nil =>
      rw [List.mapM_nil, List.mapM_nil]
      exact .of_pure .nil
  | cons item rest ih =>
      rw [List.mapM_cons, List.mapM_cons]
      refine (each item List.mem_cons_self).bind fun one rival head => ?_
      have tail := ih fun item member => each item (List.mem_cons_of_mem _ member)
      exact tail.map fun lefts rights all => .cons head all

/-- The same for runs whose items have no results. -/
theorem Lockstep.forM {pass other : α → ExceptT ε (StateM σ) PUnit} {items : List α}
    (each : ∀ item ∈ items, Lockstep States Eq (pass item) (other item))
    : Lockstep States Eq (items.forM pass) (items.forM other) := by
  induction items with
  | nil => exact .of_pure rfl
  | cons item rest ih =>
      have unfolded (pass : α → ExceptT ε (StateM σ) PUnit)
          : (item :: rest).forM pass = pass item >>= fun _ => rest.forM pass := rfl
      rw [unfolded, unfolded]
      refine (each item List.mem_cons_self).bind fun _ _ _ => ?_
      exact ih fun item member => each item (List.mem_cons_of_mem _ member)

end Execution

end ProtoSchema
