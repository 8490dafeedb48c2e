/-! How a computation with a state runs: it gives an outcome and the state that it leaves, also
after an error. A run over a list is known once each of its steps is: where every step succeeds on
a condition, with a result of its own and a change of the state, so does the whole run.
-/

namespace ProtoSchema.Execution

variable {ε σ α β : Type}

/-- Runs a computation: its outcome and the state it leaves, also after an error. -/
def exec (pass : ExceptT ε (StateM σ) α) (state : σ) : Except ε α × σ :=
  pass.run.run state

@[simp] theorem exec_pure (value : α) (state : σ)
    : exec (pure value : ExceptT ε (StateM σ) α) state = (.ok value, state) :=
  rfl

@[simp] theorem exec_throw (error : ε) (state : σ)
    : exec (throw error : ExceptT ε (StateM σ) α) state = (.error error, state) :=
  rfl

@[simp] theorem exec_get (state : σ)
    : exec (get : ExceptT ε (StateM σ) σ) state = (.ok state, state) :=
  rfl

@[simp] theorem exec_set (next state : σ)
    : exec (set next : ExceptT ε (StateM σ) PUnit) state = (.ok ⟨⟩, next) :=
  rfl

@[simp] theorem exec_modify (change : σ → σ) (state : σ)
    : exec (modify change : ExceptT ε (StateM σ) PUnit) state = (.ok ⟨⟩, change state) :=
  rfl

/-- Binding continues after success and stops at an error, by cases on the outcome. -/
theorem exec_bind (pass : ExceptT ε (StateM σ) α) (next : α → ExceptT ε (StateM σ) β)
    (state : σ)
    : exec (pass >>= next) state
      = match exec pass state with
        | (.ok value, middle) => exec (next value) middle
        | (.error error, middle) => (.error error, middle) := by
  simp only [exec, ExceptT.run_bind, StateT.run_bind]
  cases outcome : pass.run.run state with
  | mk result middle => cases result <;> simp <;> rfl

/-- A bind whose first part succeeds runs on from the state that it left. -/
theorem exec_bind_ok {pass : ExceptT ε (StateM σ) α} {next : α → ExceptT ε (StateM σ) β}
    {state middle : σ} {value : α} (first : exec pass state = (.ok value, middle))
    : exec (pass >>= next) state = exec (next value) middle := by
  rw [exec_bind, first]

/-- A bind whose first part fails leaves the state of that part. -/
theorem exec_bind_error {pass : ExceptT ε (StateM σ) α} {next : α → ExceptT ε (StateM σ) β}
    {state middle : σ} {error : ε} (first : exec pass state = (.error error, middle))
    : exec (pass >>= next) state = (.error error, middle) := by
  rw [exec_bind, first]

theorem exec_get_bind (next : σ → ExceptT ε (StateM σ) β) (state : σ)
    : exec (get >>= next) state = exec (next state) state :=
  exec_bind_ok (exec_get state)

/-- The run of a computation that succeeds, with the state that it leaves. -/
theorem exec_eq_of_ok {pass : ExceptT ε (StateM σ) α} {state : σ} {value : α}
    (success : (exec pass state).1 = .ok value)
    : exec pass state = (.ok value, (exec pass state).2) :=
  Prod.ext success rfl

/-- Discarding a result keeps the state, by cases on the outcome. -/
theorem exec_discard (pass : ExceptT ε (StateM σ) α) (state : σ)
    : exec (discard pass) state
      = (Except.map (fun _ => ⟨⟩) (exec pass state).1, (exec pass state).2) := by
  have same : discard pass = pass >>= fun _ => pure PUnit.unit := by
    simp [discard, map_const]
  rw [same, exec_bind]
  cases outcome : exec pass state with
  | mk result middle => cases result <;> rfl

/-- A bind succeeds exactly when both of its parts do, one after the other. -/
theorem exec_bind_eq_ok {pass : ExceptT ε (StateM σ) α} {next : α → ExceptT ε (StateM σ) β}
    {state last : σ} {result : β}
    : exec (pass >>= next) state = (.ok result, last)
      ↔ ∃ value middle,
          exec pass state = (.ok value, middle)
          ∧ exec (next value) middle = (.ok result, last) := by
  rw [exec_bind]
  cases exec pass state with
  | mk outcome middle =>
      cases outcome with
      | error error => simp
      | ok value =>
          constructor
          · exact fun rest => ⟨value, middle, rfl, rest⟩
          · rintro ⟨_, _, same, rest⟩
            cases same
            exact rest

theorem exec_map_eq_ok {pass : ExceptT ε (StateM σ) α} {change : α → β} {state last : σ}
    {result : β}
    : exec (pass >>= fun value => pure (change value)) state = (.ok result, last)
      ↔ ∃ value, exec pass state = (.ok value, last) ∧ result = change value := by
  rw [exec_bind_eq_ok]
  constructor
  · rintro ⟨value, middle, first, rest⟩
    cases rest
    exact ⟨value, first, rfl⟩
  · rintro ⟨value, first, rfl⟩
    exact ⟨value, last, first, rfl⟩

/-- The same where the result does not depend on what the computation gives. -/
theorem exec_const_eq_ok {pass : ExceptT ε (StateM σ) PUnit} {value : β} {state last : σ}
    {result : β}
    : exec (pass >>= fun _ => pure value) state = (.ok result, last)
      ↔ exec pass state = (.ok ⟨⟩, last) ∧ result = value := by
  rw [exec_bind_eq_ok]
  constructor
  · rintro ⟨⟨⟩, middle, first, rest⟩
    cases rest
    exact ⟨first, rfl⟩
  · rintro ⟨first, rfl⟩
    exact ⟨⟨⟩, last, first, rfl⟩

-----------------------------------------------------------------------------------------
-- Runs over lists
-----------------------------------------------------------------------------------------

/-- Every item is accepted in the state that the items before it leave. -/
def Along (accepts : σ → α → Prop) (after : σ → α → σ) : σ → List α → Prop
  | _, [] => True
  | state, item :: rest => accepts state item ∧ Along accepts after (after state item) rest

theorem Along.append {accepts : σ → α → Prop} {after : σ → α → σ} {state : σ}
    {first second : List α}
    : Along accepts after state (first ++ second)
      ↔ Along accepts after state first ∧ Along accepts after (first.foldl after state) second := by
  induction first generalizing state with
  | nil => simp [Along]
  | cons item rest ih => simp only [List.cons_append, Along, ih, List.foldl_cons, and_assoc]

/-- Items that every state accepts are accepted one after the other. -/
theorem along_of_forall {accepts : σ → α → Prop} {after : σ → α → σ} {state : σ} {items : List α}
    (always : ∀ state, ∀ item ∈ items, accepts state item)
    : Along accepts after state items := by
  induction items generalizing state with
  | nil => exact trivial
  | cons item rest ih =>
      refine ⟨always state item List.mem_cons_self, ih fun state other member => ?_⟩
      exact always state other (List.mem_cons_of_mem item member)

/-- Where the state does not matter, it is each item that is accepted. -/
theorem along_iff_forall {accepts : α → Prop} {after : σ → α → σ} {state : σ} {items : List α}
    : Along (fun _ item => accepts item) after state items ↔ ∀ item ∈ items, accepts item := by
  induction items generalizing state with
  | nil => simp [Along]
  | cons item rest ih => simp [Along, ih]

/-- What holds at the start and is kept by accepted items holds at the end, by induction on the
items.
-/
theorem Along.preserves {accepts : σ → α → Prop} {after : σ → α → σ} {state : σ}
    {items : List α} (along : Along accepts after state items) (holds : σ → Prop)
    (step : ∀ state, ∀ item ∈ items, accepts state item → holds state → holds (after state item))
    (start : holds state)
    : holds (items.foldl after state) := by
  induction items generalizing state with
  | nil => exact start
  | cons item rest ih =>
      refine ih along.2 (fun state other member => ?_) ?_
      · exact step state other (List.mem_cons_of_mem item member)
      · exact step state item List.mem_cons_self along.1 start

/-- A run over a list succeeds exactly when its items are accepted one after the other, by
induction on the list.
-/
theorem exec_mapM_eq_ok {pass : α → ExceptT ε (StateM σ) β} {accepts : σ → α → Prop}
    {result : α → β} {after : σ → α → σ}
    (each
      : ∀ item state value last,
          exec (pass item) state = (.ok value, last)
          ↔ accepts state item ∧ value = result item ∧ last = after state item)
    (items : List α) {state last : σ} {values : List β}
    : exec (items.mapM pass) state = (.ok values, last)
      ↔ Along accepts after state items
        ∧ values = items.map result
        ∧ last = items.foldl after state := by
  induction items generalizing state last values with
  | nil => simp [Along, eq_comm]
  | cons item rest ih =>
      rw [List.mapM_cons, exec_bind_eq_ok]
      simp only [exec_map_eq_ok, each, ih, Along, List.map_cons, List.foldl_cons]
      constructor
      · rintro ⟨_, _, ⟨accepted, rfl, rfl⟩, _, ⟨along, rfl, rfl⟩, rfl⟩
        exact ⟨⟨accepted, along⟩, rfl, rfl⟩
      · rintro ⟨⟨accepted, along⟩, rfl, rfl⟩
        exact ⟨_, _, ⟨accepted, rfl, rfl⟩, _, ⟨along, rfl, rfl⟩, rfl⟩

/-- The same for a run whose items have no results. -/
theorem exec_forM_eq_ok {pass : α → ExceptT ε (StateM σ) PUnit} {accepts : σ → α → Prop}
    {after : σ → α → σ}
    (each
      : ∀ item state last,
          exec (pass item) state = (.ok ⟨⟩, last)
          ↔ accepts state item ∧ last = after state item)
    (items : List α) {state last : σ}
    : exec (items.forM pass) state = (.ok ⟨⟩, last)
      ↔ Along accepts after state items ∧ last = items.foldl after state := by
  induction items generalizing state last with
  | nil => simp [Along, eq_comm]
  | cons item rest ih =>
      have unfolded : (item :: rest).forM pass = pass item >>= fun _ => rest.forM pass := rfl
      rw [unfolded, exec_bind_eq_ok]
      simp only [ih, Along, List.foldl_cons]
      constructor
      · rintro ⟨⟨⟩, middle, first, along, rfl⟩
        obtain ⟨accepted, rfl⟩ := (each _ _ _).mp first
        exact ⟨⟨accepted, along⟩, rfl⟩
      · rintro ⟨⟨accepted, along⟩, rfl⟩
        exact ⟨⟨⟩, _, (each _ _ _).mpr ⟨accepted, rfl⟩, along, rfl⟩

end ProtoSchema.Execution
