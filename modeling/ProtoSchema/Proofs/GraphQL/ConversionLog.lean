import ProtoSchema.Proofs.GraphQL.Calls

/-! Conversions that keep a log of the messages whose fields they convert. They are the same programs
as those without a log, run in another monad; apart from the log, they do the same.
-/

namespace ProtoSchema.GraphQL

open Schema
open Execution

variable {α β : Type} {int64 : Integer64} {scope : Scope} {progress : Progress}

/-- A computation that advances the conversion, may fail, and keeps a log: the messages whose fields
were converted, one for each time.
-/
abbrev Logged :=
  ExceptT ConversionError (StateM (Progress × List Message))

instance : MonadStateOf Progress Logged where
  get := do pure (← getThe (Progress × List Message)).1
  set progress := modifyThe (Progress × List Message) fun state => (progress, state.2)
  modifyGet change :=
    modifyGetThe (Progress × List Message) fun state =>
      ((change state.1).1, (change state.1).2, state.2)

instance : MonadConversion Logged where
  converting message conversion := do
    modifyThe (Progress × List Message) fun state => (state.1, state.2 ++ [message])
    conversion

/-- The messages whose fields a computation converts, one for each time. -/
def Logged.conversions (logged : Logged α) (progress : Progress) : List Message :=
  (exec logged (progress, [])).2.2

/-- The messages whose fields are converted after an outcome, none after an error. -/
def Logged.conversionsAfter (next : α → Logged β)
    : Except ConversionError α × Progress → List Message
  | (.ok value, middle) => (next value).conversions middle
  | (.error _, _) => []

/-- Apart from the log, the first computation does what the second one does. -/
def Erases (logged : Logged α) (plain : Pass α) : Prop :=
  ∀ progress log,
    exec logged (progress, log)
    = ((exec plain progress).1, (exec plain progress).2, log ++ logged.conversions progress)

/-- The first computation does what the second one does and converts no fields. -/
def Silent (logged : Logged α) (plain : Pass α) : Prop :=
  ∀ progress log,
    exec logged (progress, log) = ((exec plain progress).1, (exec plain progress).2, log)

-----------------------------------------------------------------------------------------
-- Rules
-----------------------------------------------------------------------------------------

section

variable {logged : Logged α} {plain : Pass α} {next : α → Logged β} {other : α → Pass β}

/-- What a computation adds to the log is what it converts. -/
theorem erases_of_appends (messages : Progress → List Message)
    (appends
      : ∀ progress log,
          exec logged (progress, log)
          = ((exec plain progress).1, (exec plain progress).2, log ++ messages progress))
    : Erases logged plain ∧ ∀ progress, logged.conversions progress = messages progress := by
  have same (progress : Progress) : logged.conversions progress = messages progress := by
    rw [Logged.conversions, appends, List.nil_append]
  refine ⟨fun progress log => ?_, same⟩
  rw [appends, same]

theorem Silent.appends (silent : Silent logged plain)
    : Erases logged plain ∧ ∀ progress, logged.conversions progress = [] := by
  apply erases_of_appends
  intro progress log
  rw [silent, List.append_nil]

theorem Silent.erases (silent : Silent logged plain) : Erases logged plain :=
  silent.appends.1

theorem Silent.conversions (silent : Silent logged plain) (progress : Progress)
    : logged.conversions progress = [] :=
  silent.appends.2 progress

theorem Silent.pure (value : α) : Silent (pure value) (pure value) :=
  fun _ _ => rfl

theorem Silent.throw (error : ConversionError) : Silent (throw error : Logged α) (throw error) :=
  fun _ _ => rfl

theorem Silent.get : Silent get get :=
  fun _ _ => rfl

theorem Silent.set (progress : Progress) : Silent (set progress) (set progress) :=
  fun _ _ => rfl

theorem Silent.modify (change : Progress → Progress) : Silent (modify change) (modify change) :=
  fun _ _ => rfl

/-- Two parts that convert no fields convert none one after the other, by cases on the outcome of
the first.
-/
theorem Silent.bind (head : Silent logged plain) (tail : ∀ value, Silent (next value) (other value))
    : Silent (logged >>= next) (plain >>= other) := by
  intro progress log
  rw [exec_bind, exec_bind, head]
  cases exec plain progress with
  | mk result middle =>
      cases result with
      | error error => rfl
      | ok value => exact tail value middle log

/-- What a part adds to the log comes before what the next one adds, by cases on the outcome of the
first.
-/
theorem appends_bind (head : Erases logged plain)
    (tail : ∀ value, Erases (next value) (other value))
    : Erases (logged >>= next) (plain >>= other)
      ∧ ∀ progress,
          (logged >>= next).conversions progress
          = logged.conversions progress
            ++ Logged.conversionsAfter next (exec plain progress) := by
  apply erases_of_appends
  intro progress log
  rw [exec_bind, exec_bind, head]
  cases exec plain progress with
  | mk result middle =>
      cases result with
      | error error => simp [Logged.conversionsAfter]
      | ok value => rw [Logged.conversionsAfter, ← List.append_assoc, ← tail]

theorem Erases.bind (head : Erases logged plain)
    (tail : ∀ value, Erases (next value) (other value))
    : Erases (logged >>= next) (plain >>= other) :=
  (appends_bind head tail).1

/-- After a part that converts no fields, only the next one does. -/
theorem Silent.conversions_bind (head : Silent logged plain) (progress : Progress)
    : (logged >>= next).conversions progress
      = Logged.conversionsAfter next (exec plain progress) := by
  rw [Logged.conversions, exec_bind, head]
  cases exec plain progress with
  | mk result middle => cases result <;> rfl

/-- Before a part that converts no fields, only the first one does; by cases on its outcome. -/
theorem Erases.bind_silent (head : Erases logged plain)
    (tail : ∀ value, Silent (next value) (other value))
    : Erases (logged >>= next) (plain >>= other)
      ∧ ∀ progress, (logged >>= next).conversions progress = logged.conversions progress := by
  obtain ⟨erases, conversions⟩ := appends_bind head fun value => (tail value).erases
  refine ⟨erases, fun progress => ?_⟩
  rw [conversions]
  cases exec plain progress with
  | mk result middle =>
      cases result with
      | error error => exact List.append_nil _
      | ok value => rw [Logged.conversionsAfter, (tail value).conversions, List.append_nil]

theorem Silent.discard (silent : Silent logged plain)
    : Silent (discard logged) (discard plain) := by
  intro progress log
  rw [exec_discard, exec_discard, silent]

theorem Erases.discard (erases : Erases logged plain)
    : Erases (discard logged) (discard plain)
      ∧ ∀ progress, (discard logged).conversions progress = logged.conversions progress := by
  apply erases_of_appends
  intro progress log
  rw [exec_discard, exec_discard, erases]

end

/-- Parts that convert no fields convert none in a row, by induction on the list. -/
theorem Silent.mapM {part : α → Logged β} {other : α → Pass β}
    (each : ∀ item, Silent (part item) (other item)) (items : List α)
    : Silent (items.mapM part) (items.mapM other) := by
  induction items with
  | nil => exact .pure []
  | cons item rest ih =>
      rw [List.mapM_cons, List.mapM_cons]
      exact (each item).bind fun value => ih.bind fun values => .pure (value :: values)

theorem Silent.forM {part : α → Logged PUnit} {other : α → Pass PUnit}
    (each : ∀ item, Silent (part item) (other item)) (items : List α)
    : Silent (items.forM part) (items.forM other) := by
  induction items with
  | nil => exact .pure PUnit.unit
  | cons item rest ih => exact (each item).bind fun _ => ih

-----------------------------------------------------------------------------------------
-- What converts no fields
-----------------------------------------------------------------------------------------

theorem silent_register (name : String) (type : NamedType)
    : Silent (register name type) (register name type) := by
  unfold register
  refine .bind .get fun progress => ?_
  cases progress.register name type with
  | ok next => exact .bind (.set next) fun _ => .pure _
  | error error => exact .throw error

theorem silent_resolveNode (node : Node) : Silent (resolveNode node) (resolveNode node) := by
  unfold resolveNode
  refine .bind .get fun progress => ?_
  cases progress.reference? node.name with
  | some reference => exact .pure reference
  | none =>
      cases node with
      | enumeration content => exact silent_register _ _
      | message content =>
          exact (silent_register _ _).bind fun reference =>
            .bind (.modify _) fun _ => .pure reference

theorem silent_resolve (reference : String)
    : Silent (resolve scope reference) (resolve scope reference) := by
  unfold resolve
  refine .bind .get fun progress => ?_
  cases progress.reference? (Name.dropLeadingDots reference) with
  | some type => exact .pure type
  | none =>
      simp only
      cases scope.find? (Name.dropLeadingDots reference) with
      | some node => exact silent_resolveNode node
      | none => exact .throw _

theorem silent_fieldType (message : Message) (field : Field)
    : Silent (fieldType int64 scope message field) (fieldType int64 scope message field) := by
  have base : Silent (baseType int64 scope message field) (baseType int64 scope message field) := by
    unfold baseType
    cases field.mapKey with
    | some key => exact silent_resolveNode _
    | none =>
        cases field.type with
        | scalar kind => exact .pure _
        | named reference => exact silent_resolve reference
  exact base.bind fun type => .pure _

theorem silent_groupType (message : Message) (group : String)
    : Silent (groupType int64 scope message group) (groupType int64 scope message group) := by
  have memberType (member : String)
      : Silent (memberType int64 scope message group member)
          (memberType int64 scope message group member) := by
    unfold GraphQL.memberType
    cases message.field? member with
    | some field => exact silent_fieldType message field
    | none => exact .throw _
  unfold groupType
  refine .bind .get fun progress => ?_
  cases progress.reference? (groupName message group) with
  | some reference => exact .pure reference
  | none => exact (Silent.mapM memberType _).bind fun members => silent_register _ _

theorem silent_slotField (message : Message) (slot : Message.Slot)
    : Silent (slotField int64 scope message slot) (slotField int64 scope message slot) := by
  cases slot with
  | single field => exact (silent_fieldType message field).bind fun type => .pure _
  | group group => exact (silent_groupType message group).bind fun type => .pure _

theorem silent_build : Silent (build scope) (build scope) :=
  .forM (fun node => (silent_resolveNode node).discard) scope.listed

-----------------------------------------------------------------------------------------
-- What converts fields
-----------------------------------------------------------------------------------------

/-- Converting the fields of a message is one conversion, whether it succeeds or not. -/
theorem appends_messageFields (message : Message)
    : Erases (messageFields int64 scope message) (messageFields int64 scope message)
      ∧ ∀ progress,
          (messageFields int64 scope message : Logged _).conversions progress = [message] := by
  apply erases_of_appends
  intro progress log
  have silent : Silent (message.slots.mapM (slotField int64 scope message))
      (message.slots.mapM (slotField int64 scope message)) :=
    .mapM (silent_slotField message) message.slots
  exact silent progress (log ++ [message])

theorem erases_force (name : String)
    : Erases (force int64 scope name) (force int64 scope name) := by
  unfold force
  refine .bind Silent.get.erases fun progress => ?_
  cases progress.deferred.get? name with
  | none => exact (Silent.pure _).erases
  | some message =>
      refine .bind (Silent.modify _).erases fun _ => ?_
      exact .bind (appends_messageFields message).1 fun fields => (Silent.modify _).erases

/-- Forcing a name converts the fields that are deferred under it. -/
theorem conversions_force (name : String) (progress : Progress)
    : (force int64 scope name : Logged Unit).conversions progress
      = (progress.deferred.get? name).toList := by
  unfold force
  rw [Silent.get.conversions_bind, exec_get, Logged.conversionsAfter]
  cases progress.deferred.get? name with
  | none => rfl
  | some message =>
      simp only
      rw [(Silent.modify _).conversions_bind, exec_modify, Logged.conversionsAfter]
      obtain ⟨erases, conversions⟩ := @appends_messageFields int64 scope message
      rw [(erases.bind_silent fun fields => Silent.modify _).2, conversions]
      rfl

theorem erases_forceFirst (count : Nat)
    : Erases (forceFirst int64 scope count) (forceFirst int64 scope count) := by
  induction count with
  | zero => exact (Silent.pure _).erases
  | succ count ih =>
      unfold forceFirst
      refine .bind Silent.get.erases fun progress => ?_
      cases progress.deferred.keys.head? with
      | none => exact (Silent.pure _).erases
      | some name => exact (erases_force name).bind fun _ => ih

@[simp] theorem conversions_forceFirst_zero (progress : Progress)
    : (forceFirst int64 scope 0 : Logged Unit).conversions progress = [] :=
  rfl

/-- Forcing the first names converts the fields under the first one, and then what is forced next if
this succeeds.
-/
theorem conversions_forceFirst_succ (count : Nat) (progress : Progress)
    : (forceFirst int64 scope (count + 1) : Logged Unit).conversions progress
      = match progress.deferred.keys.head? with
        | none => []
        | some name =>
            (progress.deferred.get? name).toList
            ++ Logged.conversionsAfter (fun _ => forceFirst int64 scope count)
                (exec (force int64 scope name) progress) := by
  rw [forceFirst, Silent.get.conversions_bind, exec_get, Logged.conversionsAfter]
  cases progress.deferred.keys.head? with
  | none => rfl
  | some name =>
      simp only
      rw [(appends_bind (erases_force name) fun _ => erases_forceFirst count).2, conversions_force]

theorem erases_materialize : Erases (materialize int64 scope) (materialize int64 scope) :=
  .bind Silent.get.erases fun progress => erases_forceFirst (workBound scope progress)

theorem conversions_materialize (progress : Progress)
    : (materialize int64 scope : Logged Unit).conversions progress
      = (forceFirst int64 scope (workBound scope progress) : Logged Unit).conversions progress :=
  Silent.get.conversions_bind progress

/-- Reading the fields of a message converts what forcing them does. -/
theorem appends_fields (reference : String)
    : Erases (fields int64 scope reference) (fields int64 scope reference)
      ∧ ∀ progress,
          (fields int64 scope reference : Logged _).conversions progress
          = (force int64 scope (Name.dropLeadingDots reference) : Logged Unit).conversions
              progress := by
  unfold fields
  refine (erases_force _).bind_silent fun _ => .bind .get fun progress => ?_
  cases (progress.registry.get? (Name.dropLeadingDots reference)).bind NamedType.fields? with
  | some fields => exact .pure fields
  | none => exact .throw _

/-- Printing the definitions converts what converting all deferred fields does. -/
theorem appends_schemas
    : Erases (schemas int64 scope) (schemas int64 scope)
      ∧ ∀ progress,
          (schemas int64 scope : Logged _).conversions progress
          = (materialize int64 scope : Logged _).conversions progress :=
  erases_materialize.bind_silent fun _ => .bind .get fun progress => .pure progress.definitions

-----------------------------------------------------------------------------------------
-- Calls
-----------------------------------------------------------------------------------------

/-- A call does the same with a log as without, by cases on the call. -/
theorem Call.erases (call : Call) : Erases (call.pass int64 scope) (call.pass int64 scope) := by
  cases call with
  | build => exact silent_build.erases
  | resolve reference => exact (silent_resolve reference).discard.erases
  | fields reference => exact (appends_fields reference).1.discard.1
  | materialize => exact erases_materialize
  | schemas => exact appends_schemas.1.discard.1

/-- The progress and the log after a call, which may have failed. -/
def Logged.after (int64 : Integer64) (scope : Scope) (state : Progress × List Message) (call : Call)
    : Progress × List Message :=
  (exec (call.pass int64 scope : Logged Unit) state).2

/-- The progress and the log after calls one after the other, any of which may have failed. -/
def Logged.afterCalls (int64 : Integer64) (scope : Scope) (state : Progress × List Message)
    (calls : List Call)
    : Progress × List Message :=
  calls.foldl (Logged.after int64 scope) state

/-- The log of calls on a new conversion: the messages whose fields they convert, one for each time.
-/
def conversionLog (int64 : Integer64) (scope : Scope) (calls : List Call) : List Message :=
  (Logged.afterCalls int64 scope ({}, []) calls).2

theorem Logged.after_eq (state : Progress × List Message) (call : Call)
    : Logged.after int64 scope state call
      = (call.after int64 scope state.1,
          state.2 ++ (call.pass int64 scope : Logged Unit).conversions state.1) :=
  congrArg Prod.snd (call.erases state.1 state.2)

/-- The log does not change what the calls leave, by induction on the calls. -/
theorem Logged.afterCalls_fst (state : Progress × List Message) (calls : List Call)
    : (Logged.afterCalls int64 scope state calls).1 = state.1.afterCalls int64 scope calls := by
  induction calls generalizing state with
  | nil => rfl
  | cons call rest ih =>
      refine (ih _).trans ?_
      rw [Logged.after_eq]
      rfl

end ProtoSchema.GraphQL
