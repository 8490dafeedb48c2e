import Mathlib.Tactic.SplitIfs
import ProtoSchema.Json.Parser
import ProtoSchema.Proofs.Outcome

/-! Objects that are read from text have no key twice: a later member takes the place of an earlier
one with its key. The parser keeps this of all that it has read so far, in the containers that are
still open as well.
-/

namespace ProtoSchema.Json

/-- No object in the value has a key twice. -/
inductive DistinctKeys : Json → Prop
  | null : DistinctKeys .null
  | bool (value : Bool) : DistinctKeys (.bool value)
  | integer (value : Int) : DistinctKeys (.integer value)
  | decimal (negative : Bool) (significand : Nat) (exponent : Int)
    : DistinctKeys (.decimal negative significand exponent)
  | text (value : String) : DistinctKeys (.text value)
  | array {items : List Json} (each : ∀ item ∈ items, DistinctKeys item)
    : DistinctKeys (.array items)
  | object {members : Entries Json} (keys : members.keys.Nodup)
    (each : ∀ entry ∈ members, DistinctKeys entry.2)
    : DistinctKeys (.object members)

/-- The members of an object without a key twice, at any depth. -/
structure DistinctMembers (members : Entries Json) : Prop where
  keys : members.keys.Nodup
  each : ∀ entry ∈ members, entry.2.DistinctKeys

theorem DistinctMembers.object {members : Entries Json} (distinct : DistinctMembers members)
    : (Json.object members).DistinctKeys :=
  .object distinct.keys distinct.each

theorem distinctMembers_nil : DistinctMembers [] :=
  ⟨List.nodup_nil, fun _ member => absurd member List.not_mem_nil⟩

theorem distinctMembers_cons {key : String} {value : Json} {rest : Entries Json}
    : DistinctMembers ((key, value) :: rest)
      ↔ key ∉ rest.keys ∧ value.DistinctKeys ∧ DistinctMembers rest := by
  constructor
  · rintro ⟨keys, each⟩
    obtain ⟨absent, others⟩ := List.nodup_cons.mp keys
    obtain ⟨first, later⟩ := List.forall_mem_cons.mp each
    exact ⟨absent, first, others, later⟩
  · rintro ⟨absent, first, others, later⟩
    exact ⟨List.nodup_cons.mpr ⟨absent, others⟩, List.forall_mem_cons.mpr ⟨first, later⟩⟩

/-- A member takes the place of the one with its key, or comes last. -/
theorem DistinctMembers.insert {members : Entries Json} (distinct : DistinctMembers members)
    (key : String) {value : Json} (inner : value.DistinctKeys)
    : DistinctMembers (members.insert key value) := by
  refine ⟨Entries.nodup_keys_insert distinct.keys key value, fun entry member => ?_⟩
  rcases Entries.mem_insert member with rfl | earlier
  · exact inner
  · exact distinct.each entry earlier

theorem DistinctKeys.members {value : Json} {members : Entries Json} (distinct : value.DistinctKeys)
    (found : value.members? = some members)
    : DistinctMembers members := by
  cases distinct with
  | object keys each =>
      cases found
      exact ⟨keys, each⟩
  | null | bool _ | integer _ | decimal _ _ _ | text _ | array _ => cases found

theorem distinctKeys_object_iff {members : Entries Json}
    : (Json.object members).DistinctKeys ↔ DistinctMembers members :=
  ⟨fun distinct => distinct.members rfl, DistinctMembers.object⟩

theorem DistinctMembers.get {members : Entries Json} {key : String} {value : Json}
    (distinct : DistinctMembers members) (found : members.get? key = some value)
    : value.DistinctKeys :=
  distinct.each _ (Entries.mem_of_get?_eq_some found)

/-- A number has no objects, by cases on where it ends. -/
theorem Numeral.Scan.finish_distinctKeys {scan : Numeral.Scan} {value : Json}
    (finished : scan.finish = .ok value)
    : value.DistinctKeys := by
  have integer : scan.integer.DistinctKeys := by
    unfold Numeral.Scan.integer
    split_ifs
    · exact .integer _
    · exact .decimal _ _ _
    · exact .integer _
  have decimal (exponent : Int) (value : Json) (written : scan.decimal exponent = .ok value)
      : value.DistinctKeys := by
    unfold Numeral.Scan.decimal at written
    split_ifs at written
    cases written
    exact .decimal _ _ _
  unfold Numeral.Scan.finish at finished
  cases phase : scan.phase with
  | zero | digits =>
      rw [phase] at finished
      cases finished
      exact integer
  | moreDigits | fraction | moreFraction | exponent _ _ =>
      rw [phase] at finished
      exact decimal _ value finished
  | vanishing =>
      rw [phase] at finished
      cases finished
      exact .decimal _ _ _
  | minus | point | exponentMark | exponentSign _ =>
      rw [phase] at finished
      cases finished

namespace Parser

/-- What was read of an open container has no key twice. -/
def Frame.DistinctKeys : Frame → Prop
  | .array items => ∀ item ∈ items, item.DistinctKeys
  | .object members _ => DistinctMembers members

/-- What was read of the innermost container, or of the value itself, has no key twice. -/
def Control.DistinctKeys : Control → Prop
  | .arrayItem items | .arrayEnd items => ∀ item ∈ items, item.DistinctKeys
  | .objectKey members | .colon members _ | .objectEnd members | .text (.key members) _ =>
      DistinctMembers members
  | .word _ read | .finished read => read.DistinctKeys
  | .value | .arrayStart | .objectStart | .number _ | .text .value _ => True

/-- Nothing that was read has a key twice. -/
structure State.DistinctKeys (state : State) : Prop where
  control : state.control.DistinctKeys
  frames : ∀ frame ∈ state.frames, frame.DistinctKeys

variable {frames : List Frame} {state next : State} {byte : UInt8}

/-- A value joins the container around it, by cases on the container. -/
theorem complete_distinctKeys {value : Json} (distinct : value.DistinctKeys)
    (around : ∀ frame ∈ frames, frame.DistinctKeys)
    : (complete value frames).DistinctKeys := by
  cases frames with
  | nil => exact ⟨distinct, around⟩
  | cons frame outer =>
      have inner : frame.DistinctKeys := around frame List.mem_cons_self
      have others (frame : Frame) (member : frame ∈ outer) : frame.DistinctKeys :=
        around frame (List.mem_cons_of_mem _ member)
      cases frame with
      | array items =>
          refine ⟨fun item member => ?_, others⟩
          rcases List.mem_cons.mp member with rfl | earlier
          · exact distinct
          · exact inner item earlier
      | object members key => exact ⟨inner.insert key distinct, others⟩

theorem openContainer_distinctKeys {control : Control}
    (opened : openContainer control frames = .ok next) (inner : control.DistinctKeys)
    (around : ∀ frame ∈ frames, frame.DistinctKeys)
    : next.DistinctKeys := by
  unfold openContainer at opened
  split_ifs at opened
  cases opened
  exact ⟨inner, around⟩

/-- The first byte of a value, by cases on the kind of value that it starts. -/
theorem startValue_distinctKeys (started : startValue frames byte = .ok next)
    (around : ∀ frame ∈ frames, frame.DistinctKeys)
    : next.DistinctKeys := by
  unfold startValue at started
  split_ifs at started
  · cases started
    exact ⟨.null, around⟩
  · cases started
    exact ⟨.bool true, around⟩
  · cases started
    exact ⟨.bool false, around⟩
  · cases started
    exact ⟨trivial, around⟩
  · exact openContainer_distinctKeys started trivial around
  · exact openContainer_distinctKeys started trivial around
  · split at started
    · cases started
      exact ⟨trivial, around⟩
    · cases started

/-- A byte that is no blank, by cases on what is expected. -/
theorem stepMark_distinctKeys {control : Control}
    (stepped : stepMark frames byte control = .ok next) (inner : control.DistinctKeys)
    (around : ∀ frame ∈ frames, frame.DistinctKeys)
    : next.DistinctKeys := by
  have inside (frame : Frame) (open_ : frame.DistinctKeys)
      : ∀ other ∈ frame :: frames, other.DistinctKeys := by
    intro other member
    rcases List.mem_cons.mp member with rfl | outer
    · exact open_
    · exact around other outer
  cases control with
  | value => exact startValue_distinctKeys stepped around
  | arrayStart =>
      rw [stepMark] at stepped
      split_ifs at stepped
      · cases stepped
        exact complete_distinctKeys (.array fun item member => nomatch member) around
      · exact startValue_distinctKeys stepped (inside (.array []) fun item member => nomatch member)
  | arrayItem items =>
      rw [stepMark] at stepped
      split_ifs at stepped
      exact startValue_distinctKeys stepped (inside (.array items) inner)
  | arrayEnd items =>
      rw [stepMark] at stepped
      split_ifs at stepped
      · cases stepped
        exact ⟨inner, around⟩
      · cases stepped
        refine complete_distinctKeys (.array fun item member => ?_) around
        exact inner item (List.mem_reverse.mp member)
  | objectStart =>
      rw [stepMark] at stepped
      split_ifs at stepped
      · cases stepped
        exact ⟨distinctMembers_nil, around⟩
      · cases stepped
        exact complete_distinctKeys distinctMembers_nil.object around
  | objectKey members =>
      rw [stepMark] at stepped
      split_ifs at stepped
      cases stepped
      exact ⟨inner, around⟩
  | colon members key =>
      rw [stepMark] at stepped
      split_ifs at stepped
      cases stepped
      exact ⟨trivial, inside (.object members key) inner⟩
  | objectEnd members =>
      rw [stepMark] at stepped
      split_ifs at stepped
      · cases stepped
        exact ⟨inner, around⟩
      · cases stepped
        exact complete_distinctKeys (DistinctMembers.object inner) around
  | word rest value =>
      cases rest with
      | nil =>
          cases stepped
          exact complete_distinctKeys inner around
      | cons expected rest =>
          rw [stepMark] at stepped
          split_ifs at stepped
          · cases stepped
            exact complete_distinctKeys inner around
          · cases stepped
            exact ⟨inner, around⟩
  | number scan => cases stepped
  | text role scan => cases stepped
  | finished result => cases stepped

theorem stepBetween_distinctKeys (stepped : stepBetween state byte = .ok next)
    (distinct : state.DistinctKeys)
    : next.DistinctKeys := by
  unfold stepBetween at stepped
  split_ifs at stepped
  · cases stepped
    exact distinct
  · exact stepMark_distinctKeys stepped distinct.control distinct.frames

/-- One byte keeps the keys distinct, by cases on whether it is read in a number, in a text or
between these.
-/
theorem step_distinctKeys (stepped : step state byte = .ok next) (distinct : state.DistinctKeys)
    : next.DistinctKeys := by
  obtain ⟨control, frames⟩ := state
  obtain ⟨inner, around⟩ := distinct
  cases control with
  | number scan =>
      obtain ⟨read, _, rest⟩ := Outcome.bind_eq_ok.mp stepped
      cases read with
      | some scan =>
          cases rest
          exact ⟨trivial, around⟩
      | none =>
          obtain ⟨value, finished, between⟩ := Outcome.bind_eq_ok.mp rest
          refine stepBetween_distinctKeys between (complete_distinctKeys ?_ around)
          exact Numeral.Scan.finish_distinctKeys finished
  | text role scan =>
      obtain ⟨read, _, rest⟩ := Outcome.bind_eq_ok.mp stepped
      cases read with
      | more scan =>
          cases rest
          cases role with
          | value => exact ⟨trivial, around⟩
          | key members => exact ⟨inner, around⟩
      | closed content =>
          cases role with
          | value =>
              cases rest
              exact complete_distinctKeys (.text content) around
          | key members =>
              cases rest
              exact ⟨inner, around⟩
  | value | arrayStart | arrayItem _ | arrayEnd _ | objectStart | objectKey _ | colon _ _
  | objectEnd _ | word _ _ | finished _ =>
      exact stepBetween_distinctKeys stepped ⟨inner, around⟩

theorem Control.finish_distinctKeys {control : Control} {value : Json}
    (finished : control.finish = .ok value) (distinct : control.DistinctKeys)
    : value.DistinctKeys := by
  cases control with
  | finished result =>
      cases finished
      exact distinct
  | value | arrayStart | arrayItem _ | arrayEnd _ | objectStart | objectKey _ | colon _ _
  | objectEnd _ | word _ _ | number _ | text _ _ => cases finished

/-- The value at the end of a text, which may be a number that ends there. -/
theorem finish_distinctKeys {value : Json} (finished : finish state = .ok value)
    (distinct : state.DistinctKeys)
    : value.DistinctKeys := by
  obtain ⟨control, frames⟩ := state
  obtain ⟨inner, around⟩ := distinct
  cases control with
  | number scan =>
      obtain ⟨result, number, rest⟩ := Outcome.bind_eq_ok.mp finished
      have whole := complete_distinctKeys (Numeral.Scan.finish_distinctKeys number) around
      exact Control.finish_distinctKeys rest whole.control
  | value | arrayStart | arrayItem _ | arrayEnd _ | objectStart | objectKey _ | colon _ _
  | objectEnd _ | word _ _ | text _ _ | finished _ =>
      rw [finish] at finished
      exact Control.finish_distinctKeys finished inner

/-- Whatever is read of a text has no key twice, by induction on the readings. -/
theorem run_distinctKeys {consumed : Nat} {readings : List Reading} {value : Json}
    (success : run state consumed readings = .ok value) (distinct : state.DistinctKeys)
    : value.DistinctKeys := by
  induction readings generalizing state consumed with
  | nil =>
      rw [run] at success
      cases finished : finish state with
      | error cause =>
          rw [finished] at success
          cases success
      | ok result =>
          rw [finished] at success
          cases success
          exact finish_distinctKeys finished distinct
  | cons reading rest ih =>
      cases reading with
      | fault =>
          rw [run] at success
          cases success
      | byte byte =>
          rw [run] at success
          cases stepped : step state byte with
          | error cause =>
              rw [stepped] at success
              cases success
          | ok next =>
              rw [stepped] at success
              exact ih success (step_distinctKeys stepped distinct)

end Parser

/-- What a text is parsed to has no key twice. -/
theorem parse_distinctKeys {source : List UInt8} {value : Json}
    (parsed : parse source = .ok value)
    : value.DistinctKeys := by
  simp only [parse] at parsed
  cases ran : Parser.run Parser.initial 0 (Comments.read source) with
  | error failure =>
      rw [ran] at parsed
      cases parsed
  | ok result =>
      rw [ran] at parsed
      cases parsed
      have start : Parser.initial.DistinctKeys := ⟨trivial, fun frame member => nomatch member⟩
      exact Parser.run_distinctKeys ran start

end ProtoSchema.Json
