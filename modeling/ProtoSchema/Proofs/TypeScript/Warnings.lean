import Mathlib.Data.List.Induction
import ProtoSchema.Proofs.TypeScript.ListOrder

/-! The warnings of a conversion. What is written is known from the listed types: a type is written
unless its name is declared, and so is the entry of a map, in the place of the first field that
has it. The references that are written to types that are not listed are what the warnings are
about, in this order and each once.
-/

namespace ProtoSchema.TypeScript

open Schema
open Execution

variable {style : CommentStyle} {int64 : Integer64} {scope : Scope} {progress last : Progress}

/-- The types of values that are written for some items one after the other, where those of an item
depend on the names that are declared before it.
-/
def written {α : Type} (values : List String → α → List FieldType)
    (declare : List String → α → List String)
    : List String → List α → List FieldType
  | _, [] => []
  | known, item :: rest =>
      values known item ++ written values declare (declare known item) rest

/-- The types of values that are written for a field: its own, or those of the entry of a map
unless the entry is declared.
-/
def fieldValues (message : Message) (known : List String) (field : Field) : List FieldType :=
  match field.mapKey with
  | some key =>
      if MapEntry.name message field key ∈ known then []
      else (MapEntry.message message field key).fields.map Field.type
  | none => [field.type]

/-- The names that are declared once a field is written. -/
def declareField (message : Message) (known : List String) (field : Field) : List String :=
  (MapEntry.name? message field).toList.foldl addName known

/-- The types of values that are written for a type unless it is declared. -/
def nodeValues (known : List String) : Node → List FieldType
  | .enumeration _ => []
  | .message content =>
      if content.name ∈ known then []
      else written (fieldValues content) (declareField content) known (orderedFields content)

/-- The names of the types that are referred to but not listed, in the order in which the first
references to them are written.
-/
def danglingNames (scope : Scope) : List String :=
  ((written nodeValues declareName [] scope.listed).filterMap (undeclared? scope)).eraseDups

-----------------------------------------------------------------------------------------
-- Names that are kept once
-----------------------------------------------------------------------------------------

/-- Adding names one after the other keeps the first occurrence of each, by induction on the names
from the last one.
-/
theorem foldl_addName_nil (names : List String) : names.foldl addName [] = names.eraseDups := by
  induction names using List.reverseRecOn with
  | nil => rfl
  | append_singleton names name ih =>
      have present : name ∈ names.foldl addName [] ↔ name ∈ names := by
        simp [mem_foldl_addName]
      rw [List.foldl_append, List.foldl_cons, List.foldl_nil, List.eraseDups_append, ← ih]
      by_cases known : name ∈ names
      · simp [addName, List.removeAll, present, known]
      · simp [addName, List.removeAll, present, known, List.eraseDups_cons]

theorem nodup_addName {known : List String} {name : String} (distinct : known.Nodup)
    : (addName known name).Nodup := by
  unfold addName
  split
  · exact distinct
  · next absent =>
      rw [← List.concat_eq_append]
      exact distinct.concat absent

theorem nodup_foldl_addName {known names : List String} (distinct : known.Nodup)
    : (names.foldl addName known).Nodup := by
  induction names generalizing known with
  | nil => exact distinct
  | cons name rest ih => exact ih (nodup_addName distinct)

-----------------------------------------------------------------------------------------
-- What a run warns about
-----------------------------------------------------------------------------------------

/-- Values warn about the types that they leave undeclared, in order and once, by induction on the
values.
-/
theorem Progress.warned_foldl_refer (types : List FieldType) (progress : Progress)
    : (types.foldl (Progress.refer scope) progress).warned
      = (types.filterMap (undeclared? scope)).foldl addName progress.warned := by
  induction types generalizing progress with
  | nil => rfl
  | cons type rest ih =>
      rw [List.foldl_cons, ih, Progress.refer]
      cases left : undeclared? scope type with
      | none => rw [List.filterMap_cons_none left]
      | some name =>
          rw [List.filterMap_cons_some left, List.foldl_cons]
          congr 1
          simp only [Progress.warn, addName, List.contains_iff_mem]
          split <;> rfl

/-- If each step warns about what is written in it, so do steps one after the other, by induction on
the items.
-/
theorem warned_foldl {α : Type} {step : Progress → α → Progress}
    {values : List String → α → List FieldType} {declare : List String → α → List String}
    (keys
      : ∀ progress item,
          (step progress item).registry.keys = declare progress.registry.keys item)
    (warned
      : ∀ progress item,
          (step progress item).warned
          = ((values progress.registry.keys item).filterMap (undeclared? scope)).foldl addName
              progress.warned)
    (items : List α) (progress : Progress)
    : (items.foldl step progress).warned
      = ((written values declare progress.registry.keys items).filterMap
          (undeclared? scope)).foldl addName progress.warned := by
  induction items generalizing progress with
  | nil => rfl
  | cons item rest ih =>
      rw [List.foldl_cons, ih, keys, warned, written, List.filterMap_append, List.foldl_append]

theorem Progress.warned_addField (message : Message) (progress : Progress) (field : Field)
    : (progress.addField style int64 scope message field).warned
      = ((fieldValues message progress.registry.keys field).filterMap
          (undeclared? scope)).foldl addName progress.warned := by
  unfold Progress.addField fieldValues
  cases field.mapKey with
  | none => exact Progress.warned_foldl_refer [field.type] progress
  | some key =>
      simp only [Progress.addEntry, MapEntry.name_message, Progress.contains_iff]
      split
      · rfl
      · exact Progress.warned_foldl_refer _ progress

theorem Progress.warned_addNode (progress : Progress) (node : Node)
    : (progress.addNode style int64 scope node).warned
      = ((nodeValues progress.registry.keys node).filterMap (undeclared? scope)).foldl addName
          progress.warned := by
  simp only [Progress.addNode, Progress.contains_iff]
  cases node with
  | enumeration content =>
      split
      · rfl
      · rfl
  | message content =>
      rw [nodeValues, Node.name]
      split
      · rfl
      · rw [Progress.enter, Progress.addContent_message, orderedFields_eq]
        exact warned_foldl (Progress.keys_addField content) (Progress.warned_addField content)
          (shownFields content) progress

/-- A run warns about the types that are referred to but not listed. -/
theorem warned_of_build (built : exec (build style int64 scope) {} = (.ok ⟨⟩, progress))
    : progress.warned = danglingNames scope := by
  obtain ⟨_, rfl⟩ := exec_build_ok.mp built
  rw [warned_foldl Progress.keys_addNode Progress.warned_addNode, danglingNames,
    ← foldl_addName_nil]
  rfl

-----------------------------------------------------------------------------------------
-- What the written identifiers denote
-----------------------------------------------------------------------------------------

/-- What the written type of a field names: a type that is built in, a listed type, which is
declared, another type, which is warned about, or the entry of a map, which is declared.
-/
inductive Progress.Names (progress : Progress) (int64 : Integer64) (scope : Scope)
    (message : Message) (field : Field)
    : Prop
  | builtIn {kind : Scalar} (keyless : field.mapKey = none) (value : field.type = .scalar kind)
    (text
      : fieldText int64 scope message field = arrayType field (kind.typeScript int64).name)
  | listed {reference : String} {node : Node} (keyless : field.mapKey = none)
    (value : field.type = .named reference) (found : scope.find? reference = some node)
    (text : fieldText int64 scope message field = arrayType field node.simpleName)
    (listed : isListed scope node.name = true) (declared : node.name ∈ progress.registry.keys)
  | unlisted {reference : String} {node : Node} (keyless : field.mapKey = none)
    (value : field.type = .named reference) (found : scope.find? reference = some node)
    (text : fieldText int64 scope message field = arrayType field node.simpleName)
    (unlisted : isListed scope node.name = false) (warned : node.name ∈ progress.warned)
  | entry {key : Scalar} (keyed : field.mapKey = some key)
    (text
      : fieldText int64 scope message field
        = arrayType field (MapEntry.message message field key).simpleName)
    (declared : (MapEntry.message message field key).name ∈ progress.registry.keys)

/-- In a declaration that is ready and covered, a reference is to a type that is listed, and so
declared, or warned about.
-/
theorem Progress.Finished.names (finished : progress.Finished style int64 scope)
    {message : Message} (ready : Ready scope (.message message))
    (covers : progress.Covers scope (.message message)) {field : Field}
    (shown : field ∈ shownFields message)
    : progress.Names int64 scope message field := by
  cases keyed : field.mapKey with
  | some key =>
      refine .entry keyed ?_ (covers.entries _ (mem_entryNames.mpr ⟨field, shown, ?_⟩))
      · rw [fieldText, keyed]
      · rw [MapEntry.name?, keyed, Option.map_some, MapEntry.name_message]
  | none =>
      have text_eq : fieldText int64 scope message field
          = arrayType field (baseText int64 scope field.type) := by
        rw [fieldText, keyed]
      cases value : field.type with
      | scalar kind =>
          rw [value] at text_eq
          exact .builtIn keyed value text_eq
      | named reference =>
          cases ready with
          | message _ finds =>
              have finds := finds field shown keyed
              rw [value] at finds text_eq
              obtain ⟨node, found⟩ := finds
              rw [baseText, found] at text_eq
              cases listed : isListed scope node.name with
              | true =>
                  obtain ⟨other, member, same⟩ := List.any_eq_true.mp listed
                  refine .listed keyed value found text_eq listed ?_
                  rw [← of_decide_eq_true same]
                  exact finished.listed other member
              | false =>
                  refine .unlisted keyed value found text_eq listed ?_
                  refine covers.warned _ (.field shown keyed ?_)
                  simp [value, undeclared?, found, listed]

-----------------------------------------------------------------------------------------
-- Any number of runs
-----------------------------------------------------------------------------------------

/-- The progress after a number of runs that succeed. -/
inductive Rebuilt (style : CommentStyle) (int64 : Integer64) (scope : Scope)
    : Nat → Progress → Prop
  | start : Rebuilt style int64 scope 0 {}
  | again {builds : Nat} {progress last : Progress}
    (earlier : Rebuilt style int64 scope builds progress)
    (built : exec (build style int64 scope) progress = (.ok ⟨⟩, last))
    : Rebuilt style int64 scope (builds + 1) last

/-- Runs after the first one change nothing, by induction on the runs. -/
theorem Rebuilt.built {builds : Nat} (rebuilt : Rebuilt style int64 scope builds progress)
    : progress = {} ∧ builds = 0
      ∨ builds ≠ 0 ∧ exec (build style int64 scope) {} = (.ok ⟨⟩, progress) := by
  induction rebuilt with
  | start => exact .inl ⟨rfl, rfl⟩
  | again _ built ih =>
      refine .inr ⟨Nat.succ_ne_zero _, ?_⟩
      rcases ih with ⟨rfl, -⟩ | ⟨-, first⟩
      · exact built
      · rw [exec_build_again first] at built
        cases built
        exact first

/-- After any number of runs, the warnings are about the types that are referred to but not listed,
in the order of the first references and each once. Every declaration is that of a listed type or
of the entry of a map, and what the types in it name is declared or warned about.
-/
theorem warnings_exact {builds : Nat} (rebuilt : Rebuilt style int64 scope builds progress)
    : progress.warned = (if builds = 0 then [] else danglingNames scope)
      ∧ progress.warned.Nodup
      ∧ progress.output.warnings = progress.warned.map undeclared
      ∧ ∀ name text,
          progress.registry.get? name = some text
          → ∃ node,
              Source scope node
              ∧ node.name = name
              ∧ text = nodeText style int64 scope node
              ∧ ∀ message,
                  node = .message message
                  → ∀ field ∈ shownFields message, progress.Names int64 scope message field := by
  rcases rebuilt.built with ⟨rfl, rfl⟩ | ⟨some, built⟩
  · exact ⟨rfl, .nil, rfl, fun name text found => by simp at found⟩
  · have finished := build_finished built
    have warned := warned_of_build built
    refine ⟨?_, ?_, rfl, fun name text found => ?_⟩
    · rw [if_neg some, warned]
    · rw [warned, danglingNames, ← foldl_addName_nil]
      exact nodup_foldl_addName .nil
    · obtain ⟨node, source, named, same, ready, covers⟩ := finished.sound.declared found
      refine ⟨node, source, named, same, ?_⟩
      rintro message rfl field shown
      exact finished.names ready covers shown

/-- After two runs on the shop there is one warning, about the type that is not listed. -/
theorem shop_warnings
    : ∃ progress,
        Rebuilt jsDoc .text shop 2 progress
        ∧ progress.output.warnings = [undeclared "shop.Money"] := by
  have succeeds : (exec (build jsDoc .text shop) {}).1 = .ok ⟨⟩ := by decide +kernel
  have built : exec (build jsDoc .text shop) {} = (.ok ⟨⟩, (exec (build jsDoc .text shop) {}).2) :=
    Prod.ext succeeds rfl
  have twice := Rebuilt.again (.again .start built) (exec_build_again built)
  obtain ⟨warned, -, warnings, -⟩ := warnings_exact twice
  have dangling : danglingNames shop = ["shop.Money"] := by decide +kernel
  rw [if_neg (by simp), dangling] at warned
  rw [warned] at warnings
  exact ⟨_, twice, warnings⟩

end ProtoSchema.TypeScript
