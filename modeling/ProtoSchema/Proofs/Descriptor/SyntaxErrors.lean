import ProtoSchema.Descriptor.Load
import ProtoSchema.Proofs.Json.ErrorPlaces

/-! The diagnostics of texts that are no JSON. They point at the byte that the parser read last, as
long as no comment goes over the end of a line that is followed by another line end.
-/

namespace ProtoSchema.Descriptor

open Json Schema

variable {text : String} {cause : Cause} {count : Nat}

/-- The bytes of a text. -/
def sourceOf (text : String) : List UInt8 :=
  text.toUTF8.toList

/-- The bytes of a text that the parser reads, with its comments blanked. -/
def strippedOf (text : String) : List UInt8 :=
  Parser.bytes (Comments.read (sourceOf text))

/-- The text is no JSON, which the parser notices after the given number of bytes. -/
def FailsAfter (text : String) (cause : Cause) (count : Nat) : Prop :=
  Parser.run Parser.initial 0 (Comments.read (sourceOf text)) = .error ⟨cause, some count⟩

instance (text : String) (cause : Cause) (count : Nat) : Decidable (FailsAfter text cause count) :=
  match outcome : Parser.run Parser.initial 0 (Comments.read (sourceOf text)) with
  | .ok _ => isFalse fun fails => nomatch outcome.symm.trans fails
  | .error failure =>
      decidable_of_iff (failure = ⟨cause, some count⟩)
        ⟨fun same => outcome.trans (congrArg _ same),
          fun fails => Except.error.inj (outcome.symm.trans fails)⟩

/-- The error of a text at which the parser fails. -/
def errorAfter (text : String) (cause : Cause) (count : Nat) : SyntaxError :=
  ⟨cause, some (Position.after ((strippedOf text).take count))⟩

/-- A text that is no JSON leaves the catalog as it is and is reported with a diagnostic. -/
theorem loadText_of_failsAfter (fails : FailsAfter text cause count) (catalog : Catalog)
    (sourceName : String)
    : loadText catalog sourceName text
      = (.error ⟨[], .invalidSource (invalidSource sourceName (sourceOf text)
          (errorAfter text cause count))⟩, catalog) := by
  have parsed : Json.parse (sourceOf text) = .error (errorAfter text cause count) := by
    rw [Json.parse, fails]
    rfl
  rw [loadText, ← sourceOf, parsed]

/-- The offset of an error is in the source or at its end. -/
theorem offset_le (error : SyntaxError) (source : List UInt8)
    : error.offset source ≤ source.length := by
  rw [SyntaxError.offset]
  split
  · exact Nat.min_le_right _ _
  · exact Nat.zero_le _

/-- A diagnostic covers one byte of the source, or none at its end. -/
theorem invalidSource_covers (sourceName : String) (source : List UInt8) (error : SyntaxError)
    : (invalidSource sourceName source error).length
        = (if (invalidSource sourceName source error).offset < source.length then 1 else 0)
      ∧ (invalidSource sourceName source error).offset
        + (invalidSource sourceName source error).length ≤ source.length := by
  refine ⟨rfl, ?_⟩
  have inside := offset_le error source
  simp only [invalidSource, SyntaxError.length]
  split <;> omega

/-- The diagnostic of a text whose bytes can all be read points at the byte that the parser read
last exactly if no comment before it hides a line end that a later one follows; else it points at an
earlier byte. It covers one byte, or none at the end of the text.
-/
theorem syntax_error_place (catalog : Catalog) (sourceName : String)
    (readable : (strippedOf text).length = (sourceOf text).length)
    (fails : FailsAfter text cause count)
    : ∃ diagnostic,
        loadText catalog sourceName text = (.error ⟨[], .invalidSource diagnostic⟩, catalog)
        ∧ diagnostic.offset ≤ lastRead (strippedOf text) count
        ∧ (diagnostic.offset = lastRead (strippedOf text) count
          ↔ ¬ HidesLine ((sourceOf text).take count) ((strippedOf text).take count))
        ∧ diagnostic.length = (if diagnostic.offset < (sourceOf text).length then 1 else 0)
        ∧ diagnostic.offset + diagnostic.length ≤ (sourceOf text).length := by
  have blanked : Blanked (sourceOf text) (strippedOf text) := Comments.blanked_readFrom readable
  have within : count ≤ (strippedOf text).length := by
    have consumed := Parser.consumed_le fails
    rwa [Nat.zero_add] at consumed
  obtain ⟨early, exactly⟩ := Position.offset_after blanked within
  exact ⟨_, loadText_of_failsAfter fails catalog sourceName, early, exactly,
    invalidSource_covers sourceName _ _⟩

/-- A text with a comment up to a line end, one within a line, and a character of two bytes. -/
def commentedText : String :=
  "// caf\u00E9\n[/* one */ 1,\n ]"

/-- Its diagnostic points at the bracket after the comma. -/
theorem commented_error_place
    : (strippedOf commentedText).length = (sourceOf commentedText).length
      ∧ FailsAfter commentedText .trailingComma 25
      ∧ ∃ diagnostic,
          loadText {} "a.json" commentedText = (.error ⟨[], .invalidSource diagnostic⟩, {})
          ∧ diagnostic.offset = 24
          ∧ diagnostic.length = 1 := by
  have readable : (strippedOf commentedText).length = (sourceOf commentedText).length := by
    decide +kernel
  have fails : FailsAfter commentedText .trailingComma 25 := by decide +kernel
  obtain ⟨diagnostic, loaded, _, exactly, length, _⟩ :=
    syntax_error_place {} "a.json" readable fails
  have offset : diagnostic.offset = 24 :=
    (exactly.mpr (by decide +kernel)).trans (by decide +kernel)
  rw [offset] at length
  exact ⟨readable, fails, diagnostic, loaded, offset, length.trans (by decide +kernel)⟩

/-- A text with a comment over the end of a line, and an error in the line after it. -/
def hiddenLineText : String :=
  "/*\n*/\n,"

/-- Its diagnostic points into the comment and not at the comma that the parser read last. -/
theorem hidden_line_misplaces_error
    : (strippedOf hiddenLineText).length = (sourceOf hiddenLineText).length
      ∧ FailsAfter hiddenLineText .expectedValue 7
      ∧ lastRead (strippedOf hiddenLineText) 7 = 6
      ∧ ∃ diagnostic,
          loadText {} "a.json" hiddenLineText = (.error ⟨[], .invalidSource diagnostic⟩, {})
          ∧ diagnostic.offset = 3 := by
  have fails : FailsAfter hiddenLineText .expectedValue 7 := by decide +kernel
  have readable : (strippedOf hiddenLineText).length = (sourceOf hiddenLineText).length := by
    decide +kernel
  exact ⟨readable, fails, by decide +kernel, _, loadText_of_failsAfter fails {} "a.json",
    by decide +kernel⟩

end ProtoSchema.Descriptor
