import ProtoSchema.Proofs.Text.Trimming
import ProtoSchema.Text.Lines

/-! The beginning of a line by bytes. Bytes can be dropped exactly up to the boundaries between
characters, and a cut within the blank beginning of a line drops blank characters only.
-/

namespace ProtoSchema.Text

variable {text before kept : List Char}

theorem byteSize_append (front back : List Char)
    : byteSize (front ++ back) = byteSize front + byteSize back := by
  induction front with
  | nil => exact (Nat.zero_add _).symm
  | cons c front ih => rw [List.cons_append, byteSize, byteSize, ih, Nat.add_assoc]

theorem byteSize_eq_zero_iff : byteSize text = 0 ↔ text = [] := by
  cases text with
  | nil => exact iff_of_true rfl rfl
  | cons c rest =>
      refine iff_of_false ?_ (List.cons_ne_nil c rest)
      have positive := c.utf8Size_pos
      rw [byteSize]
      omega

/-- A character below the first 128 takes one byte. -/
theorem byteSize_eq_length (ascii : ∀ c ∈ text, c.toNat < 128) : byteSize text = text.length := by
  induction text with
  | nil => rfl
  | cons c rest ih =>
      have small : c.val ≤ 0x7F := by
        have bound := ascii c List.mem_cons_self
        exact UInt32.le_iff_toNat_le.mpr (Nat.le_of_lt_succ bound)
      have one : c.utf8Size = 1 := if_pos small
      rw [byteSize, one, ih fun c member => ascii c (List.mem_cons_of_mem _ member),
        List.length_cons, Nat.add_comm]

/-- Bytes are dropped up to a boundary between characters, by induction on the text. -/
theorem dropBytes?_eq_some_iff {count : Nat}
    : dropBytes? count text = some kept
      ↔ ∃ before, text = before ++ kept ∧ byteSize before = count := by
  have nothing (text : List Char)
      : dropBytes? 0 text = some kept ↔ ∃ before, text = before ++ kept ∧ byteSize before = 0 := by
    simp only [dropBytes?, Option.some.injEq, byteSize_eq_zero_iff, exists_eq_right,
      List.nil_append]
  induction text generalizing count with
  | nil =>
      cases count with
      | zero => exact nothing []
      | succ count =>
          refine iff_of_false (by simp [dropBytes?]) ?_
          rintro ⟨before, same, size⟩
          rw [(List.nil_eq_append_iff.mp same).1] at size
          cases size
  | cons c rest ih =>
      cases count with
      | zero => exact nothing (c :: rest)
      | succ count =>
          have positive := c.utf8Size_pos
          rw [dropBytes?]
          split
          · next fits =>
              refine ih.trans ⟨?_, ?_⟩
              · rintro ⟨before, rfl, size⟩
                exact ⟨c :: before, rfl, by rw [byteSize]; omega⟩
              · rintro ⟨before, same, size⟩
                cases before with
                | nil => cases size
                | cons first before =>
                    obtain ⟨rfl, rfl⟩ := List.cons.inj same
                    exact ⟨before, rfl, by rw [byteSize] at size; omega⟩
          · next tooLong =>
              refine iff_of_false nofun ?_
              rintro ⟨before, same, size⟩
              cases before with
              | nil => cases size
              | cons first before =>
                  obtain ⟨rfl, rfl⟩ := List.cons.inj same
                  rw [byteSize] at size
                  omega

/-- The number of blank characters that a line starts with. -/
def leading (line : List Char) : Nat :=
  (line.takeWhile isBlank).length

/-- Trimming the end of a line that is not blank keeps its blank beginning. -/
theorem leading_trimEnd (shown : visible text ≠ []) : leading (trimEnd text) = leading text := by
  obtain ⟨blanks, _, same⟩ := exists_eq_trimEnd_append text
  have stops : ¬ ((trimEnd text).takeWhile isBlank).length = (trimEnd text).length := by
    intro whole
    have blank := ( List.takeWhile_prefix isBlank).eq_of_length whole
    refine shown ?_
    rw [← visible_trimEnd, visible_eq_nil_iff, ← blank]
    exact fun _ member => List.mem_takeWhile_imp member
  have beginning : (trimEnd text ++ blanks).takeWhile isBlank = _ := List.takeWhile_append
  rw [if_neg stops, ← same] at beginning
  rw [leading, leading, beginning]

/-- What is cut off within the blank beginning of a line is blank, by induction on it. -/
theorem visible_eq_nil_of_byteSize_le (split : text = before ++ kept)
    (size : byteSize before ≤ byteSize (text.takeWhile isBlank))
    : visible before = [] := by
  induction before generalizing text with
  | nil => rfl
  | cons c before ih =>
      rw [split, List.cons_append, List.takeWhile_cons] at size
      have positive := c.utf8Size_pos
      split at size
      · next blank =>
          rw [byteSize, byteSize] at size
          have rest := ih rfl (Nat.le_of_add_le_add_left size)
          rw [visible_cons, rest, List.append_nil]
          simp [visible, blank]
      · rw [byteSize, byteSize] at size
        omega

/-- The blank beginning of a line is what is cut off and that of what is kept. -/
theorem takeWhile_append_of_visible (hidden : visible before = []) (kept : List Char)
    : (before ++ kept).takeWhile isBlank = before ++ kept.takeWhile isBlank :=
  List.takeWhile_append_of_pos (visible_eq_nil_iff.mp hidden)

end ProtoSchema.Text
