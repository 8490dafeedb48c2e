/-! Lines of a text end at a newline, which a carriage return directly before it belongs to.
The last line may lack its newline; a text that ends with one has no empty line after it.
-/

namespace ProtoSchema.Text

/-- Splits a text into its lines, without their ends. -/
def lines : List Char → List (List Char)
  | [] => []
  | '\n' :: rest => [] :: lines rest
  | '\r' :: '\n' :: rest => [] :: lines rest
  | c :: rest =>
      match lines rest with
      | [] => [[c]]
      | line :: following => (c :: line) :: following

/-- Joins lines by single newlines, with none at the end. -/
def joinLines (parts : List (List Char)) : List Char :=
  List.intercalate ['\n'] parts

/-- The number of bytes that a text takes in UTF-8. -/
def byteSize : List Char → Nat
  | [] => 0
  | c :: rest => c.utf8Size + byteSize rest

/-- Drops exactly `count` bytes, or fails where that would pass the end or cut a character. -/
def dropBytes? : Nat → List Char → Option (List Char)
  | 0, text => some text
  | _ + 1, [] => none
  | count + 1, c :: rest =>
      if c.utf8Size ≤ count + 1 then dropBytes? (count + 1 - c.utf8Size) rest else none

end ProtoSchema.Text
