/-! The blank characters are those with the Unicode property White_Space. Trimming removes
them from either end of a text and nothing from inside it.
-/

namespace ProtoSchema.Text

/-- The code points with the property White_Space, as inclusive ranges in increasing order. -/
def blankRanges : List (Nat × Nat) :=
  [(0x09, 0x0D), (0x20, 0x20), (0x85, 0x85), (0xA0, 0xA0), (0x1680, 0x1680),
    (0x2000, 0x200A), (0x2028, 0x2029), (0x202F, 0x202F), (0x205F, 0x205F),
    (0x3000, 0x3000)]

def isBlank (c : Char) : Bool :=
  blankRanges.any fun range => range.1 ≤ c.toNat && c.toNat ≤ range.2

def trimStart (text : List Char) : List Char :=
  text.dropWhile isBlank

def trimEnd (text : List Char) : List Char :=
  (text.reverse.dropWhile isBlank).reverse

/-- Drops the longest blank beginning and ending. -/
def trim (text : List Char) : List Char :=
  trimEnd (trimStart text)

/-- A text is blank when trimming leaves nothing of it. -/
def isBlankText (text : String) : Bool :=
  text.toList.all isBlank

end ProtoSchema.Text
