import ProtoSchema.Json.Error

/-! Texts in JSON, read byte by byte after the opening quote. A character beyond the basic plane
is escaped as two surrogates, the leading one first.
-/

namespace ProtoSchema.Json.Quoted

/-- Which part of a text was read last. A pending leading surrogate awaits the second half of its
pair.
-/
inductive Phase where
  | plain
  | escape
  | hex (digits : List UInt8) (leading : Option Nat)
  | pairBackslash (leading : Nat)
  | pairLetter (leading : Nat)
deriving DecidableEq, Repr

/-- A text of which the beginning was read, as the bytes of its content in reverse. -/
structure Scan where
  content : List UInt8 := []
  phase : Phase := .plain
deriving DecidableEq, Repr

/-- A text that goes on, or one whose closing quote was read. -/
inductive Progress where
  | more (scan : Scan)
  | closed (content : String)

def hexDigit? (byte : UInt8) : Option Nat :=
  if '0'.toUInt8 ≤ byte ∧ byte ≤ '9'.toUInt8 then some (byte - '0'.toUInt8).toNat
  else if 'a'.toUInt8 ≤ byte ∧ byte ≤ 'f'.toUInt8 then some ((byte - 'a'.toUInt8).toNat + 10)
  else if 'A'.toUInt8 ≤ byte ∧ byte ≤ 'F'.toUInt8 then some ((byte - 'A'.toUInt8).toNat + 10)
  else none

/-- The number that hexadecimal digits write. -/
def hexValue? (digits : List UInt8) : Option Nat :=
  digits.foldl
    (fun value byte => do
      let high ← value
      let low ← hexDigit? byte
      some (high * 16 + low))
    (some 0)

/-- The code unit is the first half of a pair. -/
def isLeading (unit : Nat) : Bool :=
  0xD800 ≤ unit && unit ≤ 0xDBFF

/-- The code unit is the second half of a pair. -/
def isTrailing (unit : Nat) : Bool :=
  0xDC00 ≤ unit && unit ≤ 0xDFFF

/-- The code point that a pair of code units stands for. -/
def pairValue (leading trailing : Nat) : Nat :=
  0x10000 + (leading - 0xD800) * 0x400 + (trailing - 0xDC00)

def Scan.push (scan : Scan) (byte : UInt8) : Scan :=
  { content := byte :: scan.content, phase := .plain }

def Scan.pushCode (scan : Scan) (code : Nat) : Scan :=
  { content := (String.utf8EncodeChar (Char.ofNat code)).reverse ++ scan.content,
    phase := .plain }

def Scan.close (scan : Scan) : Except Cause Progress :=
  match String.fromUTF8? ⟨scan.content.reverse.toArray⟩ with
  | some content => .ok (.closed content)
  | none => .error .invalidCodePoint

/-- The content after the letter of an escape. -/
def Scan.readEscape (scan : Scan) (byte : UInt8) : Except Cause Scan :=
  if byte = '"'.toUInt8 ∨ byte = '\\'.toUInt8 ∨ byte = '/'.toUInt8 then .ok (scan.push byte)
  else if byte = 'b'.toUInt8 then .ok (scan.push 0x08)
  else if byte = 'f'.toUInt8 then .ok (scan.push 0x0C)
  else if byte = 'n'.toUInt8 then .ok (scan.push 0x0A)
  else if byte = 'r'.toUInt8 then .ok (scan.push 0x0D)
  else if byte = 't'.toUInt8 then .ok (scan.push 0x09)
  else if byte = 'u'.toUInt8 then .ok { scan with phase := .hex [] none }
  else .error .invalidEscape

/-- The content after a code unit, which completes a pair or starts one or stands alone. -/
def Scan.readUnit (scan : Scan) (leading : Option Nat) (unit : Nat) : Except Cause Scan :=
  match leading with
  | some leading =>
      if isTrailing unit then .ok (scan.pushCode (pairValue leading unit))
      else .error .loneSurrogate
  | none =>
      if isTrailing unit then .error .loneSurrogate
      else if isLeading unit then .ok { scan with phase := .pairBackslash unit }
      else .ok (scan.pushCode unit)

/-- The content after one more digit of a code unit, whose four digits are judged together. -/
def Scan.readHex (scan : Scan) (digits : List UInt8) (leading : Option Nat)
    : Except Cause Scan :=
  if digits.length < 4 then .ok { scan with phase := .hex digits leading }
  else
    match hexValue? digits with
    | some unit => scan.readUnit leading unit
    | none => .error .invalidEscape

/-- Reads one more byte of a text. -/
def Scan.read (scan : Scan) (byte : UInt8) : Except Cause Progress :=
  match scan.phase with
  | .plain =>
      if byte = '"'.toUInt8 then scan.close
      else if byte = '\\'.toUInt8 then .ok (.more { scan with phase := .escape })
      else if byte < 0x20 then .error .controlCharacter
      else .ok (.more (scan.push byte))
  | .escape => .more <$> scan.readEscape byte
  | .hex digits leading => .more <$> scan.readHex (digits ++ [byte]) leading
  | .pairBackslash leading =>
      if byte = '\\'.toUInt8 then .ok (.more { scan with phase := .pairLetter leading })
      else .error .endOfHexEscape
  | .pairLetter leading =>
      if byte = 'u'.toUInt8 then .ok (.more { scan with phase := .hex [] (some leading) })
      else .error .endOfHexEscape

end ProtoSchema.Json.Quoted
