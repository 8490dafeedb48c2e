import ProtoSchema.Json.Error
import ProtoSchema.Json.Value

/-! Numbers in JSON text, read byte by byte. The significand keeps as many digits as fit in 64
bits; further digits before the point raise the power of ten and further ones after it are lost.
A number must not be too large for a double-precision one.
-/

namespace ProtoSchema.Json

/-- Rounds to the nearest number with at most 53 significant bits, a tie to the even one. -/
def roundTo53 (n : Nat) : Nat :=
  if n < 1 <<< 53 then n
  else
    let unit := 1 <<< (n.log2 - 52)
    let quotient := n / unit
    let rest := n % unit
    if 2 * rest < unit ∨ (2 * rest = unit ∧ quotient % 2 = 0) then quotient * unit
    else (quotient + 1) * unit

/-- The product of a rounded significand and a rounded power of ten is too large for a
double-precision number. Powers of ten above 308 are themselves too large.
-/
def isTooLarge (significand : Nat) (exponent : Int) : Bool :=
  if exponent < 0 then false
  else if exponent ≤ 308 then
    1 <<< 1024 - 1 <<< 970 ≤ roundTo53 significand * roundTo53 (Nat.pow 10 exponent.toNat)
  else significand ≠ 0

namespace Numeral

/-- Which part of a number was read last. -/
inductive Phase where
  | minus
  | zero
  | digits
  | moreDigits
  | point
  | fraction
  | moreFraction
  | exponentMark
  | exponentSign (negative : Bool)
  | exponent (negative : Bool) (value : Nat)
  | vanishing
deriving DecidableEq, Repr

/-- A number of which the beginning was read. -/
structure Scan where
  negative : Bool
  significand : Nat := 0
  scale : Int := 0
  phase : Phase
deriving DecidableEq, Repr

def digit? (byte : UInt8) : Option Nat :=
  if '0'.toUInt8 ≤ byte ∧ byte ≤ '9'.toUInt8 then some (byte - '0'.toUInt8).toNat else none

def isExponentMark (byte : UInt8) : Bool :=
  byte = 'e'.toUInt8 || byte = 'E'.toUInt8

/-- The number that starts with this byte. -/
def start? (byte : UInt8) : Option Scan :=
  if byte = '-'.toUInt8 then some { negative := true, phase := .minus }
  else
    (digit? byte).map fun digit =>
      { negative := false, significand := digit,
        phase := if digit = 0 then .zero else .digits }

/-- The significand with one more digit, if it still fits in 64 bits. -/
def Scan.append? (scan : Scan) (digit : Nat) : Option Nat :=
  let extended := scan.significand * 10 + digit
  if extended ≤ 0xFFFFFFFFFFFFFFFF then some extended else none

/-- The phase after a digit of an exponent. An exponent beyond 32 bits is out of range, unless it
is negative or the significand is zero: the number then vanishes.
-/
def Scan.exponentDigit (scan : Scan) (negative : Bool) (value digit : Nat)
    : Except Cause Phase :=
  if value * 10 + digit ≤ 0x7FFFFFFF then .ok (.exponent negative (value * 10 + digit))
  else if scan.significand ≠ 0 ∧ ¬negative then .error .numberOutOfRange
  else .ok .vanishing

/-- What follows the digits before the point: a point, an exponent, or no more of the number. -/
def Scan.afterInteger? (scan : Scan) (byte : UInt8) : Option Scan :=
  if byte = '.'.toUInt8 then some { scan with phase := .point }
  else if isExponentMark byte then some { scan with phase := .exponentMark }
  else none

/-- What follows the digits after the point: an exponent, or no more of the number. -/
def Scan.afterFraction? (scan : Scan) (byte : UInt8) : Option Scan :=
  if isExponentMark byte then some { scan with phase := .exponentMark } else none

/-- One more digit after the point; the digits that no longer fit are lost. -/
def Scan.fractionDigit (scan : Scan) (digit : Nat) : Scan :=
  match scan.append? digit with
  | some significand =>
      { scan with significand, scale := scan.scale - 1, phase := .fraction }
  | none => { scan with phase := .moreFraction }

/-- Reads one more byte of a number; `none` if the byte is not part of it. -/
def Scan.read (scan : Scan) (byte : UInt8) : Except Cause (Option Scan) :=
  match scan.phase, digit? byte with
  | .minus, some digit =>
      .ok (some { scan with
        significand := digit, phase := if digit = 0 then .zero else .digits })
  | .minus, none => .error .invalidNumber
  | .zero, some _ => .error .invalidNumber
  | .zero, none => .ok (scan.afterInteger? byte)
  | .digits, some digit =>
      match scan.append? digit with
      | some significand => .ok (some { scan with significand })
      | none => .ok (some { scan with scale := scan.scale + 1, phase := .moreDigits })
  | .digits, none => .ok (scan.afterInteger? byte)
  | .moreDigits, some _ => .ok (some { scan with scale := scan.scale + 1 })
  | .moreDigits, none => .ok (scan.afterInteger? byte)
  | .point, some digit => .ok (some (scan.fractionDigit digit))
  | .point, none => .error .invalidNumber
  | .fraction, some digit => .ok (some (scan.fractionDigit digit))
  | .fraction, none => .ok (scan.afterFraction? byte)
  | .moreFraction, some _ => .ok (some scan)
  | .moreFraction, none => .ok (scan.afterFraction? byte)
  | .exponentMark, some digit => .ok (some { scan with phase := .exponent false digit })
  | .exponentMark, none =>
      if byte = '+'.toUInt8 then .ok (some { scan with phase := .exponentSign false })
      else if byte = '-'.toUInt8 then .ok (some { scan with phase := .exponentSign true })
      else .error .invalidNumber
  | .exponentSign negative, some digit =>
      .ok (some { scan with phase := .exponent negative digit })
  | .exponentSign _, none => .error .invalidNumber
  | .exponent negative value, some digit => do
      .ok (some { scan with phase := ← scan.exponentDigit negative value digit })
  | .exponent _ _, none => .ok none
  | .vanishing, some _ => .ok (some scan)
  | .vanishing, none => .ok none

/-- A number without a fraction and an exponent. The negative ones have one bit less, and a
negative zero is no integer.
-/
def Scan.integer (scan : Scan) : Json :=
  if scan.negative then
    if scan.significand ≠ 0 ∧ scan.significand ≤ 0x8000000000000000 then .integer (-scan.significand)
    else .decimal true scan.significand 0
  else .integer scan.significand

/-- A number with the given power of ten, unless it is too large. -/
def Scan.decimal (scan : Scan) (exponent : Int) : Except Cause Json :=
  if isTooLarge scan.significand exponent then .error .numberOutOfRange
  else .ok (.decimal scan.negative scan.significand exponent)

/-- The number, where the text ends or goes on with something else. -/
def Scan.finish (scan : Scan) : Except Cause Json :=
  match scan.phase with
  | .minus | .point | .exponentMark | .exponentSign _ => .error .endInValue
  | .zero | .digits => .ok scan.integer
  | .moreDigits | .fraction | .moreFraction => scan.decimal scan.scale
  | .exponent negative value =>
      scan.decimal (if negative then scan.scale - value else scan.scale + value)
  | .vanishing => .ok (.decimal scan.negative 0 0)

end Numeral

end ProtoSchema.Json
