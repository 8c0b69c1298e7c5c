import WordMachine.Kind

/-!
# Hex dumps

The stored bytes of a word, two digits each. Written in lower case, read in either.
-/

set_option autoImplicit false

namespace WordMachine

def hexGroupWidth : Nat := 2

def hexPair (b : UInt8) : List Char :=
  [Nat.digitChar (b.toNat / 16), Nat.digitChar (b.toNat % 16)]

def hexDigit? (c : Char) : Option Nat :=
  if '0' ≤ c ∧ c ≤ '9' then some (c.toNat - '0'.toNat)
  else if 'a' ≤ c ∧ c ≤ 'f' then some (c.toNat - 'a'.toNat + 10)
  else if 'A' ≤ c ∧ c ≤ 'F' then some (c.toNat - 'A'.toNat + 10)
  else none

/-- The bytes that pairs of digits denote; none if a character is no digit or has no partner. -/
def hexBytes? : List Char → Option (List UInt8)
  | [] => some []
  | [_] => none
  | c :: d :: rest =>
    match hexDigit? c, hexDigit? d, hexBytes? rest with
    | some high, some low, some bytes => some (UInt8.ofNat (16 * high + low) :: bytes)
    | _, _, _ => none

namespace Kind

def toHex (k : Kind) (w : Word) : String := String.ofList ((k.encode w).flatMap hexPair)

/-- Reads a dump of one word. The length is looked at before the digits. -/
def ofHex (k : Kind) (input : String) : Except Fault Word :=
  let digits := input.toList
  if digits.any (127 < ·.toNat) ∨ digits.length % hexGroupWidth ≠ 0 then
    .error (.malformedEncoding input .oddLength)
  else if digits.length / hexGroupWidth ≠ k.byteWidth then
    .error (.malformedEncoding input .byteCount)
  else
    match hexBytes? digits with
    | some bytes => k.decode bytes
    | none => .error (.malformedEncoding input .notHex)

end Kind

end WordMachine
