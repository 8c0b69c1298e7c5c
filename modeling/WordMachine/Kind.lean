import WordMachine.Bytes
import WordMachine.Fault

/-!
# Kinds of stored words

All registers and memory words of a machine share one kind, which says how many bytes a word takes
and which numbers those bytes are. Integer kinds keep the low bytes of the integer part in two's
complement; float kinds round.
-/

set_option autoImplicit false

namespace WordMachine

inductive Kind where
  | int8
  | uint8
  | int16
  | uint16
  | int32
  | uint32
  | float32
  | float64
  deriving DecidableEq, Repr

namespace Kind

def all : List Kind := [int8, uint8, int16, uint16, int32, uint32, float32, float64]

def name : Kind → String
  | int8 => "int8"
  | uint8 => "uint8"
  | int16 => "int16"
  | uint16 => "uint16"
  | int32 => "int32"
  | uint32 => "uint32"
  | float32 => "float32"
  | float64 => "float64"

def ofName? (name : String) : Option Kind := all.find? (·.name = name)

def ofName (name : String) : Except Fault Kind :=
  match ofName? name with
  | some k => .ok k
  | none => .error (.unknownKind name)

def byteWidth : Kind → Nat
  | int8 | uint8 => 1
  | int16 | uint16 => 2
  | int32 | uint32 | float32 => 4
  | float64 => 8

theorem byteWidth_pos (k : Kind) : 0 < k.byteWidth := by cases k <;> decide

def bits (k : Kind) : Nat := 8 * k.byteWidth

def isInteger : Kind → Bool
  | float32 | float64 => false
  | _ => true

def isSigned : Kind → Bool
  | uint8 | uint16 | uint32 => false
  | _ => true

def least (k : Kind) : Int := if k.isSigned then -2 ^ (k.bits - 1) else 0

def greatest (k : Kind) : Int := if k.isSigned then 2 ^ (k.bits - 1) - 1 else 2 ^ k.bits - 1

/-- Both ends of an integer kind. For a float kind, the smallest magnitude above zero (of full
precision, for `float32`) and the largest finite one. -/
def range : Kind → Word × Word
  | float32 => (Word.round false 1 (-126), Word.round false (2 ^ 24 - 1) 104)
  | float64 => (Word.round false 1 (-1074), Word.round false (2 ^ 53 - 1) 971)
  | k => (Word.ofInt k.least, Word.ofInt k.greatest)

def rangeOf (name : String) : Word × Word :=
  match ofName? name with
  | some k => k.range
  | none => (Word.nan, Word.nan)

/-- The stored bits of a word, as a natural. What is not finite is stored by an integer kind as
zero. -/
def pattern (k : Kind) (w : Word) : Nat :=
  match k with
  | float32 => binary64.convert binary32 w.bits.toNat
  | float64 => w.bits.toNat
  | k => (w.truncate?.getD 0 % 2 ^ k.bits).toNat

def ofPattern (k : Kind) (n : Nat) : Word :=
  match k with
  | float32 => ⟨UInt64.ofNat (binary32.convert binary64 n)⟩
  | float64 => ⟨UInt64.ofNat n⟩
  | k => Word.ofInt (if k.isSigned ∧ 2 ^ (k.bits - 1) ≤ n then n - 2 ^ k.bits else n)

def encode (k : Kind) (w : Word) : List UInt8 := Bytes.ofNat k.byteWidth (k.pattern w)

theorem length_encode (k : Kind) (w : Word) : (k.encode w).length = k.byteWidth :=
  Bytes.length_ofNat _ _

def encodeInto (k : Kind) (w : Word) (size : Nat) : Except Fault (List UInt8) :=
  if size = k.byteWidth then .ok (k.encode w) else .error (.sizeMismatch k.byteWidth size)

def decode (k : Kind) (bytes : List UInt8) : Except Fault Word :=
  if bytes.length = k.byteWidth then .ok (k.ofPattern (Bytes.toNat bytes))
  else .error (.sizeMismatch k.byteWidth bytes.length)

/-- The word that reads back after one is stored. -/
def coerce (k : Kind) (w : Word) : Word :=
  match k.decode (k.encode w) with
  | .ok v => v
  | .error _ => Word.nan

theorem decode_encode (k : Kind) (w : Word) : k.decode (k.encode w) = .ok (k.coerce w) := by
  simp [coerce, decode, length_encode]

def encodeWords (k : Kind) (ws : List Word) : List UInt8 := ws.flatMap k.encode

theorem length_encodeWords (k : Kind) (ws : List Word) :
    (k.encodeWords ws).length = ws.length * k.byteWidth := by
  induction ws with
  | nil => simp [encodeWords]
  | cons w ws ih =>
    rw [encodeWords, List.flatMap_cons, List.length_append, length_encode, ← encodeWords, ih,
      List.length_cons, Nat.succ_mul, Nat.add_comm]

end Kind

end WordMachine
