import WordMachine.Word

/-!
# Operators

Arithmetic on words and bitwise operators on 64-bit integers. Neither knows the kind of a machine:
the result is narrowed when it is stored.
-/

set_option autoImplicit false

namespace WordMachine

inductive Arithmetic where
  | add
  | sub
  | mul
  | div
  | intDiv
  | pow
  deriving DecidableEq, Repr

namespace Arithmetic

def all : List Arithmetic := [add, sub, mul, div, intDiv, pow]

theorem mem_all (op : Arithmetic) : op ∈ all := by cases op <;> decide

def symbol : Arithmetic → String
  | add => "+"
  | sub => "-"
  | mul => "*"
  | div => "/"
  | intDiv => "//"
  | pow => "**"

def apply : Arithmetic → Word → Word → Word
  | add, l, r => l.add r
  | sub, l, r => l.sub r
  | mul, l, r => l.mul r
  | div, l, r => l.div r
  | intDiv, l, r => (l.div r).truncate
  | pow, l, r => l.pow r

end Arithmetic

/-- The integer part of a word, held at the ends of the range; zero for one that is not finite. -/
def toInteger (w : Word) : Int64 :=
  match w.truncate? with
  | some n => Int64.ofInt (max (-2 ^ 63) (min n (2 ^ 63 - 1)))
  | none => 0

def ofInteger (n : Int64) : Word := Word.ofInt n.toInt

inductive Bitwise where
  | and
  | or
  | xor
  | shiftLeft
  | shiftRight
  deriving DecidableEq, Repr

namespace Bitwise

def all : List Bitwise := [and, or, xor, shiftLeft, shiftRight]

theorem mem_all (op : Bitwise) : op ∈ all := by cases op <;> decide

def symbol : Bitwise → String
  | and => "&"
  | or => "|"
  | xor => "^"
  | shiftLeft => "<<"
  | shiftRight => ">>"

/-- A shift is by 0 to 63 places, whatever amount is asked for. -/
def shiftAmount (n : Int64) : Int64 := Int64.ofInt (max 0 (min n.toInt 63))

def apply : Bitwise → Int64 → Int64 → Int64
  | and, l, r => l &&& r
  | or, l, r => l ||| r
  | xor, l, r => l ^^^ r
  | shiftLeft, l, r => l <<< shiftAmount r
  | shiftRight, l, r => l >>> shiftAmount r

end Bitwise

end WordMachine
