import WordMachine.Fault

/-!
# Addresses

Addresses are naturals below a capacity. A word is an address by its floor, compared with the
capacity as a word: past `2 ^ 53` the capacity itself is rounded for that comparison.
-/

set_option autoImplicit false

namespace WordMachine.Address

def limit : Nat := 2 ^ 64

def isValid (address capacity : Nat) : Bool := address < capacity

def fault (address capacity : Nat) : Fault := .outOfBounds (Word.ofNat address) capacity

def check (address capacity : Nat) : Except Fault Nat :=
  if isValid address capacity then .ok address else .error (fault address capacity)

/-- The capacity as the word it is compared as. -/
def bound (capacity : Nat) : Int := (Word.ofNat capacity).integer?.getD 0

def ofWord (word : Word) (capacity : Nat) : Except Fault Nat :=
  match word.floor? with
  | some n =>
    if 0 ≤ n ∧ n < bound capacity then .ok n.toNat else .error (.outOfBounds word capacity)
  | none => .error (.outOfBounds word capacity)

/-- The address after `length` bytes put at `start`, a last word begun counting as a whole one. -/
def afterBytes (start length width : Nat) : Nat := start + (length + width - 1) / width

def spanEnd (start length width : Nat) : Option Nat :=
  let stop := afterBytes start length width
  if stop < limit then some stop else none

theorem check_eq_ok {address capacity a : Nat} :
    check address capacity = .ok a ↔ a = address ∧ address < capacity := by
  simp only [check, isValid, decide_eq_true_eq]
  split <;> simp only [Except.ok.injEq, reduceCtorEq, false_iff] <;> omega

end WordMachine.Address
