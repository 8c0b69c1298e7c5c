import WordMachine.Word

/-!
# Comparison flags

A comparison leaves a flag, stored as a small integer; a conditional jump reads it back. A stored
word that is no flag satisfies only the condition of being unequal.
-/

set_option autoImplicit false

namespace WordMachine

inductive Flag where
  | equal
  | less
  | greater
  | unordered
  deriving DecidableEq, Repr

namespace Flag

def all : List Flag := [equal, less, greater, unordered]

def name : Flag → String
  | equal => "Equal"
  | less => "Less"
  | greater => "Greater"
  | unordered => "Unordered"

def initial : Flag := equal

def compare (l r : Word) : Flag :=
  match l.compare? r with
  | some .eq => equal
  | some .lt => less
  | some .gt => greater
  | none => unordered

def code : Flag → Nat
  | equal => 0
  | less => 1
  | greater => 2
  | unordered => 3

def toWord (f : Flag) : Word := Word.ofNat f.code

def ofWord? (w : Word) : Option Flag :=
  match w.integer? with
  | some n => all.find? (fun f => n = f.code)
  | none => none

end Flag

inductive Condition where
  | always
  | equal
  | notEqual
  | less
  | greater
  deriving DecidableEq, Repr

namespace Condition

def holds : Condition → Option Flag → Bool
  | always, _ => true
  | equal, f => f = some .equal
  | notEqual, f => f ≠ some .equal
  | less, f => f = some .less
  | greater, f => f = some .greater

def text : Condition → String
  | always => ""
  | equal => " if comparison is 'Equal To'"
  | notEqual => " if comparison is 'Not Equal To'"
  | less => " if comparison is 'Less Than'"
  | greater => " if comparison is 'Greater Than'"

theorem holds_notEqual (f : Option Flag) : notEqual.holds f = !equal.holds f := by
  simp [holds]

end Condition

end WordMachine
