import WordMachine.Execution
import WordMachine.Instruction.Base
import WordMachine.Instruction.Extended

/-!
# Variants

All machines fetch and cycle alike; a variant says which registers a machine has, how it begins,
and what its opcodes do.
-/

set_option autoImplicit false

namespace WordMachine

inductive Model where
  | base
  | extended
  deriving DecidableEq, Repr

namespace Model

def name : Model → String
  | base => "AQA ARM"
  | extended => "RS"

def instructions : Model → InstructionSet
  | base => baseInstructions
  | extended => extendedInstructions

end Model

structure Variant where
  model : Model
  instructions : InstructionSet
  defaultRegisters : List String
  /-- Added at the end of any list of names that lacks them. -/
  requiredRegisters : List String
  defaultKind : Kind
  initialise : Action Unit
  execute : Switches → Word → Step Bool

namespace Variant

def numbered (count : Nat) : List String := (List.range count).map fun i => "r" ++ toString (i + 1)

def base : Variant where
  model := .base
  instructions := baseInstructions
  defaultRegisters := numbered 8
  requiredRegisters := [instructionPointer]
  defaultKind := .float64
  initialise := pure ()
  execute := Context.execute baseInstructions

def emptyStack : Action Unit := fun c =>
  match Core.writeRegister (.name Core.stackPointer) (Word.ofNat c.memory.capacity) c with
  | .ok _ c => .ok () c
  | .error fault c => .error fault c

def extended : Variant where
  model := .extended
  instructions := extendedInstructions
  defaultRegisters := numbered 12
  requiredRegisters := [instructionPointer, accumulator, Core.stackPointer, compareRegister]
  defaultKind := .float32
  initialise := emptyStack
  execute := Context.execute extendedInstructions

def ofModel : Model → Variant
  | .base => base
  | .extended => extended

/-- A variant that does nothing but copy each opcode to the register `out`, until it is zero. -/
def echo : Variant where
  model := .base
  instructions := baseInstructions
  defaultRegisters := ["out"]
  requiredRegisters := [instructionPointer]
  defaultKind := .uint8
  initialise := pure ()
  execute := fun switches opcode => do
    let _ ← Context.onCore (Core.writeRegister (.name "out") opcode)
    Context.finish baseInstructions switches opcode (opcode.integer? ≠ some 0)

def withName (names : List String) (name : String) : List String :=
  if name ∈ names then names else names ++ [name]

/-- The names a machine has: those asked for, and the required ones in order as far as they are
missing. -/
def registerNames (v : Variant) (asked : Option (List String)) : List String :=
  v.requiredRegisters.foldl withName (asked.getD v.defaultRegisters)

section

variable (names : List String) (name : String) (required : List String)

theorem mem_withName {n : String} : n ∈ withName names name ↔ n ∈ names ∨ n = name := by
  rw [withName]
  split
  · rename_i hmem
    exact ⟨Or.inl, fun h => h.elim id (· ▸ hmem)⟩
  · rw [List.mem_append, List.mem_singleton]

theorem nodup_withName : (withName names name).Nodup ↔ names.Nodup := by
  rw [withName]
  split
  · exact Iff.rfl
  · rename_i hmem
    rw [List.nodup_append]
    refine ⟨And.left, fun h => ⟨h, by simp, fun n hn m hm => ?_⟩⟩
    rw [List.mem_singleton.mp hm]
    exact fun he => hmem (he ▸ hn)

theorem mem_foldl_withName {n : String} :
    n ∈ required.foldl withName names ↔ n ∈ names ∨ n ∈ required := by
  induction required generalizing names with
  | nil => simp
  | cons r rs ih => rw [List.foldl_cons, ih, mem_withName, List.mem_cons, or_assoc]

theorem nodup_foldl_withName : (required.foldl withName names).Nodup ↔ names.Nodup := by
  induction required generalizing names with
  | nil => rfl
  | cons r rs ih => rw [List.foldl_cons, ih, nodup_withName]

theorem foldl_withName (h : required.Nodup) :
    required.foldl withName names = names ++ required.filter (· ∉ names) := by
  induction required generalizing names with
  | nil => simp
  | cons r rs ih =>
    obtain ⟨hr, hrs⟩ := List.nodup_cons.mp h
    rw [List.foldl_cons, ih _ hrs, withName]
    by_cases hmem : r ∈ names
    · rw [if_pos hmem, List.filter_cons_of_neg (by simpa using hmem)]
    · -- the name added is not among those still to come
      have hrest : rs.filter (· ∉ names ++ [r]) = rs.filter (· ∉ names) := by
        refine List.filter_congr fun n hn => ?_
        have hne : n ≠ r := fun he => hr (he ▸ hn)
        simp [hne]
      rw [if_neg hmem, List.filter_cons_of_pos (by simpa using hmem), hrest, List.append_assoc]
      rfl

end

end Variant

end WordMachine
