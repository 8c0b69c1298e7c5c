import WordMachine.Operation

/-!
# Instruction sets

A row for each opcode: its names, its operands as an assembler sees them, and its operation. An
instruction set is the list of its rows in the order in which they are published.
-/

set_option autoImplicit false

namespace WordMachine

structure Instruction where
  name : String
  opcodeName : String
  mnemonic : String
  opcode : UInt8
  arguments : List Argument
  description : String
  acceptsTypeSuffix : Bool
  inReferenceSet : Bool
  operation : Operation
  deriving DecidableEq, Repr

/-- The opcode that a word is: an integer that fits a byte. -/
def opcodeByte? (w : Word) : Option UInt8 :=
  match w.integer? with
  | some n => if 0 ≤ n ∧ n ≤ 255 then some (UInt8.ofNat n.toNat) else none
  | none => none

abbrev InstructionSet := List Instruction

namespace InstructionSet

def opcode? (set : InstructionSet) (name : String) : Option UInt8 :=
  (set.find? (·.name = name)).map (·.opcode)

def ofByte? (set : InstructionSet) (byte : UInt8) : Option Instruction :=
  set.find? (·.opcode = byte)

def lookup? (set : InstructionSet) (w : Word) : Option Instruction :=
  (opcodeByte? w).bind set.ofByte?

def withMnemonic (set : InstructionSet) (mnemonic : String) : InstructionSet :=
  set.filter (·.mnemonic = mnemonic)

def opcodeTable (set : InstructionSet) : List (String × UInt8) :=
  set.map fun row => (row.name, row.opcode)

/-- Rows are told apart by name and by opcode, and the operands a row publishes are those its
operation takes. -/
structure Consistent (set : InstructionSet) : Prop where
  names : (set.map (·.name)).Nodup
  opcodes : (set.map (·.opcode)).Nodup
  arguments : ∀ row ∈ set, row.arguments = row.operation.arguments

end InstructionSet

end WordMachine
