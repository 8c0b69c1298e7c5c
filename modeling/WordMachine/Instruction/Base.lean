import WordMachine.Instruction

/-!
# The reference instruction set

No operation, a load, and a halt.
-/

set_option autoImplicit false

namespace WordMachine

def baseInstructions : InstructionSet := [
  ⟨"NULL", "Null", "NULL", 0x00, [],
    "No operation - skip or halt",
    false, true, .idle⟩,
  ⟨"LDR", "Ldr", "LDR", 0x10, [.register, .address],
    "Load the value stored at memory address [address] into register [register]",
    false, true, .two .load⟩,
  ⟨"HALT", "Halt", "HALT", 0x7f, [],
    "Stop execution",
    false, true, .stop "Halt programme execution"⟩]

theorem baseInstructions_consistent : baseInstructions.Consistent where
  names := by decide +kernel
  opcodes := by decide +kernel
  arguments := by decide +kernel

end WordMachine
