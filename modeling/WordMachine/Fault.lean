import WordMachine.Word.Text

/-!
# Faults

What can go wrong in a component, told by its cause, and what a cycle adds to it. The wording of
every fault is in this module.
-/

set_option autoImplicit false

namespace WordMachine

/-- How a register is picked; an index selects the register it lies in, fraction dropped. -/
inductive Selector where
  | name (name : String)
  | index (index : Word)
  deriving DecidableEq, Repr

def Selector.text : Selector → String
  | .name n => n
  | .index i => i.decimal Decimal.plain

/-- Why a hex dump is refused; `stated` is for a host that raises the fault in its own words. -/
inductive EncodingFlaw where
  | oddLength
  | byteCount
  | notHex
  | stated (reason : String)
  deriving DecidableEq, Repr

def EncodingFlaw.text : EncodingFlaw → String
  | .oddLength => "length is not a multiple of the byte group width"
  | .byteCount => "byte count does not match the numeric type"
  | .notHex => "group is not a hex byte"
  | .stated reason => reason

/-- Why a processor cannot be built; `stated` is for a host's own variant. -/
inductive ConfigurationFlaw where
  | noMemory
  | duplicateRegister (name : String)
  | noInstructionPointer
  | stated (reason : String)
  deriving DecidableEq, Repr

def ConfigurationFlaw.text : ConfigurationFlaw → String
  | .noMemory => "memory capacity must be at least one word"
  | .duplicateRegister name => "duplicate register name '" ++ name ++ "'"
  | .noInstructionPointer => "register map lacks the 'ip' register"
  | .stated reason => reason

inductive Fault where
  | unknownKind (name : String)
  | invalidRegister (selector : Selector)
  | outOfBounds (address : Word) (capacity : Nat)
  | sizeMismatch (expected actual : Nat)
  | malformedEncoding (input : String) (flaw : EncodingFlaw)
  | unknownOpcode (opcode : Word)
  | invalidConfiguration (flaw : ConfigurationFlaw)
  deriving DecidableEq, Repr

inductive FaultClass where
  | numeric
  | register
  | memory
  | encoding
  | dispatch
  | configuration
  deriving DecidableEq, Repr

namespace Fault

def faultClass : Fault → FaultClass
  | unknownKind _ => .numeric
  | invalidRegister _ => .register
  | outOfBounds _ _ | sizeMismatch _ _ => .memory
  | malformedEncoding _ _ => .encoding
  | unknownOpcode _ => .dispatch
  | invalidConfiguration _ => .configuration

def message : Fault → String
  | unknownKind name => "unknown numeric type '" ++ name ++ "'"
  | invalidRegister selector => "invalid register '" ++ selector.text ++ "'"
  | outOfBounds address capacity =>
    "memory access out of bounds at address " ++ address.text
      ++ " (capacity " ++ toString capacity ++ " words)"
  | sizeMismatch expected actual =>
    "raw word requires " ++ toString expected ++ " bytes, got " ++ toString actual
  | malformedEncoding input flaw => "malformed encoding '" ++ input ++ "': " ++ flaw.text
  | unknownOpcode opcode => "unknown opcode " ++ opcode.text
  | invalidConfiguration flaw => "invalid processor configuration: " ++ flaw.text

end Fault

inductive Stage where
  | fetch
  | execute (opcode : Word)
  deriving DecidableEq, Repr

def Stage.text : Stage → String
  | fetch => "cannot fetch next word"
  | execute opcode => "failed to execute opcode " ++ opcode.text

structure CycleFault where
  ip : Word
  stage : Stage
  cause : Fault
  deriving DecidableEq, Repr

def CycleFault.message (e : CycleFault) : String :=
  "cycle: failed to complete cycle where ip = " ++ e.ip.text ++ ": " ++ e.stage.text

end WordMachine
