import WordMachine.Kind.Hex
import WordMachine.Memory
import WordMachine.Registers

/-!
# The core

Registers and memory of one kind, with the log of what their observers were told. An instruction
first reads and checks, which can fail and changes nothing, and then makes writes, which cannot
fail. So an action is a function from the core to a fault or to an effect: an answer and a list of
writes. The stack grows down from the top of memory; its pointer is at the word pushed last.
-/

set_option autoImplicit false

namespace WordMachine

structure Core where
  registers : Registers
  memory : Memory
  log : Array Event
  deriving DecidableEq, Repr

/-- Work on a core; one that fails keeps what it had changed until then. -/
abbrev Action (α : Type) := EStateM Fault Core α

/-- A write to a register or an address that is known to be there. -/
inductive Write where
  | register (index : Nat) (word : Word)
  | memory (address : Nat) (word : Word)
  deriving DecidableEq, Repr

/-- What an action comes to once all its checks have passed. -/
structure Effect (α : Type) where
  answer : α
  writes : List Write

namespace Core

def kind (c : Core) : Kind := c.registers.kind

def readRegister (c : Core) (w : Word) : Except Fault Word := c.registers.read (.index w)

def readNamed (c : Core) (name : String) : Except Fault Word := c.registers.read (.name name)

def readMemory (c : Core) (w : Word) : Except Fault Word := do
  c.memory.read (← c.memory.addressOf w)

def hex (c : Core) (w : Word) : String := "0x" ++ c.kind.toHex w

/-- The name of the register that a word picks, or the word itself where it picks none. -/
def label (c : Core) (w : Word) : String :=
  ((c.registers.place? (.index w)).bind c.registers.nameOf?).getD w.text

def store (c : Core) : Write → Core
  | .register i w =>
    let u := c.registers.update i w
    { c with registers := u.store, log := c.log ++ u.events }
  | .memory a w =>
    let u := c.memory.update a w
    { c with memory := u.store, log := c.log ++ u.events }

def storeAll (c : Core) (writes : List Write) : Core := writes.foldl store c

theorem storeAll_append (c : Core) (ws vs : List Write) :
    c.storeAll (ws ++ vs) = (c.storeAll ws).storeAll vs :=
  List.foldl_append

def perform {α : Type} (effect : Core → Except Fault (Effect α)) : Action α := fun c =>
  match effect c with
  | .ok e => .ok e.answer (c.storeAll e.writes)
  | .error fault => .error fault c

theorem perform_error {α : Type} {effect : Core → Except Fault (Effect α)} {c c' : Core}
    {fault : Fault} (h : perform effect c = .error fault c') : c' = c := by
  simp only [perform] at h
  split at h <;> cases h
  rfl

def onRegisters {α : Type} (f : Registers → Except Fault (Update Registers α)) : Action α := fun c =>
  match f c.registers with
  | .ok u => .ok u.answer { c with registers := u.store, log := c.log ++ u.events }
  | .error fault => .error fault c

def onMemory {α : Type} (f : Memory → Except Fault (Update Memory α)) : Action α := fun c =>
  match f c.memory with
  | .ok u => .ok u.answer { c with memory := u.store, log := c.log ++ u.events }
  | .error fault => .error fault c

def writeRegister (s : Selector) (w : Word) : Action Word := onRegisters (·.write s w)

def writeEffect (address w : Word) (c : Core) : Except Fault (Effect Unit) := do
  return ⟨(), [.memory (← c.memory.addressOf address) w]⟩

def writeMemory (address w : Word) : Action Unit := perform (writeEffect address w)

/-- Reads the word at the instruction pointer and moves the pointer on by one. -/
def fetch : Action Word := perform fun c => do
  let ip := c.registers.ip
  return ⟨← c.readMemory ip, [.register c.registers.ipIndex (ip.add (Word.ofNat 1))]⟩

def stackPointer : String := "sp"

/-- Answers the stack pointer that is stored. -/
def pushEffect (w : Word) (c : Core) : Except Fault (Effect Word) := do
  let top := (← c.readNamed stackPointer).sub (Word.ofNat 1)
  let stored ← c.writeEffect top w
  let sp ← c.registers.resolve (.name stackPointer)
  return ⟨c.kind.coerce top, stored.writes ++ [.register sp top]⟩

def popEffect (c : Core) : Except Fault (Effect Word) := do
  let top ← c.readNamed stackPointer
  let w ← c.readMemory top
  let sp ← c.registers.resolve (.name stackPointer)
  return ⟨w, [.register sp (top.add (Word.ofNat 1))]⟩

def push (w : Word) : Action Word := perform (pushEffect w)

def pop : Action Word := perform popEffect

end Core

end WordMachine
