import WordMachine.Core
import WordMachine.Operation

/-!
# Effects of operations

What an operation reads, in which order it checks, what it writes, and how it is described. All but
the return from a subroutine make their checks before their first write.
-/

set_option autoImplicit false

namespace WordMachine

def accumulator : String := "acc"

def compareRegister : String := "cmp"

namespace Operand

def value (o : Operand) (c : Core) (w : Word) : Except Fault Word :=
  match o with
  | register => c.readRegister w
  | constant => .ok w

def label (o : Operand) (c : Core) (w : Word) : String :=
  match o with
  | register => c.label w
  | constant => c.hex w

end Operand

namespace Core

def accumulate (c : Core) (result : Word) (describe : String → String) :
    Except Fault (Effect String) := do
  let acc ← c.registers.resolve (.name accumulator)
  return ⟨accumulator ++ " = " ++ describe (c.hex (c.kind.coerce result)), [.register acc result]⟩

def step (c : Core) (register delta : Word) (sign : String) : Except Fault (Effect String) := do
  let value ← c.readRegister register
  let place ← c.registers.resolve (.index register)
  let result := value.add delta
  let name := c.label register
  return ⟨s!"{name} = {name} {sign} 1\n{c.hex value} {sign} {c.hex (Word.ofNat 1)} = "
    ++ c.hex (c.kind.coerce result), [.register place result]⟩

end Core

def OneOperand.effect (op : OneOperand) (w : Word) (c : Core) : Except Fault (Effect String) :=
  match op with
  | squareRoot o => do
    let value ← o.value c w
    c.accumulate value.sqrt fun stored => s!"sqrt({o.label c w})\nsqrt({c.hex value}) = {stored}"
  | increment => c.step w (Word.ofInt 1) "+"
  | decrement => c.step w (Word.ofInt (-1)) "-"
  | complement => do
    let value ← c.readRegister w
    c.accumulate (ofInteger (~~~toInteger value)) fun stored =>
      s!"~{c.label w}\n~{c.hex value} = {stored}"
  | jump condition o => do
    let target ← o.value c w
    let taken := condition.holds (Flag.ofWord? (← c.readNamed compareRegister))
    return ⟨s!"Set instruction pointer to {c.hex target}{condition.text}"
      ++ (if taken then "" else " (not taken)"),
      if taken then [.register c.registers.ipIndex target] else []⟩
  | push o => do
    let value ← o.value c w
    let pushed ← c.pushEffect value
    return ⟨s!"Push {o.label c w} ({c.hex value}) to stack (sp = {c.hex pushed.answer})",
      pushed.writes⟩
  | pop => do
    let place ← c.registers.resolve (.index w)
    let popped ← c.popEffect
    return ⟨s!"Pop {c.hex popped.answer} from stack to register {c.label w}",
      popped.writes ++ [.register place popped.answer]⟩
  | call o => do
    let target ← o.value c w
    let after := c.registers.ip
    let pushed ← c.pushEffect after
    return ⟨s!"Call subroutine at {c.hex target} (return to {c.hex after})",
      pushed.writes ++ [.register c.registers.ipIndex target]⟩

def TwoOperand.effect (op : TwoOperand) (first second : Word) (c : Core) :
    Except Fault (Effect String) :=
  match op with
  | move => do
    let value ← c.readRegister second
    let place ← c.registers.resolve (.index first)
    return ⟨s!"Copy value in register {c.label second} ({c.hex value}) to register {c.label first}",
      [.register place value]⟩
  | storeThrough => do
    let address ← c.readRegister first
    let value ← c.readRegister second
    let stored ← c.writeEffect address value
    return ⟨s!"Copy value in register {c.label second} ({c.hex value}) to address in register "
      ++ s!"{c.label first} (address {c.hex address})", stored.writes⟩
  | loadThrough => do
    let address ← c.readRegister second
    let value ← c.readMemory address
    let place ← c.registers.resolve (.index first)
    return ⟨s!"Copy value stored at address in register {c.label second} (address "
      ++ s!"{c.hex address} : {c.hex value}) to register {c.label first}",
      [.register place value]⟩
  | moveConstant => do
    let place ← c.registers.resolve (.index first)
    return ⟨s!"Move {c.hex second} to register {c.label first}", [.register place second]⟩
  | load => do
    let value ← c.readMemory second
    let place ← c.registers.resolve (.index first)
    return ⟨s!"Load memory address {c.hex second} ({c.hex value}) to register {c.label first}",
      [.register place value]⟩
  | copyIn => do
    let value ← c.readMemory second
    let place ← c.registers.resolve (.index first)
    return ⟨s!"Copy value at address {c.hex second} ({c.hex value}) to register {c.label first}",
      [.register place value]⟩
  | copyOut => do
    let value ← c.readRegister second
    let stored ← c.writeEffect first value
    return ⟨s!"Copy value in register {c.label second} ({c.hex value}) to address {c.hex first}",
      stored.writes⟩
  | arithmetic op o => do
    let left ← c.readRegister first
    let right ← o.value c second
    c.accumulate (op.apply left right) fun stored =>
      s!"{c.label first} {op.symbol} {o.label c second}\n"
        ++ s!"{c.hex left} {op.symbol} {c.hex right} = {stored}"
  | bitwise op o => do
    let left ← c.readRegister first
    let right ← o.value c second
    c.accumulate (ofInteger (op.apply (toInteger left) (toInteger right))) fun stored =>
      s!"{c.label first} {op.symbol} {o.label c second}\n"
        ++ s!"{c.hex left} {op.symbol} {c.hex right} = {stored}"
  | compare o => do
    let left ← c.readRegister first
    let right ← o.value c second
    let flag := Flag.compare left right
    let place ← c.registers.resolve (.name compareRegister)
    return ⟨s!"Compare {c.label first} ({c.hex left}) to {o.label c second} ({c.hex right}): "
      ++ flag.name, [.register place flag.toWord]⟩

/-- The argument words that a return drops: the integer part of their count, none if negative. -/
def droppedWords (count : Word) : Word :=
  if count.truncate.compare? (Word.zero false) = some .gt then count.truncate else Word.zero false

/-- Pops the return address, then the number of arguments, and drops these. The second pop may fail
when the first is done. -/
def Core.returnFromCall : Action String := do
  let target ← Core.pop
  let count ← Core.pop
  let dropped := droppedWords count
  Core.perform fun c => do
    let top ← c.readNamed stackPointer
    let sp ← c.registers.resolve (.name stackPointer)
    return ⟨s!"Return from subroutine to {c.hex target} (dropped {c.hex dropped} argument words)",
      [.register sp (top.add dropped), .register c.registers.ipIndex target]⟩

end WordMachine
