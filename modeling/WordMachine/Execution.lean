import WordMachine.Effect
import WordMachine.Instruction
import WordMachine.Record

/-!
# Execution of one instruction

An instruction works on a core and a record. Its operand words are fetched first and put in the
record together, so the record holds all of them or none; then its effect is performed, and last
the record is completed. Commentary and detail never reach the core.
-/

set_option autoImplicit false

namespace WordMachine

structure Context where
  core : Core
  record : Record
  deriving DecidableEq, Repr

abbrev Step (α : Type) := EStateM Fault Context α

namespace Context

def onCore {α : Type} (action : Action α) : Step α := fun x =>
  match action x.core with
  | .ok a c => .ok a { x with core := c }
  | .error fault c => .error fault { x with core := c }

def setArguments (ws : List Word) : Step Unit :=
  modify fun x => { x with record := { x.record with arguments := ws } }

def comment (switches : Switches) (text : String) : Step Unit :=
  modify fun x =>
    if switches.emitCommentary then { x with record := { x.record with text := some text } } else x

def argumentDetail (c : Core) (a : Argument) (w : Word) : String :=
  a.label ++ ": " ++
    match a with
    | .register | .registerPointer => c.label w
    | .address | .constant | .symbol => c.hex w

def fillDetail (set : InstructionSet) (opcode : Word) (x : Context) : Record :=
  match set.lookup? opcode with
  | some row =>
    { x.record with
      mnemonic := some row.mnemonic
      details := List.zipWith (argumentDetail x.core) row.arguments x.record.arguments }
  | none => x.record

def finish (set : InstructionSet) (switches : Switches) (opcode : Word) (continues : Bool) :
    Step Bool := do
  modify fun x =>
    let record := if switches.emitDetail then fillDetail set opcode x else x.record
    { x with record := { record with terminate := !continues } }
  return continues

def refuseOpcode {α : Type} (opcode : Word) : Step α := do
  modify fun x => { x with record := { x.record with terminate := true } }
  throw (.unknownOpcode opcode)

/-- Operand words, effect and description; answers whether the machine goes on. -/
def run (switches : Switches) (name : String) : Operation → Step Bool
  | .idle => do
    comment switches
      (if switches.haltOnIdle then s!"{name}: halted programme execution"
        else s!"Skip {name} instruction")
    return !switches.haltOnIdle
  | .stop remark => do
    comment switches remark
    return false
  | .ret => do
    setArguments []
    comment switches (← onCore Core.returnFromCall)
    return true
  | .one op => do
    let w ← onCore Core.fetch
    setArguments [w]
    comment switches (← onCore (Core.perform (op.effect w)))
    return true
  | .two op => do
    let first ← onCore Core.fetch
    let second ← onCore Core.fetch
    setArguments [first, second]
    comment switches (← onCore (Core.perform (op.effect first second)))
    return true

def execute (set : InstructionSet) (switches : Switches) (opcode : Word) : Step Bool :=
  match set.lookup? opcode with
  | some row => do
    let continues ← run switches row.name row.operation
    finish set switches opcode continues
  | none => refuseOpcode opcode

end Context

end WordMachine
