import WordMachine.Fault

/-!
# Records and traces

What a host sees of a cycle: the record of one instruction, the state the processor is left in, and
the events of a trace.
-/

set_option autoImplicit false

namespace WordMachine

/-- Whether an idle instruction stops the machine, and how much of a record is filled. -/
structure Switches where
  haltOnIdle : Bool := true
  emitDetail : Bool := true
  emitCommentary : Bool := true
  deriving DecidableEq, Repr

structure Record where
  ip : Word
  opcode : Option Word := none
  arguments : List Word := []
  text : Option String := none
  mnemonic : Option String := none
  details : List String := []
  terminate : Bool := false
  fault : Option CycleFault := none
  deriving DecidableEq, Repr

def Record.start (ip : Word) : Record := { ip }

def Record.fresh : Record := .start (Word.zero false)

def Record.restart (r : Record) (ip : Word) : Record :=
  { r with
    ip := ip
    opcode := none
    arguments := []
    text := none
    mnemonic := none
    details := []
    terminate := false
    fault := none }

theorem Record.restart_eq (r : Record) (ip : Word) : r.restart ip = .start ip := rfl

def Record.plain (r : Record) : Record := { r with text := none, mnemonic := none, details := [] }

/-- The state a cycle leaves a processor in; fetching and executing are passed through. -/
inductive CycleState where
  | ready
  | fetching
  | executing
  | continuing
  | halted
  | faulted
  deriving DecidableEq, Repr

namespace CycleState

def all : List CycleState := [ready, fetching, executing, continuing, halted, faulted]

def name : CycleState → String
  | ready => "Ready"
  | fetching => "Fetching"
  | executing => "Executing"
  | continuing => "Continuing"
  | halted => "Halted"
  | faulted => "Faulted"

def isTerminal : CycleState → Bool
  | halted | faulted => true
  | _ => false

def afterSuccess (continues : Bool) : CycleState := if continues then continuing else halted

end CycleState

inductive TraceEvent where
  | cycleStarted (ip : Word)
  | instructionRetired (ip opcode : Word) (continues : Bool)
  | faultRaised (ip : Word) (faultClass : FaultClass)
  deriving DecidableEq, Repr

end WordMachine
