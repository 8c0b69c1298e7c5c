import WordMachine.Variant

/-!
# Processors

A variant at work on a core. A cycle fetches the word at the instruction pointer and executes it; a
cycle that fails keeps what it had changed, and the next one may still be asked for.
-/

set_option autoImplicit false

namespace WordMachine

/-- What a host asks for; the variant supplies what it leaves open. -/
structure Configuration where
  kind : Option Kind := none
  memoryWords : Nat := Memory.defaultCapacity
  registers : Option (List String) := none
  deriving DecidableEq, Repr

structure Processor where
  variant : Variant
  core : Core
  switches : Switches
  state : CycleState

/-- What a cycle answers: whether the machine goes on, or the fault, and the record either way. -/
structure Cycle where
  result : Except CycleFault Bool
  record : Record

namespace Processor

def initialise (p : Processor) : Except Fault Unit × Processor :=
  match p.variant.initialise p.core with
  | .ok _ c => (.ok (), { p with core := c })
  | .error fault c => (.error fault, { p with core := c })

def create (variant : Variant) (configuration : Configuration) : Except Fault Processor := do
  if configuration.memoryWords = 0 then throw (.invalidConfiguration .noMemory)
  let kind := configuration.kind.getD variant.defaultKind
  let registers ← Registers.create kind (variant.registerNames configuration.registers)
  let core := ⟨registers, Memory.create kind configuration.memoryWords, #[]⟩
  match initialise ⟨variant, core, {}, .ready⟩ with
  | (.ok _, p) => return p
  | (.error fault, _) => throw fault

def onCore {α : Type} (p : Processor) (action : Action α) : Except Fault α × Processor :=
  match action p.core with
  | .ok a c => (.ok a, { p with core := c })
  | .error fault c => (.error fault, { p with core := c })

def fetch (p : Processor) : Except Fault Word × Processor := p.onCore Core.fetch

/-- Zeroes the registers, sets up anew and is ready again; memory is kept. -/
def reset (p : Processor) : Except Fault Unit × Processor :=
  initialise
    { p with core := { p.core with registers := p.core.registers.clear }, state := .ready }

def fail (p : Processor) (ip : Word) (stage : Stage) (cause : Fault) (core : Core)
    (record : Record) : Cycle × Processor :=
  let fault : CycleFault := ⟨ip, stage, cause⟩
  (⟨.error fault, { record with terminate := true, fault := some fault }⟩,
    { p with core := core, state := .faulted })

/-- A cycle with a record of the host's, which may have been filled before. -/
def cycleInto (p : Processor) (record : Record) : Cycle × Processor :=
  let ip := p.core.registers.ip
  let record := record.restart ip
  match Core.fetch p.core with
  | .error cause core => p.fail ip .fetch cause core record
  | .ok opcode core =>
    match p.variant.execute p.switches opcode ⟨core, { record with opcode := some opcode }⟩ with
    | .error cause x => p.fail ip (.execute opcode) cause x.core x.record
    | .ok continues x =>
      (⟨.ok continues, x.record⟩,
        { p with core := x.core, state := .afterSuccess continues })

def cycle (p : Processor) : Cycle × Processor := p.cycleInto Record.fresh

theorem cycleInto_eq (p : Processor) (record : Record) : p.cycleInto record = p.cycle := by
  simp only [cycle, cycleInto, record.restart_eq, Record.fresh.restart_eq]

end Processor

def Cycle.trace (c : Cycle) (ip : Word) : List TraceEvent :=
  [.cycleStarted ip,
    match c.result with
    | .ok continues => .instructionRetired ip (c.record.opcode.getD Word.nan) continues
    | .error fault => .faultRaised ip fault.cause.faultClass]

def Processor.cycleTraced (p : Processor) : Cycle × List TraceEvent × Processor :=
  let (c, after) := p.cycle
  (c, c.trace p.core.registers.ip, after)

end WordMachine
