import WordMachine.Processor.Run

/-!
# Hosts

Whatever a host can do to registers, to memory or to a whole processor, as data. A session is a list
of calls; a processor is reachable if some session leads to it from a new one.
-/

set_option autoImplicit false

namespace WordMachine

inductive Answer where
  | done
  | word (w : Word)
  | address (a : Nat)
  deriving DecidableEq, Repr

/-- A call that is refused changes nothing and reports nothing. -/
def settle {σ α : Type} (store : σ) :
    Except Fault (Update σ α) → Except Fault α × σ × List Event
  | .ok u => (.ok u.answer, u.store, u.events)
  | .error fault => (.error fault, store, [])

inductive RegisterCall where
  | write (s : Selector) (w : Word)
  | setIp (w : Word)
  | clear
  | observe (tag : String)
  deriving DecidableEq, Repr

def RegisterCall.apply (r : Registers) : RegisterCall → Except Fault (Update Registers Answer)
  | write s w => (r.write s w).map (Update.map .word)
  | setIp w => .ok ((r.setIp w).map .word)
  | clear => .ok ⟨.done, r.clear, []⟩
  | observe tag => .ok ⟨.done, r.observe tag, []⟩

def Registers.serve (r : Registers) (call : RegisterCall) :
    Except Fault Answer × Registers × List Event :=
  settle r (call.apply r)

inductive MemoryCall where
  | write (address : Nat) (w : Word)
  | writeRaw (address : Nat) (bytes : List UInt8)
  | load (start : Nat) (bytes : List UInt8)
  | loadWords (start : Nat) (ws : List Word)
  | fill (start stop : Nat) (w : Word)
  | clear
  | observe (tag : String)
  deriving DecidableEq, Repr

def MemoryCall.apply (m : Memory) : MemoryCall → Except Fault (Update Memory Answer)
  | write a w => (m.write a w).map (Update.map fun _ => .done)
  | writeRaw a bytes => (m.writeRaw a bytes).map (Update.map .word)
  | load start bytes => (m.load start bytes).map (Update.map .address)
  | loadWords start ws => (m.loadWords start ws).map (Update.map .address)
  | fill start stop w => (m.fill start stop w).map (Update.map fun _ => .done)
  | clear => .ok ⟨.done, m.clear, []⟩
  | observe tag => .ok ⟨.done, m.observe tag, []⟩

def Memory.serve (m : Memory) (call : MemoryCall) : Except Fault Answer × Memory × List Event :=
  settle m (call.apply m)

inductive HostCall where
  | cycle
  | run (limit : Nat)
  | fetch
  | reset
  | configure (switches : Switches)
  | registers (call : RegisterCall)
  | memory (call : MemoryCall)
  deriving DecidableEq, Repr

inductive Reply where
  | cycle (cycle : Cycle) (trace : List TraceEvent)
  | run (outcome : Except CycleFault RunOutcome) (trace : Array TraceEvent)
  | core (answer : Except Fault Answer)

namespace Processor

def serve (p : Processor) : HostCall → Reply × Processor
  | .cycle =>
    let (c, trace, after) := p.cycleTraced
    (.cycle c trace, after)
  | .run limit =>
    let r := p.run limit
    (.run r.outcome r.trace, r.after)
  | .fetch =>
    let (w, after) := p.fetch
    (.core (w.map .word), after)
  | .reset =>
    let (done, after) := p.reset
    (.core (done.map fun _ => .done), after)
  | .configure switches => (.core (.ok .done), { p with switches := switches })
  | .registers call =>
    let (a, after) := p.onCore (Core.onRegisters call.apply)
    (.core a, after)
  | .memory call =>
    let (a, after) := p.onCore (Core.onMemory call.apply)
    (.core a, after)

def after (p : Processor) (calls : List HostCall) : Processor :=
  calls.foldl (fun p call => (p.serve call).2) p

theorem after_append (p : Processor) (calls more : List HostCall) :
    p.after (calls ++ more) = (p.after calls).after more :=
  List.foldl_append

def replies (p : Processor) : List HostCall → List Reply
  | [] => []
  | call :: calls => (p.serve call).1 :: (p.serve call).2.replies calls

theorem replies_append (p : Processor) (calls more : List HostCall) :
    p.replies (calls ++ more) = p.replies calls ++ (p.after calls).replies more := by
  induction calls generalizing p with
  | nil => rfl
  | cons call calls ih => exact congrArg _ (ih _)

/-- A session leads to the processor from a new one of a model. -/
def Reachable (model : Model) (p : Processor) : Prop :=
  ∃ (configuration : Configuration) (new : Processor) (calls : List HostCall),
    create (.ofModel model) configuration = .ok new ∧ p = new.after calls

end Processor

end WordMachine
