import WordMachine.Processor

/-!
# Bounded runs

A run repeats the cycle until one stops or fails, or a limit is reached. Runs compose: the cycles of
a run up to its limit and of a second one after it are those of one run up to both limits.
-/

set_option autoImplicit false

namespace WordMachine

inductive StopReason where
  | terminated
  | cycleLimit
  deriving DecidableEq, Repr

/-- Cycles completed, why the run stopped, and the record of the last completed cycle. -/
structure RunOutcome where
  cycles : Nat
  stop : StopReason
  last : Record
  deriving DecidableEq, Repr

structure Run where
  outcome : Except CycleFault RunOutcome
  trace : Array TraceEvent
  after : Processor

namespace Processor

/-- Up to `limit` more cycles of a run that has completed some and traced them. -/
def runFrom (p : Processor) (cycles : Nat) (last : Record) (trace : Array TraceEvent) : Nat → Run
  | 0 => ⟨.ok ⟨cycles, .cycleLimit, last⟩, trace, p⟩
  | limit + 1 =>
    match p.cycleTraced with
    | (⟨.error fault, _⟩, events, after) => ⟨.error fault, trace ++ events, after⟩
    | (⟨.ok false, record⟩, events, after) =>
      ⟨.ok ⟨cycles + 1, .terminated, record⟩, trace ++ events, after⟩
    | (⟨.ok true, record⟩, events, after) =>
      after.runFrom (cycles + 1) record (trace ++ events) limit

def run (p : Processor) (limit : Nat) : Run := p.runFrom 0 Record.fresh #[] limit

def afterCycles (p : Processor) : Nat → Processor
  | 0 => p
  | n + 1 => (p.afterCycles n).cycle.2

theorem afterCycles_succ (p : Processor) (n : Nat) :
    p.afterCycles (n + 1) = p.cycle.2.afterCycles n := by
  induction n with
  | zero => rfl
  | succ n ih => rw [afterCycles, ih, afterCycles]

section

variable {p : Processor} (cycles : Nat) (last : Record) (trace : Array TraceEvent) (limit : Nat)

theorem runFrom_fault {fault : CycleFault} (h : p.cycle.1.result = .error fault) :
    p.runFrom cycles last trace (limit + 1) =
      ⟨.error fault, trace ++ p.cycle.1.trace p.core.registers.ip, p.cycle.2⟩ := by
  rcases hc : p.cycle with ⟨⟨result, record⟩, after⟩
  rw [hc] at h
  obtain rfl : result = .error fault := h
  simp only [runFrom, cycleTraced, hc]

theorem runFrom_stop (h : p.cycle.1.result = .ok false) :
    p.runFrom cycles last trace (limit + 1) =
      ⟨.ok ⟨cycles + 1, .terminated, p.cycle.1.record⟩,
        trace ++ p.cycle.1.trace p.core.registers.ip, p.cycle.2⟩ := by
  rcases hc : p.cycle with ⟨⟨result, record⟩, after⟩
  rw [hc] at h
  obtain rfl : result = .ok false := h
  simp only [runFrom, cycleTraced, hc]

theorem runFrom_continue (h : p.cycle.1.result = .ok true) :
    p.runFrom cycles last trace (limit + 1) =
      p.cycle.2.runFrom (cycles + 1) p.cycle.1.record
        (trace ++ p.cycle.1.trace p.core.registers.ip) limit := by
  rcases hc : p.cycle with ⟨⟨result, record⟩, after⟩
  rw [hc] at h
  obtain rfl : result = .ok true := h
  simp only [runFrom, cycleTraced, hc]

end

end Processor

end WordMachine
