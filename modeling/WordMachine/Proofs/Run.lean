import WordMachine.Proofs.Reachable

/-!
# Bounded runs compose

A run up to one limit followed by a run up to another is the run up to both limits: it leaves the
same processor, traces the same and answers the same. A run that stopped or failed before its limit
would have done so under any larger one.
-/

set_option autoImplicit false

namespace WordMachine

def Run.shift (r : Run) (cycles : Nat) (trace : Array TraceEvent) : Run :=
  ⟨r.outcome.map fun o => { o with cycles := cycles + o.cycles }, trace ++ r.trace, r.after⟩

/-- A run that reached its limit goes on up to a further one; one that ended has ended. -/
def Run.resume (r : Run) (limit : Nat) : Run :=
  match r.outcome with
  | .ok ⟨cycles, .cycleLimit, last⟩ => r.after.runFrom cycles last r.trace limit
  | .ok ⟨_, .terminated, _⟩ | .error _ => r

theorem trace_append (trace events : Array TraceEvent) (more : List TraceEvent) :
    trace ++ events ++ more = trace ++ (events ++ more) := by
  apply Array.ext'
  simp only [Array.toList_append, Array.toList_appendList, List.append_assoc]

namespace Processor

variable {p : Processor}

theorem runFrom_shift (p : Processor) (cycles done : Nat) (last : Record)
    (trace events : Array TraceEvent) (limit : Nat) :
    p.runFrom (cycles + done) last (trace ++ events) limit =
      (p.runFrom done last events limit).shift cycles trace := by
  induction limit generalizing p done last events with
  | zero => rfl
  | succ limit ih =>
    cases h : p.cycle.1.result with
    | error fault =>
      rw [runFrom_fault _ _ _ _ h, runFrom_fault _ _ _ _ h, trace_append]
      rfl
    | ok continues =>
      cases continues with
      | false =>
        rw [runFrom_stop _ _ _ _ h, runFrom_stop _ _ _ _ h, trace_append]
        rfl
      | true =>
        rw [runFrom_continue _ _ _ _ h, runFrom_continue _ _ _ _ h, trace_append,
          Nat.add_assoc, ih]

theorem runFrom_last (p : Processor) (cycles : Nat) (last last' : Record)
    (trace : Array TraceEvent) (limit : Nat) :
    p.runFrom cycles last trace (limit + 1) = p.runFrom cycles last' trace (limit + 1) := by
  cases h : p.cycle.1.result with
  | error fault => rw [runFrom_fault _ _ _ _ h, runFrom_fault _ _ _ _ h]
  | ok continues =>
    cases continues with
    | false => rw [runFrom_stop _ _ _ _ h, runFrom_stop _ _ _ _ h]
    | true => rw [runFrom_continue _ _ _ _ h, runFrom_continue _ _ _ _ h]

theorem runFrom_add (p : Processor) (cycles : Nat) (last : Record) (trace : Array TraceEvent)
    (m n : Nat) :
    p.runFrom cycles last trace (m + n) = (p.runFrom cycles last trace m).resume n := by
  induction m generalizing p cycles last trace with
  | zero =>
    rw [Nat.zero_add]
    rfl
  | succ m ih =>
    rw [Nat.succ_add]
    cases h : p.cycle.1.result with
    | error fault =>
      rw [runFrom_fault _ _ _ _ h, runFrom_fault _ _ _ _ h]
      rfl
    | ok continues =>
      cases continues with
      | false =>
        rw [runFrom_stop _ _ _ _ h, runFrom_stop _ _ _ _ h]
        rfl
      | true =>
        rw [runFrom_continue _ _ _ _ h, runFrom_continue _ _ _ _ h, ih]

/-- Two runs in a row are one run up to both limits, unless the first ended by itself: then it is
already the whole. -/
theorem run_add (p : Processor) (m n : Nat) :
    let first := p.run m
    let second := first.after.run n
    let whole := p.run (m + n)
    (∀ o, first.outcome = .ok o → o.stop = .cycleLimit →
      second.after = whole.after ∧ first.trace ++ second.trace = whole.trace ∧
      (∀ fault, second.outcome = .error fault ↔ whole.outcome = .error fault) ∧
      ∀ o₂, second.outcome = .ok o₂ → ∃ o', whole.outcome = .ok o' ∧
        o'.cycles = o.cycles + o₂.cycles ∧ o'.stop = o₂.stop ∧ (0 < n → o'.last = o₂.last)) ∧
    (∀ o, first.outcome = .ok o → o.stop = .terminated → whole = first) ∧
    ∀ fault, first.outcome = .error fault → whole = first := by
  intro first second whole
  have hwhole : whole = first.resume n := p.runFrom_add 0 Record.fresh #[] m n
  refine ⟨?_, ?_, ?_⟩
  · rintro ⟨cycles, _, last⟩ ho rfl
    have hresume : whole = (first.after.runFrom 0 last #[] n).shift cycles first.trace := by
      rw [hwhole, Run.resume, ho, ← runFrom_shift, Nat.add_zero, Array.append_empty]
    cases n with
    | zero =>
      rw [hresume]
      refine ⟨rfl, rfl, fun fault => ⟨fun h => (nomatch h), fun h => (nomatch h)⟩, ?_⟩
      rintro _ ⟨⟩
      exact ⟨_, rfl, rfl, rfl, fun h => absurd h (Nat.lt_irrefl 0)⟩
    | succ n =>
      rw [runFrom_last _ _ last Record.fresh] at hresume
      change whole = second.shift cycles first.trace at hresume
      rw [hresume]
      refine ⟨rfl, rfl, fun fault => ?_, fun o₂ ho₂ => ?_⟩
      · cases hsecond : second.outcome <;> simp [Run.shift, hsecond, Except.map]
      · exact ⟨{ o₂ with cycles := cycles + o₂.cycles }, by simp [Run.shift, ho₂, Except.map], rfl,
          rfl, fun _ => rfl⟩
  · rintro ⟨cycles, _, last⟩ ho rfl
    rw [hwhole, Run.resume, ho]
  · intro fault ho
    rw [hwhole, Run.resume, ho]

def haltingSession : List HostCall :=
  [.memory (.loadWords 0 [Word.ofNat 0x3e, Word.ofNat 0, Word.ofNat 0x7f])]

def failingSession : List HostCall :=
  [.memory (.loadWords 0 [Word.ofNat 0x3e, Word.ofNat 0, Word.ofNat 1])]

theorem halting_and_failing_runs_add :
    ∃ new, create (.ofModel .extended) ⟨some .uint8, 8, some ["x"]⟩ = .ok new ∧
      let p := new.after haltingSession
      let q := new.after failingSession
      (∃ o o₂ o', (p.run 1).outcome = .ok o ∧ o.stop = .cycleLimit ∧ 0 < 5 ∧
        ((p.run 1).after.run 5).outcome = .ok o₂ ∧ o₂.stop = .terminated ∧
        (p.run (1 + 5)).outcome = .ok o' ∧ o'.cycles = o.cycles + o₂.cycles ∧
        o'.stop = o₂.stop ∧ o'.last = o₂.last) ∧
      (∃ o, (p.run 2).outcome = .ok o ∧ o.stop = .terminated ∧ p.run (2 + 5) = p.run 2) ∧
      ∃ fault, (q.run 2).outcome = .error fault ∧ q.run (2 + 5) = q.run 2 := by
  let fault : CycleFault := ⟨Word.ofNat 2, .execute (Word.ofNat 1), .unknownOpcode (Word.ofNat 1)⟩
  have hruns : (create (.ofModel .extended) ⟨some .uint8, 8, some ["x"]⟩).map (fun new =>
      let p := new.after haltingSession
      (((p.run 1).outcome.map (·.stop), ((p.run 1).after.run 5).outcome.map (·.stop)),
        (p.run 2).outcome.map (·.stop), ((new.after failingSession).run 2).outcome.map (·.stop))) =
      .ok ((.ok .cycleLimit, .ok .terminated), .ok .terminated, .error fault) := by decide +kernel
  obtain ⟨new, hnew, hruns⟩ := Check.map_eq_ok.mp hruns
  obtain ⟨hparts, hends⟩ := Prod.mk.inj hruns
  obtain ⟨hfirst, hsecond⟩ := Prod.mk.inj hparts
  obtain ⟨hhalts, hfails⟩ := Prod.mk.inj hends
  obtain ⟨o, ho, hlimit⟩ := Check.map_eq_ok.mp hfirst
  obtain ⟨o₂, ho₂, hterminated⟩ := Check.map_eq_ok.mp hsecond
  obtain ⟨o₃, ho₃, hhalts⟩ := Check.map_eq_ok.mp hhalts
  have hfails := Check.map_eq_error.mp hfails
  obtain ⟨-, -, -, hwhole⟩ := (run_add (new.after haltingSession) 1 5).1 o ho hlimit
  obtain ⟨o', ho', hcycles, hstop, hlast⟩ := hwhole o₂ ho₂
  exact ⟨new, hnew,
    ⟨o, o₂, o', ho, hlimit, by decide, ho₂, hterminated, ho', hcycles, hstop, hlast (by decide)⟩,
    ⟨o₃, ho₃, hhalts, (run_add (new.after haltingSession) 2 5).2.1 o₃ ho₃ hhalts⟩,
    ⟨fault, hfails, (run_add (new.after failingSession) 2 5).2.2 fault hfails⟩⟩

end Processor

end WordMachine
