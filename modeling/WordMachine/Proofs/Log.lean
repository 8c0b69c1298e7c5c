import WordMachine.Proofs.Run

/-!
# The log of a run

A run is nothing but cycles one after the other, until one stops or fails or the limit is reached.
Its trace tells of each of them once and in order, and its outcome counts them and shows the last.
-/

set_option autoImplicit false

namespace WordMachine

structure Retirement where
  ip : Word
  opcode : Word
  continues : Bool

def Retirement.events (e : Retirement) : List TraceEvent :=
  [.cycleStarted e.ip, .instructionRetired e.ip e.opcode e.continues]

def CycleFault.events (fault : CycleFault) : List TraceEvent :=
  [.cycleStarted fault.ip, .faultRaised fault.ip fault.cause.faultClass]

structure Cycle.Retires (c : Cycle) (e : Retirement) : Prop where
  result : c.result = .ok e.continues
  ip : c.record.ip = e.ip
  opcode : c.record.opcode = some e.opcode

namespace Processor

/-- The first cycles of a processor as a log tells them: one after the other, each going on but
perhaps the last. -/
structure Logged (p : Processor) (log : List Retirement) : Prop where
  retires : ∀ i e, log[i]? = some e → (p.afterCycles i).cycle.1.Retires e
  goes_on : ∀ i e, log[i]? = some e → i + 1 < log.length → e.continues = true

def lastRecord (p : Processor) (given : Record) : Nat → Record
  | 0 => given
  | n + 1 => (p.afterCycles n).cycle.1.record

end Processor

/-- A run that answered: it left the processor after the cycles of the log and traced just these. -/
structure Run.Completes (r : Run) (p : Processor) (given : Record) (limit : Nat)
    (log : List Retirement) (o : RunOutcome) : Prop where
  after : r.after = p.afterCycles log.length
  trace : r.trace.toList = log.flatMap Retirement.events
  cycles : o.cycles = log.length
  last : o.last = p.lastRecord given log.length
  terminated : o.stop = .terminated ↔ ∃ e, log.getLast? = some e ∧ e.continues = false
  cycleLimit : o.stop = .cycleLimit → log.length = limit

/-- A run that failed: the cycle after those of the log did, and is the last one traced. -/
structure Run.Fails (r : Run) (p : Processor) (limit : Nat) (log : List Retirement)
    (fault : CycleFault) : Prop where
  after : r.after = p.afterCycles (log.length + 1)
  trace : r.trace.toList = log.flatMap Retirement.events ++ fault.events
  fails : (p.afterCycles log.length).cycle.1.result = .error fault
  early : log.length < limit
  all_go_on : ∀ e ∈ log, e.continues = true

namespace Processor

variable {model : Model} {p : Processor}

theorem lastRecord_succ (p : Processor) (given : Record) (n : Nat) :
    p.lastRecord given (n + 1) = p.cycle.2.lastRecord p.cycle.1.record n := by
  cases n with
  | zero => rfl
  | succ n => rw [lastRecord, afterCycles_succ, lastRecord]

theorem cycle_retires (hp : p.variant = Variant.ofModel model) {continues : Bool}
    (h : p.cycle.1.result = .ok continues) :
    ∃ e : Retirement, p.cycle.1.Retires e ∧ e.continues = continues ∧
      p.cycle.1.trace p.core.registers.ip = e.events := by
  obtain ⟨opcode, c, x, -, hx, hrecord, -⟩ := cycle_ok h
  rw [hp, model.execute_ofModel] at hx
  obtain ⟨row, -, ws, fetched, text, -, -, arguments, remark, -, hretired⟩ := Context.execute_ok hx
  have hplain := congrArg Record.plain (hrecord.trans hretired)
  rw [Context.retired_plain] at hplain
  have hip : p.cycle.1.record.ip = p.core.registers.ip := congrArg Record.ip hplain
  have hopcode : p.cycle.1.record.opcode = some opcode := congrArg Record.opcode hplain
  refine ⟨⟨p.core.registers.ip, opcode, continues⟩, ⟨h, hip, hopcode⟩, rfl, ?_⟩
  rw [Cycle.trace, h, hopcode]
  rfl

theorem cycle_fault_ip {fault : CycleFault} (h : p.cycle.1.result = .error fault) :
    fault.ip = p.core.registers.ip := by
  cases hf : Core.fetch p.core with
  | error cause c =>
    rw [cycle_unfetched hf] at h
    cases h
    rfl
  | ok opcode c =>
    cases hx : p.variant.execute p.switches opcode ⟨c, p.opened opcode⟩ with
    | error cause x =>
      rw [cycle_fails hf hx] at h
      cases h
      rfl
    | ok continues x =>
      rw [cycle_succeeds hf hx] at h
      cases h

theorem Logged.nil (p : Processor) : p.Logged [] where
  retires := fun _ _ h => nomatch h
  goes_on := fun _ _ h => nomatch h

theorem Logged.cons {e : Retirement} {log : List Retirement} (he : p.cycle.1.Retires e)
    (hgoes : log ≠ [] → e.continues = true) (hlog : p.cycle.2.Logged log) : p.Logged (e :: log) where
  retires := by
    intro i e' hi
    cases i with
    | zero =>
      obtain rfl : e = e' := Option.some.inj hi
      exact he
    | succ i =>
      rw [afterCycles_succ]
      exact hlog.retires i e' hi
  goes_on := by
    intro i e' hi hlt
    cases i with
    | zero =>
      obtain rfl : e = e' := Option.some.inj hi
      exact hgoes (List.ne_nil_of_length_pos (Nat.lt_of_succ_lt_succ hlt))
    | succ i => exact hlog.goes_on i e' hi (Nat.lt_of_succ_lt_succ hlt)

section

variable {r : Run} {given : Record} {limit : Nat} {e : Retirement} {log : List Retirement}

theorem shift_trace (r : Run) (cycles : Nat) (e : Retirement) :
    (r.shift cycles e.events.toArray).trace.toList = e.events ++ r.trace.toList := by
  simp [Run.shift]

theorem completes_cons {o : RunOutcome} (he : e.continues = true)
    (h : r.Completes p.cycle.2 p.cycle.1.record limit log o) :
    (r.shift 1 e.events.toArray).Completes p given (limit + 1) (e :: log)
      { o with cycles := 1 + o.cycles } where
  after := h.after.trans (p.afterCycles_succ _).symm
  trace := by rw [shift_trace, h.trace, List.flatMap_cons]
  cycles := by rw [h.cycles, List.length_cons, Nat.add_comm]
  last := h.last.trans (p.lastRecord_succ given _).symm
  terminated := by
    cases log with
    | nil => simpa [he] using h.terminated
    | cons e' log => simpa using h.terminated
  cycleLimit := fun hstop => by rw [List.length_cons, h.cycleLimit hstop]

theorem fails_cons {fault : CycleFault} (he : e.continues = true)
    (h : r.Fails p.cycle.2 limit log fault) :
    (r.shift 1 e.events.toArray).Fails p (limit + 1) (e :: log) fault where
  after := h.after.trans (p.afterCycles_succ _).symm
  trace := by rw [shift_trace, h.trace, List.flatMap_cons, List.append_assoc]
  fails := by
    rw [List.length_cons, afterCycles_succ]
    exact h.fails
  early := Nat.succ_lt_succ h.early
  all_go_on := by
    intro e' he'
    rcases List.mem_cons.mp he' with rfl | htail
    · exact he
    · exact h.all_go_on e' htail

end

theorem runFrom_logged (hp : p.variant = Variant.ofModel model) (given : Record) (limit : Nat) :
    ∃ log, p.Logged log ∧ log.length ≤ limit ∧
      (∀ o, (p.runFrom 0 given #[] limit).outcome = .ok o →
        (p.runFrom 0 given #[] limit).Completes p given limit log o) ∧
      ∀ fault, (p.runFrom 0 given #[] limit).outcome = .error fault →
        (p.runFrom 0 given #[] limit).Fails p limit log fault := by
  induction limit generalizing p given with
  | zero =>
    refine ⟨[], .nil p, Nat.le_refl 0, ?_, fun fault h => nomatch h⟩
    rintro _ ⟨⟩
    exact ⟨rfl, rfl, rfl, rfl, by simp, fun _ => rfl⟩
  | succ limit ih =>
    cases h : p.cycle.1.result with
    | error fault =>
      rw [runFrom_fault _ _ _ _ h]
      refine ⟨[], .nil p, Nat.zero_le _, (fun o h => nomatch h), ?_⟩
      rintro _ ⟨⟩
      refine ⟨rfl, ?_, h, Nat.succ_pos limit, fun e h => nomatch h⟩
      simp [Cycle.trace, h, CycleFault.events, cycle_fault_ip h]
    | ok continues =>
      obtain ⟨e, he, hcontinues, htrace⟩ := cycle_retires hp h
      cases continues with
      | false =>
        rw [runFrom_stop _ _ _ _ h, htrace]
        refine ⟨[e], .cons he (fun hne => absurd rfl hne) (.nil _), by simp, ?_,
          fun fault h => nomatch h⟩
        rintro _ ⟨⟩
        exact ⟨rfl, by simp, rfl, rfl, by simp [hcontinues], fun h => nomatch h⟩
      | true =>
        have hvariant : p.cycle.2.variant = Variant.ofModel model := (cycle_stores hp).1.trans hp
        obtain ⟨log, hlog, hlength, hcompletes, hfails⟩ := ih hvariant p.cycle.1.record
        have hrun : p.runFrom 0 given #[] (limit + 1) =
            (p.cycle.2.runFrom 0 p.cycle.1.record #[] limit).shift 1 e.events.toArray := by
          rw [runFrom_continue _ _ _ _ h, htrace, List.toArray_appendList, List.nil_append,
            ← runFrom_shift, Array.append_empty]
        rw [hrun]
        refine ⟨e :: log, .cons he (fun _ => hcontinues) hlog, Nat.succ_le_succ hlength, ?_, ?_⟩
        · intro o ho
          obtain ⟨o', ho', rfl⟩ := Check.map_eq_ok.mp ho
          exact completes_cons hcontinues (hcompletes o' ho')
        · intro fault hfault
          exact fails_cons hcontinues (hfails fault (Check.map_eq_error.mp hfault))

/-- A run does the cycles of its log one after the other, until one stops or fails or the limit is
reached, and traces what they answered. -/
theorem run_logs_cycles (hp : p.variant = Variant.ofModel model) (limit : Nat) :
    ∃ log, p.Logged log ∧ log.length ≤ limit ∧
      (∀ o, (p.run limit).outcome = .ok o → (p.run limit).Completes p Record.fresh limit log o) ∧
      ∀ fault, (p.run limit).outcome = .error fault → (p.run limit).Fails p limit log fault :=
  runFrom_logged hp Record.fresh limit

theorem halting_and_failing_runs_log_cycles :
    ∃ new, create (.ofModel .extended) ⟨some .uint8, 8, some ["x"]⟩ = .ok new ∧
      let p := new.after haltingSession
      let q := new.after failingSession
      (p.variant = Variant.ofModel .extended ∧
        ∃ log o, (p.run 5).outcome = .ok o ∧ o.stop = .terminated ∧ p.Logged log ∧
          log.length = 2 ∧ (p.run 5).Completes p Record.fresh 5 log o) ∧
      q.variant = Variant.ofModel .extended ∧
        ∃ log fault, (q.run 5).outcome = .error fault ∧ q.Logged log ∧
          (q.run 5).Fails q 5 log fault := by
  let fault : CycleFault := ⟨Word.ofNat 2, .execute (Word.ofNat 1), .unknownOpcode (Word.ofNat 1)⟩
  have hruns : (create (.ofModel .extended) ⟨some .uint8, 8, some ["x"]⟩).map (fun new =>
      (((new.after haltingSession).run 5).outcome.map fun o => (o.cycles, o.stop),
        ((new.after failingSession).run 5).outcome.map fun o => (o.cycles, o.stop))) =
      .ok (.ok (2, .terminated), .error fault) := by decide +kernel
  obtain ⟨new, hnew, hruns⟩ := Check.map_eq_ok.mp hruns
  obtain ⟨hhalts, hfails⟩ := Prod.mk.inj hruns
  obtain ⟨o, ho, hends⟩ := Check.map_eq_ok.mp hhalts
  obtain ⟨hcycles, hstop⟩ := Prod.mk.inj hends
  have hfails := Check.map_eq_error.mp hfails
  have hp := (after_sound (create_sound hnew) haltingSession).variant
  have hq := (after_sound (create_sound hnew) failingSession).variant
  obtain ⟨log, hlog, -, hcompletes, -⟩ := run_logs_cycles hp 5
  obtain ⟨log', hlog', -, -, hbreaks⟩ := run_logs_cycles hq 5
  have hlength : log.length = 2 := (hcompletes o ho).cycles.symm.trans hcycles
  exact ⟨new, hnew, ⟨hp, log, o, ho, hstop, hlog, hlength, hcompletes o ho⟩,
    hq, log', fault, hfails, hlog', hbreaks fault hfails⟩

end Processor

end WordMachine
