import WordMachine.Proofs.Success

/-!
# What a host is told of a cycle

A cycle is answered, recorded and remembered as a state of the processor. The three agree after every
session, whatever the record held before: a cycle that succeeded has a record that says so and no
fault, and one that failed has its fault in the record and no description. A processor is ready just
when no cycle has been run since it was new or reset.
-/

set_option autoImplicit false

namespace WordMachine

/-- The record of a cycle that succeeded. -/
structure Cycle.Completed (c : Cycle) (switches : Switches) (continues : Bool) : Prop where
  recorded : c.record.fault = none
  terminate : c.record.terminate = !continues
  text : c.record.text.isSome = switches.emitCommentary
  mnemonic : c.record.mnemonic.isSome = switches.emitDetail

/-- The record of a cycle that failed, and its fault. -/
structure Cycle.Failed (c : Cycle) (model : Model) (before : Core) (fault : CycleFault) : Prop where
  recorded : c.record.fault = some fault
  terminate : c.record.terminate = true
  undescribed : c.record.text = none ∧ c.record.mnemonic = none ∧ c.record.details = []
  ip : fault.ip = c.record.ip
  fetch : fault.stage = .fetch ↔ c.record.opcode = none
  unfetched : c.record.opcode = none →
    fault.cause = .outOfBounds c.record.ip before.memory.capacity
  execute : ∀ opcode, c.record.opcode = some opcode → fault.stage = .execute opcode
  arguments : c.record.arguments = [] ∨
    ∃ opcode row, c.record.opcode = some opcode ∧
      model.instructions.lookup? opcode = some row ∧ row.Operands c.record.arguments before

namespace Processor

variable {model : Model} {p : Processor}

theorem cycle_completed (hp : p.Sound model) {continues : Bool}
    (h : p.cycle.1.result = .ok continues) :
    p.cycle.1.record.ip = p.core.registers.ip ∧ p.cycle.1.Completed p.switches continues := by
  obtain ⟨opcode, row, ws, hrow, -, -, -, remark, hrecord⟩ := cycle_ready hp h
  have hplain := congrArg Record.plain hrecord
  rw [Context.retired_plain] at hplain
  obtain ⟨htext, hmnemonic⟩ := Context.retired_description hrow p.switches continues
    p.cycle.2.core (Context.remarked ⟨p.core, p.opened opcode⟩ p.switches ws remark)
  rw [← hrecord] at htext hmnemonic
  refine ⟨congrArg Record.ip hplain, congrArg Record.fault hplain,
    congrArg Record.terminate hplain, ?_, ?_⟩
  · rw [htext, Context.remarked]
    cases p.switches.emitCommentary <;> rfl
  · rw [hmnemonic]
    cases p.switches.emitDetail <;> rfl

theorem fail_fetch_failed (p : Processor) (c : Core) :
    let ip := p.core.registers.ip
    let cause := Fault.outOfBounds ip p.core.memory.capacity
    (p.fail ip .fetch cause c (Record.start ip)).1.Failed model p.core ⟨ip, .fetch, cause⟩ where
  recorded := rfl
  terminate := rfl
  undescribed := ⟨rfl, rfl, rfl⟩
  ip := rfl
  fetch := iff_of_true rfl rfl
  unfetched := fun _ => rfl
  execute := fun _ h => nomatch h
  arguments := Or.inl rfl

theorem fail_execute_failed (p : Processor) {opcode : Word} (cause : Fault) (c : Core)
    {arguments : List Word} (terminate : Bool)
    (h : arguments = [] ∨ ∃ row, model.instructions.lookup? opcode = some row ∧
      row.Operands arguments p.core) :
    let ip := p.core.registers.ip
    let record := { p.opened opcode with arguments := arguments, terminate := terminate }
    (p.fail ip (.execute opcode) cause c record).1.Failed model p.core
      ⟨ip, .execute opcode, cause⟩ where
  recorded := rfl
  terminate := rfl
  undescribed := ⟨rfl, rfl, rfl⟩
  ip := rfl
  fetch := iff_of_false Stage.noConfusion (Option.some_ne_none opcode)
  unfetched := fun hnone => nomatch hnone
  execute := fun _ hsome => congrArg Stage.execute (Option.some.inj hsome)
  arguments := h.imp_right fun ⟨row, hrow, hws⟩ => ⟨opcode, row, rfl, hrow, hws⟩

theorem cycle_failed (hp : p.Sound model) {fault : CycleFault}
    (h : p.cycle.1.result = .error fault) :
    p.cycle.1.record.ip = p.core.registers.ip ∧ p.cycle.1.Failed model p.core fault := by
  cases hf : Core.fetch p.core with
  | error cause c =>
    obtain ⟨hread, -⟩ := (Core.fetch_eq_error hp.core.registers (n := 0)).mp hf
    obtain rfl : cause = .outOfBounds p.core.registers.ip p.core.memory.capacity :=
      Core.readMemory_error hp.core.memory hread
    rw [cycle_unfetched hf] at h ⊢
    cases h
    exact ⟨rfl, fail_fetch_failed p c⟩
  | ok opcode c =>
    obtain ⟨-, rfl⟩ := (Core.fetch_eq_ok hp.core.registers (n := 0)).mp hf
    cases hx : p.variant.execute p.switches opcode ⟨p.core.advanced 1, p.opened opcode⟩ with
    | ok continues x =>
      rw [cycle_succeeds hf hx] at h
      cases h
    | error cause x =>
      rw [cycle_fails hf hx] at h ⊢
      cases h
      rw [hp.variant, model.execute_ofModel] at hx
      rcases Context.execute_error hx with
        ⟨-, -, rfl⟩ | ⟨row, hrow, ⟨-, hrecord⟩ | ⟨ws, d, hfetch, -, hrecord⟩⟩
      · exact ⟨rfl, fail_execute_failed p cause _ true (Or.inl rfl)⟩
      · rw [hrecord]
        exact ⟨rfl, fail_execute_failed p cause _ false (Or.inl rfl)⟩
      · rw [← Model.arguments_of_lookup hrow] at hfetch
        obtain ⟨hl, hs, -⟩ := (Core.fetchMany_eq_ok hp.core.registers).mp hfetch
        rw [hrecord]
        exact ⟨rfl, fail_execute_failed p cause _ false (Or.inr ⟨row, hrow, hl, hs⟩)⟩

end Processor

def Cycle.state (c : Cycle) : CycleState :=
  match c.result with
  | .ok continues => .afterSuccess continues
  | .error _ => .faulted

/-- The state between two calls, once a cycle has been run or not since the last reset. -/
structure CycleState.Tells (state : CycleState) (ran : Bool) : Prop where
  not_fetching : state ≠ .fetching
  not_executing : state ≠ .executing
  ready_iff : state = .ready ↔ ran = false

def HostCall.ran (before : Bool) : HostCall → Bool
  | .cycle => true
  | .run limit => before || limit != 0
  | .reset => false
  | .fetch | .configure _ | .registers _ | .memory _ => before

def ranCycle (calls : List HostCall) : Bool := calls.foldl HostCall.ran false

theorem Cycle.state_tells (c : Cycle) : c.state.Tells true := by
  unfold state
  cases c.result with
  | ok continues => cases continues <;> constructor <;> decide
  | error fault =>
    show CycleState.faulted.Tells true
    constructor <;> decide

namespace Processor

variable {model : Model} {p : Processor} {ran : Bool}

theorem cycle_state (p : Processor) : p.cycle.2.state = p.cycle.1.state := by
  cases hf : Core.fetch p.core with
  | error cause c => rw [cycle_unfetched hf]; rfl
  | ok opcode c =>
    cases hx : p.variant.execute p.switches opcode ⟨c, p.opened opcode⟩ with
    | error cause x => rw [cycle_fails hf hx]; rfl
    | ok continues x => rw [cycle_succeeds hf hx]; rfl

theorem cycle_tells (p : Processor) : p.cycle.2.state.Tells true :=
  p.cycle_state ▸ p.cycle.1.state_tells

theorem runFrom_tells (h : p.state.Tells ran) (cycles : Nat) (last : Record)
    (trace : Array TraceEvent) (limit : Nat) :
    (p.runFrom cycles last trace limit).after.state.Tells (ran || limit != 0) := by
  induction limit generalizing p ran cycles last trace with
  | zero =>
    rw [bne_self_eq_false, Bool.or_false]
    exact h
  | succ limit ih =>
    have hran : (ran || limit + 1 != 0) = true := by simp
    have hcycle := p.cycle_tells
    rw [hran]
    cases hresult : p.cycle.1.result with
    | error fault =>
      rw [runFrom_fault _ _ _ _ hresult]
      exact hcycle
    | ok continues =>
      cases continues with
      | false =>
        rw [runFrom_stop _ _ _ _ hresult]
        exact hcycle
      | true =>
        rw [runFrom_continue _ _ _ _ hresult]
        exact ih hcycle _ _ _

theorem onCore_state {α : Type} (p : Processor) (action : Action α) :
    (p.onCore action).2.state = p.state := by rw [onCore_snd]

theorem initialise_state (p : Processor) : p.initialise.2.state = p.state := by
  rw [initialise_snd]

theorem serve_tells (h : p.state.Tells ran) (call : HostCall) :
    (p.serve call).2.state.Tells (call.ran ran) := by
  cases call with
  | cycle => exact p.cycle_tells
  | run limit => exact runFrom_tells h 0 Record.fresh #[] limit
  | fetch => exact (p.onCore_state Core.fetch).symm ▸ h
  | reset =>
    have hready : p.reset.2.state = .ready := p.cleared.initialise_state
    have htells : CycleState.ready.Tells false := by constructor <;> decide
    exact hready.symm ▸ htells
  | configure switches => exact h
  | registers call => exact (p.onCore_state (Core.onRegisters call.apply)).symm ▸ h
  | memory call => exact (p.onCore_state (Core.onMemory call.apply)).symm ▸ h

theorem after_tells (h : p.state.Tells ran) (calls : List HostCall) :
    (p.after calls).state.Tells (calls.foldl HostCall.ran ran) := by
  induction calls generalizing p ran with
  | nil => exact h
  | cons call calls ih => exact ih (serve_tells h call)

theorem create_state {configuration : Configuration}
    (h : create (.ofModel model) configuration = .ok p) : p.state = .ready := by
  obtain ⟨-, registers, -, hinitialise⟩ := create_ok h
  have hstate := (blank (.ofModel model) (configuration.kind.getD (Variant.ofModel model).defaultKind)
    registers configuration.memoryWords).initialise_state
  rw [hinitialise] at hstate
  exact hstate

/-- The answer of a cycle, the record it is given and the state it leads to agree, and the state
before it tells whether any cycle has been run. -/
theorem outcome_agrees {configuration : Configuration} {new : Processor}
    (hnew : create (.ofModel model) configuration = .ok new) (calls : List HostCall)
    (record : Record) :
    let p := new.after calls
    let c := (p.cycleInto record).1
    let q := (p.cycleInto record).2
    c.record.ip = p.core.registers.ip ∧
    (∀ continues, c.result = .ok continues →
      c.Completed p.switches continues ∧ q.state = if continues then .continuing else .halted) ∧
    (∀ fault, c.result = .error fault → c.Failed model p.core fault ∧ q.state = .faulted) ∧
    p.state.Tells (ranCycle calls) := by
  intro p c q
  have hs : p.Sound model := after_sound (create_sound hnew) calls
  have htells : new.state.Tells false := by
    rw [create_state hnew]
    constructor <;> decide
  have hstate : p.cycle.2.state = p.cycle.1.state := p.cycle_state
  simp only [c, q, p.cycleInto_eq record]
  refine ⟨?_, fun continues h => ⟨(cycle_completed hs h).2, ?_⟩,
    fun fault h => ⟨(cycle_failed hs h).2, ?_⟩, after_tells htells calls⟩
  · cases h : p.cycle.1.result with
    | ok continues => exact (cycle_completed hs h).1
    | error fault => exact (cycle_failed hs h).1
  · rw [hstate, Cycle.state, h]
    rfl
  · rw [hstate, Cycle.state, h]

theorem faulted_record_is_used_again :
    ∃ new, create (.ofModel .extended) ⟨some .int8, 8, some []⟩ = .ok new ∧
      let load : HostCall := .memory (.loadWords 0 ([0x20, 0x13, 1, 7].map Word.ofNat))
      let first := (new.after [load]).cycle.1
      let p := new.after [load, .cycle]
      let second := (p.cycleInto first.record).1
      (∃ fault, first.result = .error fault ∧ first.Failed .extended (new.after [load]).core fault) ∧
        p.state = .faulted ∧ second.result = .ok true ∧ second.record.ip = Word.ofNat 1 ∧
        second.Completed p.switches true := by
  let load : HostCall := .memory (.loadWords 0 ([0x20, 0x13, 1, 7].map Word.ofNat))
  let fault : CycleFault :=
    ⟨Word.ofNat 0, .execute (Word.ofNat 0x20), .unknownOpcode (Word.ofNat 0x20)⟩
  have hruns : (create (.ofModel .extended) ⟨some .int8, 8, some []⟩).map (fun new =>
      let first := (new.after [load]).cycle.1
      let second := ((new.after [load, .cycle]).cycleInto first.record).1
      (first.result, second.result, (new.after [load, .cycle]).core.registers.ip)) =
      .ok (.error fault, .ok true, Word.ofNat 1) := by decide +kernel
  have hruns := Check.map_eq_ok.mp hruns
  obtain ⟨new, hnew, hruns⟩ := hruns
  obtain ⟨hfirst, hruns⟩ := Prod.mk.inj hruns
  obtain ⟨hsecond, hip⟩ := Prod.mk.inj hruns
  let first := (new.after [load]).cycle.1
  obtain ⟨-, -, hfailed, -⟩ := outcome_agrees hnew [load] Record.fresh
  obtain ⟨hrecord, hstate⟩ := hfailed fault hfirst
  obtain ⟨hstart, hcompleted, -⟩ := outcome_agrees hnew [load, .cycle] first.record
  exact ⟨new, hnew, ⟨fault, hfirst, hrecord⟩, hstate, hsecond, hstart.trans hip,
    (hcompleted true hsecond).1⟩

end Processor

end WordMachine
