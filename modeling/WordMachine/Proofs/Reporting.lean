import WordMachine.Proofs.Reachable

/-!
# Reporting does not influence execution

Two switches decide how much of a record is filled, and nothing else: processors that differ in
these alone answer every session alike. Only what their records say in words may differ.
-/

set_option autoImplicit false

namespace WordMachine

namespace Context

variable {α β : Type}

def plain (x : Context) : Context := { x with record := x.record.plain }

def plainResult : EStateM.Result Fault Context α → EStateM.Result Fault Context α
  | .ok a x => .ok a x.plain
  | .error fault x => .error fault x.plain

theorem core_of_plain {x y : Context} (h : x.plain = y.plain) : x.core = y.core :=
  (Context.mk.inj h).1

theorem plainResult_cases {r s : EStateM.Result Fault Context α}
    (h : plainResult r = plainResult s) :
    (∃ a x y, r = .ok a x ∧ s = .ok a y ∧ x.plain = y.plain) ∨
      ∃ fault x y, r = .error fault x ∧ s = .error fault y ∧ x.plain = y.plain := by
  cases r with
  | ok a x =>
    cases s with
    | ok b y =>
      obtain ⟨rfl, hplain⟩ := EStateM.Result.ok.inj h
      exact Or.inl ⟨a, x, y, rfl, rfl, hplain⟩
    | error fault y => cases h
  | error fault x =>
    cases s with
    | ok b y => cases h
    | error fault' y =>
      obtain ⟨rfl, hplain⟩ := EStateM.Result.error.inj h
      exact Or.inr ⟨fault, x, y, rfl, rfl, hplain⟩

/-- Steps that do the same in contexts that differ in their descriptions alone. -/
def Alike (s t : Step α) : Prop :=
  ∀ x y : Context, x.plain = y.plain → plainResult (s x) = plainResult (t y)

namespace Alike

theorem of_plain {s t : Step α} (f : Context → EStateM.Result Fault Context α)
    (hs : ∀ x, plainResult (s x) = f x.plain) (ht : ∀ x, plainResult (t x) = f x.plain) :
    Alike s t := by
  intro x y h
  rw [hs, ht, h]

theorem bind {s t : Step α} {f g : α → Step β} (h : Alike s t) (hf : ∀ a, Alike (f a) (g a)) :
    Alike (s >>= f) (t >>= g) := by
  intro x y hxy
  show plainResult (EStateM.bind s f x) = plainResult (EStateM.bind t g y)
  simp only [EStateM.bind]
  rcases plainResult_cases (h x y hxy) with
    ⟨a, x', y', hs, ht, hplain⟩ | ⟨fault, x', y', hs, ht, hplain⟩
  · rw [hs, ht]
    exact hf a x' y' hplain
  · rw [hs, ht]
    exact congrArg (EStateM.Result.error fault) hplain

theorem pure (a : α) : Alike (pure a) (pure a) := of_plain (.ok a) (fun _ => rfl) fun _ => rfl

theorem onCore (action : Action α) : Alike (onCore action) (onCore action) := by
  have hplain : ∀ x, plainResult (Context.onCore action x) = Context.onCore action x.plain := by
    intro x
    show plainResult (Context.onCore action x) = Context.onCore action ⟨x.core, x.record.plain⟩
    simp only [Context.onCore]
    cases action x.core <;> rfl
  exact of_plain _ hplain hplain

theorem setArguments (ws : List Word) : Alike (setArguments ws) (setArguments ws) :=
  of_plain (Context.setArguments ws) (fun _ => rfl) fun _ => rfl

theorem comment (s t : Switches) (text : String) : Alike (comment s text) (comment t text) := by
  have hplain : ∀ (s : Switches) (x : Context),
      plainResult (Context.comment s text x) = .ok () x.plain := by
    intro s x
    show EStateM.Result.ok () _ = _
    cases s.emitCommentary <;> rfl
  exact of_plain _ (hplain s) (hplain t)

theorem finish (set : InstructionSet) (s t : Switches) (opcode : Word) (continues : Bool) :
    Alike (finish set s opcode continues) (finish set t opcode continues) := by
  let completed (x : Context) : EStateM.Result Fault Context Bool :=
    .ok continues { x with record := { x.record with terminate := !continues } }
  have hplain : ∀ (s : Switches) (x : Context),
      plainResult (Context.finish set s opcode continues x) = completed x.plain := by
    intro s x
    rw [finish_eq_ok.mpr ⟨rfl, rfl⟩, plainResult, plain, retired_plain]
    rfl
  exact of_plain completed (hplain s) (hplain t)

theorem refuseOpcode (opcode : Word) :
    Alike (refuseOpcode opcode : Step α) (refuseOpcode opcode) :=
  of_plain (Context.refuseOpcode opcode) (fun _ => rfl) fun _ => rfl

end Alike

variable {s t : Switches} (h : s.haltOnIdle = t.haltOnIdle)
include h

theorem run_alike (name : String) (op : Operation) : Alike (run s name op) (run t name op) := by
  cases op with
  | idle =>
    simp only [run, h]
    exact (Alike.comment s t _).bind fun _ => .pure _
  | stop remark => exact (Alike.comment s t remark).bind fun _ => .pure false
  | ret =>
    exact (Alike.setArguments []).bind fun _ => (Alike.onCore _).bind fun text =>
      (Alike.comment s t text).bind fun _ => .pure true
  | one op =>
    exact (Alike.onCore _).bind fun w => (Alike.setArguments [w]).bind fun _ =>
      (Alike.onCore _).bind fun text => (Alike.comment s t text).bind fun _ => .pure true
  | two op =>
    exact (Alike.onCore _).bind fun first => (Alike.onCore _).bind fun second =>
      (Alike.setArguments [first, second]).bind fun _ => (Alike.onCore _).bind fun text =>
        (Alike.comment s t text).bind fun _ => .pure true

theorem execute_alike (set : InstructionSet) (opcode : Word) :
    Alike (execute set s opcode) (execute set t opcode) := by
  unfold execute
  cases set.lookup? opcode with
  | none => exact .refuseOpcode opcode
  | some row =>
    exact (run_alike h row.name row.operation).bind fun continues =>
      .finish set s t opcode continues

end Context

def Cycle.plain (c : Cycle) : Cycle := { c with record := c.record.plain }

def RunOutcome.plain (o : RunOutcome) : RunOutcome := { o with last := o.last.plain }

def Reply.plain : Reply → Reply
  | .cycle c trace => .cycle c.plain trace
  | .run outcome trace => .run (outcome.map RunOutcome.plain) trace
  | .core answer => .core answer

namespace Processor

/-- Processors that differ in their reporting switches alone. -/
structure Alike (p q : Processor) : Prop where
  variant : p.variant = q.variant
  core : p.core = q.core
  state : p.state = q.state
  haltOnIdle : p.switches.haltOnIdle = q.switches.haltOnIdle

variable {model : Model} {p q : Processor}

theorem fail_alike (h : p.Alike q) (ip : Word) (stage : Stage) (cause : Fault) (c : Core)
    {r s : Record} (hr : r.plain = s.plain) :
    (p.fail ip stage cause c r).1.plain = (q.fail ip stage cause c s).1.plain ∧
      (p.fail ip stage cause c r).2.Alike (q.fail ip stage cause c s).2 := by
  let failed (r : Record) : Cycle :=
    ⟨.error ⟨ip, stage, cause⟩, { r with terminate := true, fault := some ⟨ip, stage, cause⟩ }⟩
  exact ⟨congrArg failed hr, h.variant, rfl, rfl, h.haltOnIdle⟩

theorem cycle_alike (hp : p.variant = Variant.ofModel model) (h : p.Alike q) :
    p.cycle.1.plain = q.cycle.1.plain ∧ p.cycle.2.Alike q.cycle.2 := by
  have hip : p.core.registers.ip = q.core.registers.ip := by rw [h.core]
  cases hf : Core.fetch p.core with
  | error cause c =>
    have hf' : Core.fetch q.core = .error cause c := h.core ▸ hf
    rw [cycle_unfetched hf, cycle_unfetched hf', hip]
    exact fail_alike h _ _ _ _ rfl
  | ok opcode c =>
    have hf' : Core.fetch q.core = .ok opcode c := h.core ▸ hf
    have hopened : p.opened opcode = q.opened opcode := by rw [opened, opened, hip]
    have hq : q.variant = Variant.ofModel model := h.variant ▸ hp
    have hexecute := Context.execute_alike h.haltOnIdle model.instructions opcode
      ⟨c, p.opened opcode⟩ ⟨c, q.opened opcode⟩ (by rw [hopened])
    rw [← model.execute_ofModel] at hexecute
    rcases Context.plainResult_cases hexecute with
      ⟨continues, x, y, hx, hy, hplain⟩ | ⟨cause, x, y, hx, hy, hplain⟩
    · rw [cycle_succeeds hf (hp ▸ hx), cycle_succeeds hf' (hq ▸ hy)]
      exact ⟨congrArg (Cycle.mk (.ok continues)) (congrArg Context.record hplain), h.variant,
        Context.core_of_plain hplain, rfl, h.haltOnIdle⟩
    · rw [cycle_fails hf (hp ▸ hx), cycle_fails hf' (hq ▸ hy), hip, Context.core_of_plain hplain]
      exact fail_alike h _ _ _ _ (congrArg Context.record hplain)

end Processor

theorem Cycle.trace_of_plain {c d : Cycle} (h : c.plain = d.plain) (ip : Word) :
    c.trace ip = d.trace ip := by
  show c.plain.trace ip = d.plain.trace ip
  rw [h]

structure Run.Alike (r s : Run) : Prop where
  outcome : r.outcome.map RunOutcome.plain = s.outcome.map RunOutcome.plain
  trace : r.trace = s.trace
  after : r.after.Alike s.after

namespace Processor

variable {model : Model} {p q : Processor}

theorem runFrom_alike (hp : p.variant = Variant.ofModel model) (h : p.Alike q) (cycles : Nat)
    {last last' : Record} (hlast : last.plain = last'.plain) (trace : Array TraceEvent)
    (limit : Nat) :
    (p.runFrom cycles last trace limit).Alike (q.runFrom cycles last' trace limit) := by
  induction limit generalizing p q cycles last last' trace with
  | zero =>
    let ended (r : Record) : Except CycleFault RunOutcome := .ok ⟨cycles, .cycleLimit, r⟩
    exact ⟨congrArg ended hlast, rfl, h⟩
  | succ limit ih =>
    obtain ⟨hcycle, hafter⟩ := cycle_alike hp h
    obtain ⟨hresult, hrecord⟩ := Cycle.mk.inj hcycle
    have hip : p.core.registers.ip = q.core.registers.ip := by rw [h.core]
    have htrace := Cycle.trace_of_plain hcycle q.core.registers.ip
    cases hq : q.cycle.1.result with
    | error fault =>
      rw [runFrom_fault _ _ _ _ (hresult.trans hq), runFrom_fault _ _ _ _ hq, hip, htrace]
      exact ⟨rfl, rfl, hafter⟩
    | ok continues =>
      cases continues with
      | false =>
        let ended (r : Record) : Except CycleFault RunOutcome := .ok ⟨cycles + 1, .terminated, r⟩
        rw [runFrom_stop _ _ _ _ (hresult.trans hq), runFrom_stop _ _ _ _ hq, hip, htrace]
        exact ⟨congrArg ended hrecord, rfl, hafter⟩
      | true =>
        rw [runFrom_continue _ _ _ _ (hresult.trans hq), runFrom_continue _ _ _ _ hq, hip, htrace]
        exact ih ((cycle_stores hp).1.trans hp) hafter (cycles + 1) hrecord _

theorem onCore_alike {α : Type} (h : p.Alike q) (action : Action α) :
    (p.onCore action).1 = (q.onCore action).1 ∧ (p.onCore action).2.Alike (q.onCore action).2 := by
  rw [onCore, onCore, h.core]
  cases action q.core with
  | ok a c => exact ⟨rfl, h.variant, rfl, h.state, h.haltOnIdle⟩
  | error fault c => exact ⟨rfl, h.variant, rfl, h.state, h.haltOnIdle⟩

theorem reset_alike (h : p.Alike q) :
    p.reset.1 = q.reset.1 ∧ p.reset.2.Alike q.reset.2 := by
  simp only [reset, initialise, h.core, h.variant]
  cases q.variant.initialise { q.core with registers := q.core.registers.clear } with
  | ok a c => exact ⟨rfl, rfl, rfl, rfl, h.haltOnIdle⟩
  | error fault c => exact ⟨rfl, rfl, rfl, rfl, h.haltOnIdle⟩

theorem serve_alike (hp : p.variant = Variant.ofModel model) (h : p.Alike q) (call : HostCall) :
    (p.serve call).1.plain = (q.serve call).1.plain ∧ (p.serve call).2.Alike (q.serve call).2 := by
  cases call with
  | cycle =>
    obtain ⟨hcycle, hafter⟩ := cycle_alike hp h
    have htrace := Cycle.trace_of_plain hcycle p.core.registers.ip
    refine ⟨?_, hafter⟩
    show Reply.cycle p.cycle.1.plain (p.cycle.1.trace p.core.registers.ip) =
      Reply.cycle q.cycle.1.plain (q.cycle.1.trace q.core.registers.ip)
    rw [hcycle, htrace, h.core]
  | run limit =>
    have hrun : (p.runFrom 0 Record.fresh #[] limit).Alike (q.runFrom 0 Record.fresh #[] limit) :=
      runFrom_alike hp h 0 rfl #[] limit
    refine ⟨?_, hrun.after⟩
    show Reply.run ((p.run limit).outcome.map _) (p.run limit).trace =
      Reply.run ((q.run limit).outcome.map _) (q.run limit).trace
    rw [run, run, hrun.outcome, hrun.trace]
  | fetch =>
    obtain ⟨hanswer, hafter⟩ := onCore_alike h Core.fetch
    exact ⟨congrArg (fun w : Except Fault Word => Reply.core (w.map .word)) hanswer, hafter⟩
  | reset =>
    obtain ⟨hanswer, hafter⟩ := reset_alike h
    exact ⟨congrArg (fun done : Except Fault Unit => Reply.core (done.map fun _ => .done)) hanswer,
      hafter⟩
  | configure switches => exact ⟨rfl, h.variant, h.core, h.state, rfl⟩
  | registers call =>
    obtain ⟨hanswer, hafter⟩ := onCore_alike h (Core.onRegisters call.apply)
    exact ⟨congrArg Reply.core hanswer, hafter⟩
  | memory call =>
    obtain ⟨hanswer, hafter⟩ := onCore_alike h (Core.onMemory call.apply)
    exact ⟨congrArg Reply.core hanswer, hafter⟩

/-- Processors that differ in their reporting switches alone reply to every session alike, and are
left with the same registers, the same memory, the same events reported and the same state. -/
theorem session_alike (hp : p.variant = Variant.ofModel model) (h : p.Alike q)
    (calls : List HostCall) :
    (p.replies calls).map Reply.plain = (q.replies calls).map Reply.plain ∧
      (p.after calls).Alike (q.after calls) := by
  induction calls generalizing p q with
  | nil => exact ⟨rfl, h⟩
  | cons call calls ih =>
    obtain ⟨hreply, hafter⟩ := serve_alike hp h call
    obtain ⟨hreplies, hend⟩ := ih ((serve_shape hp call).1.trans hp) hafter
    refine ⟨?_, hend⟩
    rw [replies, replies, List.map_cons, List.map_cons, hreply, hreplies]

theorem silent_session_alike :
    ∃ new, create (.ofModel .extended) ⟨some .uint8, 8, some ["x"]⟩ = .ok new ∧
      let silent : Processor := { new with switches := ⟨true, false, false⟩ }
      let program := [Word.ofNat 0x3e, Word.ofNat 0, Word.ofNat 0x7f]
      let load : HostCall := .memory (.loadWords 0 program)
      let calls : List HostCall := [load, .cycle, .run 5, .reset, .fetch]
      ((new.after [load]).cycle.1.record.text.isSome ∧
        (new.after [load]).cycle.1.record.details = ["register: x"]) ∧
      ((silent.after [load]).cycle.1.record.text = none ∧
        (silent.after [load]).cycle.1.record.details = []) ∧
      new.variant = Variant.ofModel .extended ∧ new.Alike silent ∧
      (new.replies calls).map Reply.plain = (silent.replies calls).map Reply.plain ∧
      (new.after calls).Alike (silent.after calls) := by
  let load : HostCall :=
    .memory (.loadWords 0 [Word.ofNat 0x3e, Word.ofNat 0, Word.ofNat 0x7f])
  have hruns : (create (.ofModel .extended) ⟨some .uint8, 8, some ["x"]⟩).map (fun new =>
      let silent : Processor := { new with switches := ⟨true, false, false⟩ }
      let first := (new.after [load]).cycle.1.record
      let second := (silent.after [load]).cycle.1.record
      (new.switches, (first.text.isSome, first.details), second.text, second.details)) =
      .ok ({}, (true, ["register: x"]), none, []) := by decide +kernel
  obtain ⟨new, hnew, hruns⟩ := Check.map_eq_ok.mp hruns
  obtain ⟨hswitches, hruns⟩ := Prod.mk.inj hruns
  obtain ⟨hfirst, hsecond⟩ := Prod.mk.inj hruns
  have hvariant := (create_sound hnew).variant
  have halike : new.Alike { new with switches := ⟨true, false, false⟩ } :=
    ⟨rfl, rfl, rfl, by rw [hswitches]⟩
  exact ⟨new, hnew, Prod.mk.inj hfirst, Prod.mk.inj hsecond, hvariant, halike,
    session_alike hvariant halike [load, .cycle, .run 5, .reset, .fetch]⟩

end Processor

end WordMachine
