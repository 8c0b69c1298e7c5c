import WordMachine.Proofs.Reachable
import WordMachine.Proofs.Settled

/-!
# When an instruction succeeds

An instruction succeeds when its opcode has a row, its operand words can be fetched, those at
register positions pick registers, and every address it works at is valid. If it fails, its fault
blames a requirement that is not met.
-/

set_option autoImplicit false

namespace WordMachine

theorem Core.Streams.unique {c : Core} {n : Nat} {vs ws : List Word} (hl : vs.length = ws.length)
    (hv : c.Streams n vs) (hw : c.Streams n ws) : vs = ws := by
  induction vs generalizing n ws with
  | nil => exact (List.eq_nil_of_length_eq_zero hl.symm).symm
  | cons v vs ih =>
    cases ws with
    | nil => cases hl
    | cons w ws =>
      have hhead : v = w := Except.ok.inj (hv.1.symm.trans hw.1)
      rw [hhead, ih (Nat.succ.inj hl) hv.2 hw.2]

namespace Instruction

def Operands (row : Instruction) (ws : List Word) (c : Core) : Prop :=
  ws.length = row.arguments.length ∧ c.Streams 1 ws

/-- What a row requires of the core that its opcode is fetched from. Registers and addresses are
looked at after the fetches, which move the instruction pointer. -/
structure Ready (row : Instruction) (ws : List Word) (c : Core) : Prop where
  operands : row.Operands ws c
  registers : (c.advanced (1 + ws.length)).RegistersResolve row.arguments ws
  addresses : (c.advanced (1 + ws.length)).AddressesValid row.arguments row.stackUse ws

theorem Operands.unique {row : Instruction} {vs ws : List Word} {c : Core}
    (hv : row.Operands vs c) (hw : row.Operands ws c) : vs = ws :=
  hv.2.unique (hv.1.trans hw.1.symm) hw.2

end Instruction

/-- A fault of an instruction and the requirement that is not met. -/
inductive Blame (model : Model) (opcode : Word) (c : Core) : Fault → Prop where
  | opcode : model.instructions.lookup? opcode = none → Blame model opcode c (.unknownOpcode opcode)
  | operands {row : Instruction} {w : Word} {n : Nat} :
    model.instructions.lookup? opcode = some row → (∀ ws, ¬ row.Operands ws c) →
    Blame model opcode c (.outOfBounds w n)
  | registers {row : Instruction} {ws : List Word} {s : Selector} :
    model.instructions.lookup? opcode = some row → row.Operands ws c →
    ¬ (c.advanced (1 + ws.length)).RegistersResolve row.arguments ws →
    Blame model opcode c (.invalidRegister s)
  | addresses {row : Instruction} {ws : List Word} {w : Word} {n : Nat} :
    model.instructions.lookup? opcode = some row → row.Operands ws c →
    ¬ (c.advanced (1 + ws.length)).AddressesValid row.arguments row.stackUse ws →
    Blame model opcode c (.outOfBounds w n)

section

variable {model : Model} {opcode : Word} {c : Core}

theorem Blame.not_ready {fault : Fault} (h : Blame model opcode c fault) {row : Instruction}
    {ws : List Word} (hrow : model.instructions.lookup? opcode = some row) :
    ¬ row.Ready ws c := by
  intro hready
  cases h with
  | opcode hnone =>
    rw [hnone] at hrow
    cases hrow
  | operands hrow' hno =>
    obtain rfl := Option.some.inj (hrow'.symm.trans hrow)
    exact hno ws hready.operands
  | registers hrow' hws hno =>
    obtain rfl := Option.some.inj (hrow'.symm.trans hrow)
    obtain rfl := hws.unique hready.operands
    exact hno hready.registers
  | addresses hrow' hws hno =>
    obtain rfl := Option.some.inj (hrow'.symm.trans hrow)
    obtain rfl := hws.unique hready.operands
    exact hno hready.addresses

theorem Blame.unknownOpcode_iff {fault : Fault} (h : Blame model opcode c fault) :
    fault = .unknownOpcode opcode ↔ model.instructions.lookup? opcode = none := by
  cases h <;> simp_all

section

variable (hc : c.WellFormed)
  (hn : ∀ n ∈ (Variant.ofModel model).requiredRegisters, n ∈ c.registers.names)
include hc hn

theorem Model.body_settled {row : Instruction}
    (hrow : model.instructions.lookup? opcode = some row) {ws : List Word}
    (hl : ws.length = row.arguments.length) (n : Nat) :
    Settled (Work.answer (row.operation.body ws (c.advanced n)))
      ((c.advanced n).RegistersResolve row.arguments ws)
      ((c.advanced n).AddressesValid row.arguments row.stackUse ws) := by
  have hs := c.advanced_shape n
  rw [Model.stackUse_eq (Model.mem_of_lookup hrow)]
  rw [Model.arguments_of_lookup hrow] at hl ⊢
  refine row.operation.body_settled (hc.of_shape hs) (fun m hm => ?_) hl
  rw [Core.names_of_shape hs]
  exact hn m (Model.named_required (Model.mem_of_lookup hrow) m hm)

variable {switches : Switches} {record : Record} {x : Context}

theorem Model.execute_ready {continues : Bool}
    (h : Context.execute model.instructions switches opcode ⟨c.advanced 1, record⟩ =
      .ok continues x) :
    ∃ row ws, model.instructions.lookup? opcode = some row ∧ row.Ready ws c ∧
      (∃ text, row.operation.body ws (c.advanced (1 + ws.length)) = .ok text x.core) ∧
      ∃ arguments remark, (arguments = ws ∨ ws = [] ∧ arguments = record.arguments) ∧
        x.record = Context.retired model.instructions switches opcode continues x.core
          (Context.remarked ⟨c, record⟩ switches arguments remark) := by
  obtain ⟨row, hrow, ws, _, text, hfetch, hbody, hrecord⟩ := Context.execute_ok h
  rw [← Model.arguments_of_lookup hrow] at hfetch
  obtain ⟨hl, hs, rfl⟩ := (Core.fetchMany_eq_ok hc.registers).mp hfetch
  rw [← hl] at hbody
  obtain ⟨hregisters, haddresses⟩ := (Model.body_settled hc hn hrow hl (1 + ws.length)).met text
    (Work.answer_eq_ok.mpr ⟨_, hbody⟩)
  exact ⟨row, ws, hrow, ⟨⟨hl, hs⟩, hregisters, haddresses⟩, ⟨text, hbody⟩, hrecord⟩

theorem Model.execute_blames {fault : Fault}
    (h : Context.execute model.instructions switches opcode ⟨c.advanced 1, record⟩ =
      .error fault x) :
    Blame model opcode c fault := by
  rcases Context.execute_error h with ⟨hnone, rfl, -⟩ | ⟨row, hrow, hcases⟩
  · exact .opcode hnone
  rw [← Model.arguments_of_lookup hrow] at hcases
  rcases hcases with ⟨hfetch, -⟩ | ⟨ws, _, hfetch, hbody, -⟩
  · obtain ⟨ws, -, -, hfail, -⟩ := Core.fetchMany_error hc.registers hfetch
    rcases (Core.readMemory_settled hc.memory _).blamed fault hfail with ⟨-, h⟩ | ⟨⟨w, n, rfl⟩, -⟩
    · exact absurd trivial h
    refine .operands hrow fun vs hvs => ?_
    have hok := (Core.fetchMany_eq_ok hc.registers).mpr ⟨hvs.1, hvs.2, rfl⟩
    cases hfetch.symm.trans hok
  · obtain ⟨hl, hs, rfl⟩ := (Core.fetchMany_eq_ok hc.registers).mp hfetch
    rw [← hl] at hbody
    rcases (Model.body_settled hc hn hrow hl (1 + ws.length)).blamed fault
      (Work.answer_eq_error.mpr ⟨_, hbody⟩) with ⟨⟨s, rfl⟩, hno⟩ | ⟨⟨w, n, rfl⟩, hno⟩
    · exact .registers hrow ⟨hl, hs⟩ hno
    · exact .addresses hrow ⟨hl, hs⟩ hno

end

end

namespace Processor

variable {model : Model} {p : Processor}

theorem cycle_ready (hp : p.Sound model) {continues : Bool}
    (h : p.cycle.1.result = .ok continues) :
    ∃ opcode row ws, model.instructions.lookup? opcode = some row ∧
      p.core.Streams 0 (opcode :: ws) ∧ row.Ready ws p.core ∧
      (∃ text, row.operation.body ws (p.core.advanced (1 + ws.length)) =
        .ok text p.cycle.2.core) ∧
      ∃ remark, p.cycle.1.record = Context.retired model.instructions p.switches opcode continues
        p.cycle.2.core (Context.remarked ⟨p.core, p.opened opcode⟩ p.switches ws remark) := by
  obtain ⟨opcode, c, x, hf, hx, hrecord, hcore⟩ := cycle_ok h
  obtain ⟨hopcode, rfl⟩ := (Core.fetch_eq_ok hp.core.registers (n := 0)).mp hf
  rw [hp.variant, model.execute_ofModel] at hx
  obtain ⟨row, ws, hrow, hready, hbody, arguments, remark, harguments, hx⟩ :=
    Model.execute_ready hp.core hp.required hx
  obtain rfl : arguments = ws := by
    rcases harguments with rfl | ⟨rfl, rfl⟩ <;> rfl
  rw [hcore, hrecord]
  exact ⟨opcode, row, arguments, hrow, ⟨hopcode, hready.operands.2⟩, hready, hbody, remark, hx⟩

theorem cycle_body (hp : p.Sound model) {continues : Bool} (h : p.cycle.1.result = .ok continues)
    {opcode : Word} {row : Instruction}
    (hopcode : p.core.readMemory p.core.registers.ip = .ok opcode)
    (hrow : model.instructions.lookup? opcode = some row) :
    ∃ ws, p.core.Streams 0 (opcode :: ws) ∧ ws.length = row.operation.arguments.length ∧
      ∃ text, row.operation.body ws (p.core.advanced (1 + ws.length)) = .ok text p.cycle.2.core := by
  obtain ⟨opcode', row', ws, hrow', hstreams, hready, hbody, -⟩ := cycle_ready hp h
  obtain rfl : opcode' = opcode := Except.ok.inj (hstreams.1.symm.trans hopcode)
  obtain rfl : row' = row := Option.some.inj (hrow'.symm.trans hrow)
  exact ⟨ws, hstreams, Model.arguments_of_lookup hrow ▸ hready.operands.1, hbody⟩

theorem cycle_of_body (hp : p.Sound model) {opcode : Word} {row : Instruction} {ws : List Word}
    {text : String} {d : Core} (hrow : model.instructions.lookup? opcode = some row)
    (hstreams : p.core.Streams 0 (opcode :: ws)) (hl : ws.length = row.arguments.length)
    (hop : row.operation.goesOn)
    (hbody : row.operation.body ws (p.core.advanced (1 + ws.length)) = .ok text d) :
    p.cycle.1.result = .ok true ∧ p.cycle.2.core = d := by
  have hopcode : Core.fetch p.core = .ok opcode (p.core.advanced 1) :=
    (Core.fetch_eq_ok hp.core.registers (n := 0)).mpr ⟨hstreams.1, rfl⟩
  have hwords : Core.fetchMany row.operation.arguments.length (p.core.advanced 1) =
      .ok ws (p.core.advanced (1 + ws.length)) := by
    rw [← Model.arguments_of_lookup hrow]
    exact (Core.fetchMany_eq_ok hp.core.registers).mpr ⟨hl, hstreams.2, by rw [hl]⟩
  have hrun : ∃ record, Context.run p.switches row.name row.operation
      ⟨p.core.advanced 1, p.opened opcode⟩ = .ok true ⟨d, record⟩ :=
    Context.run_of_body hop hwords hbody
  obtain ⟨record, hrun⟩ := hrun
  have hexecute : ∃ x : Context, p.variant.execute p.switches opcode
      ⟨p.core.advanced 1, p.opened opcode⟩ = .ok true x ∧ x.core = d := by
    rw [hp.variant, model.execute_ofModel]
    simp only [Context.execute, hrow]
    exact ⟨_, Work.bind_eq_ok.mpr ⟨true, _, hrun, Context.finish_eq_ok.mpr ⟨rfl, rfl⟩⟩, rfl⟩
  obtain ⟨x, hx, rfl⟩ := hexecute
  rw [cycle_succeeds hopcode hx]
  exact ⟨rfl, rfl⟩

theorem cycle_one (hp : p.Sound model) {opcode w : Word} {row : Instruction}
    {op : OneOperand} {text : String} {d : Core}
    (hrow : model.instructions.lookup? opcode = some row) (hop : row.operation = .one op)
    (hstreams : p.core.Streams 0 [opcode, w])
    (heffect : Core.perform (op.effect w) (p.core.advanced 2) = .ok text d) :
    p.cycle.1.result = .ok true ∧ p.cycle.2.core = d := by
  have hlength : [w].length = row.arguments.length := by
    rw [Model.arguments_of_lookup hrow, hop]
    rfl
  exact cycle_of_body hp hrow hstreams hlength (by rw [hop]; rfl) (by rw [hop]; exact heffect)

/-- Once its opcode is fetched, a cycle succeeds just when a row for it is ready; the fault of one
that fails is about the opcode, about a register or about an address, whichever is to blame. -/
theorem cycle_succeeds_iff_ready (hp : p.Reachable model) {opcode : Word} {c : Core}
    (hf : Core.fetch p.core = .ok opcode c) :
    ((∃ continues, p.cycle.1.result = .ok continues) ↔
      ∃ row ws, model.instructions.lookup? opcode = some row ∧ row.Ready ws p.core) ∧
    ∀ fault, p.cycle.1.result = .error fault →
      Blame model opcode p.core fault.cause ∧
        (fault.cause = .unknownOpcode opcode ↔ model.instructions.lookup? opcode = none) := by
  have hs := hp.sound
  obtain ⟨hopcode, rfl⟩ := (Core.fetch_eq_ok hs.core.registers (n := 0)).mp hf
  have hblame : ∀ fault, p.cycle.1.result = .error fault →
      Blame model opcode p.core fault.cause := by
    intro fault h
    cases hx : p.variant.execute p.switches opcode ⟨p.core.advanced 1, p.opened opcode⟩ with
    | ok continues x =>
      rw [cycle_succeeds hf hx] at h
      cases h
    | error cause x =>
      rw [cycle_fails hf hx] at h
      cases h
      rw [hs.variant, model.execute_ofModel] at hx
      exact Model.execute_blames hs.core hs.required hx
  refine ⟨⟨?_, ?_⟩, fun fault h => ⟨hblame fault h, (hblame fault h).unknownOpcode_iff⟩⟩
  · rintro ⟨continues, h⟩
    obtain ⟨opcode', row, ws, hrow, hstreams, hready, -⟩ := cycle_ready hs h
    obtain rfl : opcode' = opcode := Except.ok.inj (hstreams.1.symm.trans hopcode)
    exact ⟨row, ws, hrow, hready⟩
  · rintro ⟨row, ws, hrow, hready⟩
    cases h : p.cycle.1.result with
    | ok continues => exact ⟨continues, rfl⟩
    | error fault => exact absurd hready ((hblame fault h).not_ready hrow)

theorem interrupted_return_blames_address :
    ∃ new, create (.ofModel .extended) ⟨some .uint8, 8, some []⟩ = .ok new ∧
      let p := new.after [.memory (.loadWords 0 [Word.ofNat 0x60, Word.ofNat 7, Word.ofNat 0x65]),
        .cycle]
      ∃ c fault, Core.fetch p.core = .ok (Word.ofNat 0x65) c ∧ p.cycle.1.result = .error fault ∧
        Blame .extended (Word.ofNat 0x65) p.core fault.cause := by
  let session : List HostCall :=
    [.memory (.loadWords 0 [Word.ofNat 0x60, Word.ofNat 7, Word.ofNat 0x65]), .cycle]
  let fault : CycleFault := ⟨Word.ofNat 2, .execute (Word.ofNat 0x65), .outOfBounds (Word.ofNat 8) 8⟩
  have hruns : (create (.ofModel .extended) ⟨some .uint8, 8, some []⟩).map (fun new =>
      (Work.answer (Core.fetch (new.after session).core), (new.after session).cycle.1.result)) =
      .ok (.ok (Word.ofNat 0x65), .error fault) := by decide +kernel
  obtain ⟨new, hnew, hruns⟩ := Check.map_eq_ok.mp hruns
  obtain ⟨hfetch, hresult⟩ := Prod.mk.inj hruns
  obtain ⟨c, hfetch⟩ := Work.answer_eq_ok.mp hfetch
  have hp : (new.after session).Reachable .extended := ⟨_, new, session, hnew, rfl⟩
  exact ⟨new, hnew, c, fault, hfetch, hresult,
    ((cycle_succeeds_iff_ready hp hfetch).2 fault hresult).1⟩

end Processor

end WordMachine
