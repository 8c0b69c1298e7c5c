import WordMachine.Proofs.Execution

/-!
# What a failed instruction leaves behind

An instruction that fails has moved the instruction pointer past the operand words it fetched, and
that is all: memory is as it was and no other register has changed. A return is the exception: it
pops twice, and when the second pop fails the first has already moved the stack pointer.
-/

set_option autoImplicit false

namespace WordMachine

namespace Model

def operandCount (model : Model) (opcode : Word) : Nat :=
  match model.instructions.lookup? opcode with
  | some row => row.arguments.length
  | none => 0

/-- A return that can pop once but not twice. -/
def ReturnInterrupted (model : Model) (opcode : Word) (c : Core) : Prop :=
  (∃ row, model.instructions.lookup? opcode = some row ∧ row.mnemonic = "RET") ∧
    ∃ w fault d e, Core.pop c = .ok w d ∧ Core.pop d = .error fault e

end Model

/-- A core before and after an instruction that failed. -/
structure FailureFrame (model : Model) (opcode : Word) (fault : Fault) (before after : Core) :
    Prop where
  memory : after.memory = before.memory
  unreported : ∃ events : List Event, after.log.toList = before.log.toList ++ events ∧
    ∀ e ∈ events, e.isRegister
  shape : after.shape = before.shape
  /-- The pointer has moved once for each operand word, up to the first that cannot be fetched. -/
  pointer : ∃ ws : List Word, before.Streams 0 ws ∧
    after.registers.ip = before.pointer ws.length ∧
    (ws.length = model.operandCount opcode ∨
      ws.length < model.operandCount opcode ∧
        before.readMemory (before.pointer ws.length) = .error fault)
  registers : ¬ model.ReturnInterrupted opcode before →
    ∀ i, i ≠ before.registers.ipIndex → after.registers.cell i = before.registers.cell i
  interrupted : model.ReturnInterrupted opcode before →
    ∃ sp, before.registers.place? (.name Core.stackPointer) = some sp ∧
      after.registers.word sp = before.kind.coerce ((before.registers.word sp).add (Word.ofNat 1)) ∧
      ∀ i, i ≠ sp → after.registers.cell i = before.registers.cell i

theorem Model.ret_iff {model : Model} {row : Instruction} (h : row ∈ model.instructions) :
    row.operation = .ret ↔ row.mnemonic = "RET" := by
  revert row
  cases model <;> decide +kernel

namespace FailureFrame

variable {model : Model} {opcode : Word} {fault : Fault} {c d : Core}

theorem of_fetches (hc : c.registers.WellFormed) (ws : List Word) (hs : c.Streams 0 ws)
    (hl : ws.length = model.operandCount opcode ∨
      ws.length < model.operandCount opcode ∧
        c.readMemory (c.pointer ws.length) = .error fault)
    (hr : ¬ model.ReturnInterrupted opcode c) :
    FailureFrame model opcode fault c (c.advanced ws.length) where
  memory := c.advanced_memory _
  unreported := c.storeAll_events _ fun _ h => (Core.mem_fetchWrites h).2
  shape := c.advanced_shape _
  pointer := ⟨ws, hs, Core.advanced_ip hc _, hl⟩
  registers := fun _ _ hi => c.advanced_cell _ hi
  interrupted := fun h => absurd h hr

theorem of_pop (hc : c.registers.WellFormed) {w : Word} (hw : Core.pop c = .ok w d)
    (hcount : model.operandCount opcode = 0) (hr : model.ReturnInterrupted opcode c) :
    FailureFrame model opcode fault c d := by
  obtain ⟨top, sp, htop, -, hsp, rfl⟩ := Core.pop_eq_ok.mp hw
  obtain ⟨sp', hsp', rfl⟩ := Registers.read_eq_ok.mp htop
  obtain rfl : sp' = sp := Option.some.inj (hsp'.symm.trans hsp)
  have hne : c.registers.ipIndex ≠ sp' := (Registers.place_ne_ip hc (by decide) hsp).symm
  have hregister : ∀ v ∈ [Write.register sp' ((c.registers.word sp').add (Word.ofNat 1))],
      v.address? = none := by simp [Write.address?]
  exact {
    memory := rfl
    unreported := c.storeAll_events _ hregister
    shape := c.store_shape _
    pointer := ⟨[], trivial, c.registers.word_put_ne _ hne, Or.inl hcount.symm⟩
    registers := fun h => absurd hr h
    interrupted := fun _ => ⟨sp', hsp, c.registers.word_put hc (Registers.place_lt hsp) _,
      fun _ hi => c.registers.cell_put_ne _ hi⟩ }

end FailureFrame

theorem execute_failure_frame {model : Model} {switches : Switches} {opcode : Word}
    {x x' : Context} {fault : Fault} (hx : x.core.registers.WellFormed)
    (h : Context.execute model.instructions switches opcode x = .error fault x') :
    FailureFrame model opcode fault x.core x'.core := by
  rcases Context.execute_error h with ⟨hnone, -, rfl⟩ | ⟨row, hrow, hcases⟩
  · have hcount : model.operandCount opcode = 0 := by rw [Model.operandCount, hnone]
    refine FailureFrame.of_fetches hx [] trivial (Or.inl hcount.symm) ?_
    rintro ⟨⟨row, hrow, -⟩, -⟩
    rw [hnone] at hrow
    cases hrow
  have hcount : model.operandCount opcode = row.operation.arguments.length := by
    rw [Model.operandCount, hrow]
    exact congrArg List.length (Model.arguments_of_lookup hrow)
  have hret : model.ReturnInterrupted opcode x.core → row.operation = .ret := by
    rintro ⟨⟨row', hrow', hmnemonic⟩, -⟩
    obtain rfl : row' = row := Option.some.inj (hrow'.symm.trans hrow)
    exact (Model.ret_iff (Model.mem_of_lookup hrow)).mpr hmnemonic
  rcases hcases with ⟨hfetch, -⟩ | ⟨ws, fetched, hfetch, hbody, -⟩
  · obtain ⟨ws, hl, hs, hfail, hd⟩ := Core.fetchMany_error hx (m := 0) hfetch
    rw [Nat.zero_add] at hfail hd
    rw [hd]
    refine FailureFrame.of_fetches hx ws hs (Or.inr ⟨hcount ▸ hl, hfail⟩) fun hr => ?_
    rw [hret hr] at hl
    exact absurd hl (Nat.not_lt_zero _)
  · obtain ⟨hl, hs, rfl⟩ := (Core.fetchMany_eq_ok hx (m := 0)).mp hfetch
    rw [Nat.zero_add, ← hl] at hbody
    rcases Operation.body_error hbody with ⟨hd, hpop⟩ | ⟨hop, w, hw, hfail⟩
    · rw [hd]
      refine FailureFrame.of_fetches hx ws hs (Or.inl (hl.trans hcount.symm)) fun hr => ?_
      have hnil : ws.length = 0 := by rw [hl, hret hr]; rfl
      have hpop := hpop (hret hr)
      rw [hnil] at hpop
      obtain ⟨-, w, f, d, e, hw, -⟩ := hr
      cases hpop.symm.trans hw
    · have hnil : ws.length = 0 := by rw [hl, hop]; rfl
      rw [hnil] at hw
      refine FailureFrame.of_pop hx hw (by rw [hcount, ← hl, hnil])
        ⟨⟨row, hrow, (Model.ret_iff (Model.mem_of_lookup hrow)).mp hop⟩, ?_⟩
      exact ⟨w, fault, x'.core, x'.core, hw, hfail⟩

/-- An instruction that fails leaves memory, its observer and all registers but the instruction
pointer as they were, whatever registers there are and wherever it fails. A cycle that cannot even
fetch its opcode leaves everything. -/
theorem failed_instruction_keeps_state (model : Model) :
    (∀ (switches : Switches) (opcode : Word) (x x' : Context) (fault : Fault),
      x.core.registers.WellFormed →
      (Variant.ofModel model).execute switches opcode x = .error fault x' →
      FailureFrame model opcode fault x.core x'.core) ∧
    ∀ (p : Processor) (fault : Fault) (c : Core),
      Core.fetch p.core = .error fault c → p.cycle.2.core = p.core := by
  constructor
  · intro switches opcode x x' fault hx h
    rw [model.execute_ofModel] at h
    exact execute_failure_frame hx h
  · intro p fault c h
    obtain rfl : c = p.core := Core.perform_error h
    rw [Processor.cycle_unfetched h]
    rfl

theorem failed_return_keeps_state :
    let c : Core := ⟨⟨["ip", "sp"], Bank.zeroed .uint8 2, 0, none⟩, Memory.create .uint8 1, #[]⟩
    let ret := Word.ofNat 0x65
    let fault := Fault.outOfBounds (Word.ofNat 1) 1
    c.registers.WellFormed ∧
    ∃ x', (Variant.ofModel .extended).execute {} ret ⟨c, Record.fresh⟩ = .error fault x' ∧
      FailureFrame .extended ret fault c x'.core := by
  intro c ret fault
  have hnew : Registers.create .uint8 ["ip", "sp"] = .ok c.registers := by rfl
  have hc : c.registers.WellFormed := Registers.create_wellFormed hnew
  have hfault : Work.answer ((Variant.ofModel .extended).execute {} ret ⟨c, Record.fresh⟩) =
      .error fault := by decide +kernel
  obtain ⟨x', h⟩ := Work.answer_eq_error.mp hfault
  exact ⟨hc, x', h, (failed_instruction_keeps_state .extended).1 {} ret _ x' fault hc h⟩

end WordMachine
