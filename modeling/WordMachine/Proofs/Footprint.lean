import WordMachine.Proofs.Success

/-!
# What an instruction may change

An instruction moves the instruction pointer on and changes besides only what its row says: the
register its first operand picks or one it uses by name, at most one word of memory, and the
instruction pointer again if it goes on elsewhere.
-/

set_option autoImplicit false

namespace WordMachine

inductive Target where
  | first
  | named (name : String)
  deriving DecidableEq, Repr

/-- A word of memory that is written: at the address in the register that the first operand picks,
at the first operand, or below the top of the stack. -/
inductive Slot where
  | throughFirst
  | first
  | belowTop
  deriving DecidableEq, Repr

/-- Where execution goes on; a call, a return and a jump that is taken leave the stream. -/
inductive Flow where
  | onward
  | jump (condition : Condition)
  | away
  deriving DecidableEq, Repr

structure Footprint where
  registers : List Target := []
  memory : Option Slot := none
  flow : Flow := .onward
  deriving DecidableEq, Repr

def Operation.footprint : Operation → Footprint
  | .idle | .stop _ => {}
  | .ret => { registers := [.named Core.stackPointer], flow := .away }
  | .one op =>
    match op with
    | .squareRoot _ | .complement => { registers := [.named accumulator] }
    | .increment | .decrement => { registers := [.first] }
    | .jump condition _ => { flow := .jump condition }
    | .push _ => { registers := [.named Core.stackPointer], memory := some .belowTop }
    | .pop => { registers := [.named Core.stackPointer, .first] }
    | .call _ =>
      { registers := [.named Core.stackPointer], memory := some .belowTop, flow := .away }
  | .two op =>
    match op with
    | .move | .loadThrough | .moveConstant | .load | .copyIn => { registers := [.first] }
    | .storeThrough => { memory := some .throughFirst }
    | .copyOut => { memory := some .first }
    | .arithmetic _ _ | .bitwise _ _ => { registers := [.named accumulator] }
    | .compare _ => { registers := [.named compareRegister] }

namespace Instruction

def assignments : List String :=
  ["MOV_REG_REG", "MOV_REG_REGPTR", "MOV_CONST_REG", "MOV_ADDR_REG", "LDR", "INC", "DEC"]

def calculations : List String :=
  ["ADD", "SUB", "MUL", "DIV", "IDIV", "POW", "SQRT", "AND", "OR", "XOR", "NOT", "SHL", "SHR"]

def flow (row : Instruction) : Flow :=
  match row.mnemonic with
  | "JMP" => .jump .always
  | "JEQ" => .jump .equal
  | "JNE" => .jump .notEqual
  | "JLT" => .jump .less
  | "JGT" => .jump .greater
  | "CALL" | "RET" => .away
  | _ => .onward

def slot? (row : Instruction) : Option Slot :=
  if row.name = "MOV_REGPTR_REG" then some .throughFirst
  else if row.name = "MOV_REG_ADDR" then some .first
  else if row.mnemonic ∈ ["PUSH", "CALL"] then some .belowTop
  else none

def targets (row : Instruction) : List Target :=
  if row.name ∈ assignments then [.first]
  else if row.mnemonic ∈ calculations then [.named accumulator]
  else if row.mnemonic = "CMP" then [.named compareRegister]
  else if row.mnemonic = "POP" then [.named Core.stackPointer, .first]
  else if row.mnemonic ∈ ["PUSH", "CALL", "RET"] then [.named Core.stackPointer]
  else []

def footprint (row : Instruction) : Footprint := ⟨row.targets, row.slot?, row.flow⟩

end Instruction

/-- The names and mnemonics of the rows tell what their operations may change. -/
theorem Model.footprint_eq {model : Model} {row : Instruction} (h : row ∈ model.instructions) :
    row.footprint = row.operation.footprint := by
  revert row
  cases model <;> decide +kernel

namespace Core

def target? (c : Core) (ws : List Word) : Target → Option Nat
  | .first => ws.head?.bind fun w => c.registers.place? (.index w)
  | .named n => c.registers.place? (.name n)

def slotWord? (c : Core) (ws : List Word) : Slot → Option Word
  | .throughFirst => (c.target? ws .first).map c.registers.word
  | .first => ws.head?
  | .belowTop =>
    (c.target? ws (.named stackPointer)).map fun i => (c.registers.word i).sub (Word.ofNat 1)

def Leaves (c : Core) : Flow → Prop
  | .onward => False
  | .jump condition =>
    ∃ flag, c.readNamed compareRegister = .ok flag ∧ condition.holds (Flag.ofWord? flag)
  | .away => True

instance decidableLeaves (c : Core) : (flow : Flow) → Decidable (c.Leaves flow)
  | .onward => isFalse id
  | .away => isTrue trivial
  | .jump condition =>
    match h : c.readNamed compareRegister with
    | .ok flag => decidable_of_iff (condition.holds (Flag.ofWord? flag) = true) (by simp [Leaves, h])
    | .error _ => isFalse (by simp [Leaves, h])

end Core

def Footprint.Admits (f : Footprint) (ws : List Word) (c : Core) : Write → Prop
  | .register i _ =>
    (∃ t ∈ f.registers, c.target? ws t = some i) ∨ i = c.registers.ipIndex ∧ c.Leaves f.flow
  | .memory a _ => ∃ slot ∈ f.memory, ∃ w, c.slotWord? ws slot = some w ∧ w.floor? = some (a : Int)

namespace Core

variable {c : Core} {α : Type}

theorem assign_eq_ok {s : Selector} {answer : α} {w : Word} {e : Effect α}
    (h : (do
      let place ← c.registers.resolve s
      return ⟨answer, [.register place w]⟩) = Except.ok e) :
    ∃ i, c.registers.place? s = some i ∧ e.writes = [.register i w] := by
  obtain ⟨i, hi, h⟩ := Check.bind_eq_ok.mp h
  cases h
  exact ⟨i, Registers.resolve_eq_ok.mp hi, rfl⟩

theorem step_eq_ok {w delta : Word} {sign : String} {e : Effect String}
    (h : c.step w delta sign = .ok e) :
    ∃ i v, c.registers.place? (.index w) = some i ∧ e.writes = [.register i v] := by
  obtain ⟨value, -, h⟩ := Check.bind_eq_ok.mp h
  obtain ⟨i, hi, hwrites⟩ := assign_eq_ok h
  exact ⟨i, _, hi, hwrites⟩

theorem pushEffect_eq_ok {w : Word} {e : Effect Word} (h : c.pushEffect w = .ok e) :
    ∃ sp, ∃ a : Nat, c.registers.place? (.name stackPointer) = some sp ∧
      ((c.registers.word sp).sub (Word.ofNat 1)).floor? = some (a : Int) ∧
      e.writes = [.memory a w, .register sp ((c.registers.word sp).sub (Word.ofNat 1))] := by
  obtain ⟨top, htop, h⟩ := Check.bind_eq_ok.mp h
  obtain ⟨sp, hsp, rfl⟩ := Registers.read_eq_ok.mp htop
  obtain ⟨stored, hstored, h⟩ := Check.bind_eq_ok.mp h
  obtain ⟨a, ha, rfl⟩ := writeEffect_eq_ok.mp hstored
  obtain ⟨sp', hsp', h⟩ := Check.bind_eq_ok.mp h
  obtain rfl : sp' = sp := Option.some.inj ((Registers.resolve_eq_ok.mp hsp').symm.trans hsp)
  cases h
  exact ⟨sp', a, hsp, (Address.ofWord_eq_ok.mp ha).1, rfl⟩

theorem popEffect_eq_ok {e : Effect Word} (h : c.popEffect = .ok e) :
    ∃ sp v, c.registers.place? (.name stackPointer) = some sp ∧ e.writes = [.register sp v] := by
  obtain ⟨top, -, h⟩ := Check.bind_eq_ok.mp h
  obtain ⟨w, -, h⟩ := Check.bind_eq_ok.mp h
  obtain ⟨sp, hsp, hwrites⟩ := assign_eq_ok h
  exact ⟨sp, _, hsp, hwrites⟩

end Core

theorem OneOperand.effect_admitted {c : Core} {op : OneOperand} {w : Word} {e : Effect String}
    (h : op.effect w c = .ok e) : ∀ v ∈ e.writes, (Operation.one op).footprint.Admits [w] c v := by
  cases op with
  | squareRoot o =>
    obtain ⟨value, -, h⟩ := Check.bind_eq_ok.mp h
    obtain ⟨i, hi, hwrites⟩ := Core.assign_eq_ok h
    simp [hwrites, Operation.footprint, Footprint.Admits, Core.target?, hi]
  | increment =>
    obtain ⟨i, v, hi, hwrites⟩ := Core.step_eq_ok h
    simp [hwrites, Operation.footprint, Footprint.Admits, Core.target?, hi]
  | decrement =>
    obtain ⟨i, v, hi, hwrites⟩ := Core.step_eq_ok h
    simp [hwrites, Operation.footprint, Footprint.Admits, Core.target?, hi]
  | complement =>
    obtain ⟨value, -, h⟩ := Check.bind_eq_ok.mp h
    obtain ⟨i, hi, hwrites⟩ := Core.assign_eq_ok h
    simp [hwrites, Operation.footprint, Footprint.Admits, Core.target?, hi]
  | jump condition o =>
    obtain ⟨target, -, h⟩ := Check.bind_eq_ok.mp h
    obtain ⟨flag, hflag, h⟩ := Check.bind_eq_ok.mp h
    cases h
    intro v hv
    cases hholds : condition.holds (Flag.ofWord? flag) with
    | true =>
      simp only [hholds, if_true, List.mem_singleton] at hv
      rw [hv]
      exact Or.inr ⟨rfl, flag, hflag, hholds⟩
    | false => simp [hholds] at hv
  | push o =>
    obtain ⟨value, -, h⟩ := Check.bind_eq_ok.mp h
    obtain ⟨pushed, hpushed, h⟩ := Check.bind_eq_ok.mp h
    obtain ⟨sp, a, hsp, ha, hwrites⟩ := Core.pushEffect_eq_ok hpushed
    cases h
    simp [hwrites, Operation.footprint, Footprint.Admits, Core.target?, Core.slotWord?, hsp, ha]
  | pop =>
    obtain ⟨i, hi, h⟩ := Check.bind_eq_ok.mp h
    obtain ⟨popped, hpopped, h⟩ := Check.bind_eq_ok.mp h
    obtain ⟨sp, v, hsp, hwrites⟩ := Core.popEffect_eq_ok hpopped
    have hi := Registers.resolve_eq_ok.mp hi
    cases h
    simp [hwrites, Operation.footprint, Footprint.Admits, Core.target?, hsp, hi]
  | call o =>
    obtain ⟨target, -, h⟩ := Check.bind_eq_ok.mp h
    obtain ⟨pushed, hpushed, h⟩ := Check.bind_eq_ok.mp h
    obtain ⟨sp, a, hsp, ha, hwrites⟩ := Core.pushEffect_eq_ok hpushed
    cases h
    simp [hwrites, Operation.footprint, Footprint.Admits, Core.target?, Core.slotWord?, Core.Leaves,
      hsp, ha]

theorem TwoOperand.effect_admitted {c : Core} {op : TwoOperand} {v w : Word} {e : Effect String}
    (h : op.effect v w c = .ok e) :
    ∀ u ∈ e.writes, (Operation.two op).footprint.Admits [v, w] c u := by
  cases op with
  | move =>
    obtain ⟨value, -, h⟩ := Check.bind_eq_ok.mp h
    obtain ⟨i, hi, hwrites⟩ := Core.assign_eq_ok h
    simp [hwrites, Operation.footprint, Footprint.Admits, Core.target?, hi]
  | storeThrough =>
    obtain ⟨address, haddress, h⟩ := Check.bind_eq_ok.mp h
    obtain ⟨value, -, h⟩ := Check.bind_eq_ok.mp h
    obtain ⟨stored, hstored, h⟩ := Check.bind_eq_ok.mp h
    obtain ⟨a, ha, rfl⟩ := Core.writeEffect_eq_ok.mp hstored
    obtain ⟨i, hi, rfl⟩ := Registers.read_eq_ok.mp haddress
    have hfloor := (Address.ofWord_eq_ok.mp ha).1
    cases h
    simp [Operation.footprint, Footprint.Admits, Core.slotWord?, Core.target?, hi, hfloor]
  | loadThrough =>
    obtain ⟨address, -, h⟩ := Check.bind_eq_ok.mp h
    obtain ⟨value, -, h⟩ := Check.bind_eq_ok.mp h
    obtain ⟨i, hi, hwrites⟩ := Core.assign_eq_ok h
    simp [hwrites, Operation.footprint, Footprint.Admits, Core.target?, hi]
  | moveConstant =>
    obtain ⟨i, hi, hwrites⟩ := Core.assign_eq_ok h
    simp [hwrites, Operation.footprint, Footprint.Admits, Core.target?, hi]
  | load =>
    obtain ⟨value, -, h⟩ := Check.bind_eq_ok.mp h
    obtain ⟨i, hi, hwrites⟩ := Core.assign_eq_ok h
    simp [hwrites, Operation.footprint, Footprint.Admits, Core.target?, hi]
  | copyIn =>
    obtain ⟨value, -, h⟩ := Check.bind_eq_ok.mp h
    obtain ⟨i, hi, hwrites⟩ := Core.assign_eq_ok h
    simp [hwrites, Operation.footprint, Footprint.Admits, Core.target?, hi]
  | copyOut =>
    obtain ⟨value, -, h⟩ := Check.bind_eq_ok.mp h
    obtain ⟨stored, hstored, h⟩ := Check.bind_eq_ok.mp h
    obtain ⟨a, ha, rfl⟩ := Core.writeEffect_eq_ok.mp hstored
    have hfloor := (Address.ofWord_eq_ok.mp ha).1
    cases h
    simp [Operation.footprint, Footprint.Admits, Core.slotWord?, hfloor]
  | arithmetic op o =>
    obtain ⟨left, -, h⟩ := Check.bind_eq_ok.mp h
    obtain ⟨right, -, h⟩ := Check.bind_eq_ok.mp h
    obtain ⟨i, hi, hwrites⟩ := Core.assign_eq_ok h
    simp [hwrites, Operation.footprint, Footprint.Admits, Core.target?, hi]
  | bitwise op o =>
    obtain ⟨left, -, h⟩ := Check.bind_eq_ok.mp h
    obtain ⟨right, -, h⟩ := Check.bind_eq_ok.mp h
    obtain ⟨i, hi, hwrites⟩ := Core.assign_eq_ok h
    simp [hwrites, Operation.footprint, Footprint.Admits, Core.target?, hi]
  | compare o =>
    obtain ⟨left, -, h⟩ := Check.bind_eq_ok.mp h
    obtain ⟨right, -, h⟩ := Check.bind_eq_ok.mp h
    obtain ⟨i, hi, hwrites⟩ := Core.assign_eq_ok h
    simp [hwrites, Operation.footprint, Footprint.Admits, Core.target?, hi]

theorem Core.returnFromCall_eq_ok {c d : Core} {text : String}
    (h : returnFromCall c = .ok text d) :
    ∃ sp v₁ v₂ v₃ v, c.registers.place? (.name stackPointer) = some sp ∧
      d = c.storeAll [.register sp v₁, .register sp v₂, .register sp v₃,
        .register c.registers.ipIndex v] := by
  obtain ⟨target, c₁, h₁, h⟩ := Work.bind_eq_ok.mp h
  obtain ⟨count, c₂, h₂, h⟩ := Work.bind_eq_ok.mp h
  have hs₁ : c₁.shape = c.shape := pop_shape h₁
  have hs₂ : c₂.shape = c.shape := (pop_shape h₂).trans hs₁
  obtain ⟨writes, he, rfl⟩ := perform_eq_ok.mp h
  obtain ⟨top, -, he⟩ := Check.bind_eq_ok.mp he
  obtain ⟨sp₃, hsp₃, he⟩ := Check.bind_eq_ok.mp he
  have hsp₃ := Registers.resolve_eq_ok.mp hsp₃
  rw [place_of_shape hs₂] at hsp₃
  obtain ⟨top₁, sp₁, -, -, hsp₁, hc₁⟩ := pop_eq_ok.mp h₁
  obtain ⟨top₂, sp₂, -, -, hsp₂, hc₂⟩ := pop_eq_ok.mp h₂
  rw [place_of_shape hs₁] at hsp₂
  obtain rfl : sp₁ = sp₃ := Option.some.inj (hsp₁.symm.trans hsp₃)
  obtain rfl : sp₂ = sp₁ := Option.some.inj (hsp₂.symm.trans hsp₁)
  cases he
  rw [ipIndex_of_shape hs₂, hc₂, hc₁]
  refine ⟨sp₂, top₁.add (Word.ofNat 1), top₂.add (Word.ofNat 1), top.add (droppedWords count),
    target, hsp₁, ?_⟩
  simp only [storeAll, List.foldl_cons, List.foldl_nil]

theorem Operation.body_admitted {op : Operation} {ws : List Word} {c d : Core} {text : String}
    (h : op.body ws c = .ok text d) :
    ∃ writes, d = c.storeAll writes ∧ ∀ w ∈ writes, op.footprint.Admits ws c w := by
  unfold Operation.body at h
  split at h
  · obtain ⟨sp, v₁, v₂, v₃, v, hsp, rfl⟩ := Core.returnFromCall_eq_ok h
    refine ⟨_, rfl, ?_⟩
    simp [footprint, Footprint.Admits, Core.target?, Core.Leaves, hsp]
  · obtain ⟨writes, he, rfl⟩ := Core.perform_eq_ok.mp h
    exact ⟨writes, rfl, OneOperand.effect_admitted he⟩
  · obtain ⟨writes, he, rfl⟩ := Core.perform_eq_ok.mp h
    exact ⟨writes, rfl, TwoOperand.effect_admitted he⟩
  · obtain ⟨-, rfl⟩ := Work.pure_eq_ok.mp h
    exact ⟨[], rfl, by simp⟩

/-- A core before and after an instruction that changed only what its footprint tells. Slots and
jumps are looked at after the fetches, which may have moved the register that they read. -/
structure Confined (f : Footprint) (ws : List Word) (before after : Core) : Prop where
  shape : after.shape = before.shape
  registers : ∀ i, i ≠ before.registers.ipIndex →
    (∀ t ∈ f.registers, before.target? ws t ≠ some i) →
    after.registers.cell i = before.registers.cell i
  memory : ∀ k,
    (∀ slot ∈ f.memory, ∀ w, (before.advanced (1 + ws.length)).slotWord? ws slot = some w →
      ∀ a : Nat, w.floor? = some (a : Int) →
        k < a * before.memory.kind.byteWidth ∨ (a + 1) * before.memory.kind.byteWidth ≤ k) →
    after.memory.bytes[k]? = before.memory.bytes[k]?
  pointer : ¬ (before.advanced (1 + ws.length)).Leaves f.flow →
    (∀ t ∈ f.registers, before.target? ws t ≠ some before.registers.ipIndex) →
    after.registers.ip = before.pointer (1 + ws.length)

theorem Core.target_of_shape {c d : Core} (h : d.shape = c.shape) (ws : List Word) (t : Target) :
    d.target? ws t = c.target? ws t := by
  cases t with
  | first => simp only [target?, place_of_shape h]
  | named n => exact place_of_shape h (.name n)

theorem Footprint.confined {f : Footprint} {ws : List Word} {c : Core} (hc : c.registers.WellFormed)
    {writes : List Write}
    (h : ∀ w ∈ writes, f.Admits ws (c.advanced (1 + ws.length)) w) :
    Confined f ws c ((c.advanced (1 + ws.length)).storeAll writes) := by
  let d := c.advanced (1 + ws.length)
  have hs : d.shape = c.shape := c.advanced_shape _
  have hsd : (d.storeAll writes).shape = d.shape := d.storeAll_shape writes
  have hregister : ∀ i w, Write.register i w ∈ writes →
      (∃ t ∈ f.registers, c.target? ws t = some i) ∨
        i = c.registers.ipIndex ∧ d.Leaves f.flow := by
    intro i w hw
    rw [← Core.ipIndex_of_shape hs]
    rcases h _ hw with ⟨t, ht, heq⟩ | hip
    · exact Or.inl ⟨t, ht, (Core.target_of_shape hs ws t).symm.trans heq⟩
    · exact Or.inr hip
  have havoids : ∀ i, (∀ w, Write.register i w ∉ writes) →
      (d.storeAll writes).registers.cell i = d.registers.cell i := by
    intro i hi
    apply d.storeAll_cell
    intro w hw hindex
    cases w with
    | register j v =>
      obtain rfl : j = i := Option.some.inj hindex
      exact hi v hw
    | memory a v => cases hindex
  constructor
  · exact hsd.trans hs
  · intro i hi htargets
    rw [havoids i, c.advanced_cell _ hi]
    intro w hw
    rcases hregister i w hw with ⟨t, ht, heq⟩ | ⟨heq, -⟩
    · exact htargets t ht heq
    · exact hi heq
  · intro k hk
    have hmemory : d.memory = c.memory := c.advanced_memory _
    rw [← hmemory]
    apply d.storeAll_byte
    intro w hw a ha
    cases w with
    | register j v => cases ha
    | memory b v =>
      obtain rfl : b = a := Option.some.inj ha
      obtain ⟨slot, hslot, u, hu, hfloor⟩ := h _ hw
      rw [hmemory]
      exact hk slot hslot u hu b hfloor
  · intro hleaves htargets
    have hcell : (d.storeAll writes).registers.cell c.registers.ipIndex =
        d.registers.cell c.registers.ipIndex := by
      apply havoids
      intro w hw
      rcases hregister _ w hw with ⟨t, ht, heq⟩ | ⟨-, hl⟩
      · exact htargets t ht heq
      · exact hleaves hl
    have hword := Registers.word_of_cell (Core.kind_of_shape hsd) hcell
    rw [Registers.ip, Core.ipIndex_of_shape (hsd.trans hs), hword, ← c.advanced_ip hc]
    rw [Registers.ip, Core.ipIndex_of_shape hs]

theorem Model.body_confined {model : Model} {row : Instruction} (hrow : row ∈ model.instructions)
    {ws : List Word} {c d : Core} (hc : c.registers.WellFormed) {text : String}
    (hbody : row.operation.body ws (c.advanced (1 + ws.length)) = .ok text d) :
    Confined row.footprint ws c d := by
  obtain ⟨writes, rfl, hadmits⟩ := Operation.body_admitted hbody
  rw [← Model.footprint_eq hrow] at hadmits
  exact Footprint.confined hc hadmits

/-- A cycle that succeeds changes only what the row of its opcode tells. -/
theorem Processor.cycle_confined {model : Model} {p : Processor} (hp : p.Reachable model)
    {continues : Bool} (h : p.cycle.1.result = .ok continues) :
    ∃ opcode row ws, model.instructions.lookup? opcode = some row ∧
      p.core.Streams 0 (opcode :: ws) ∧ ws.length = row.arguments.length ∧
      Confined row.footprint ws p.core p.cycle.2.core := by
  have hs := hp.sound
  obtain ⟨opcode, row, ws, hrow, hstreams, hready, ⟨text, hbody⟩, -⟩ := cycle_ready hs h
  obtain ⟨writes, hwrites, hadmits⟩ := Operation.body_admitted hbody
  rw [← Model.footprint_eq (Model.mem_of_lookup hrow)] at hadmits
  have hconfined := Footprint.confined hs.core.registers hadmits
  rw [← hwrites] at hconfined
  exact ⟨opcode, row, ws, hrow, hstreams, hready.operands.1, hconfined⟩

theorem Processor.store_through_ip_is_confined :
    ∃ new, create (.ofModel .extended) ⟨some .uint8, 8, some []⟩ = .ok new ∧
      let p := new.after [.memory (.loadWords 0 [Word.ofNat 0x11, Word.ofNat 0, Word.ofNat 0])]
      p.cycle.1.result = .ok true ∧
        p.cycle.2.core.memory.bytes = #[0x11, 0, 0, 3, 0, 0, 0, 0] ∧
        ∃ opcode row ws, Model.extended.instructions.lookup? opcode = some row ∧
          p.core.Streams 0 (opcode :: ws) ∧ Confined row.footprint ws p.core p.cycle.2.core := by
  let session : List HostCall :=
    [.memory (.loadWords 0 [Word.ofNat 0x11, Word.ofNat 0, Word.ofNat 0])]
  have hruns : (create (.ofModel .extended) ⟨some .uint8, 8, some []⟩).map (fun new =>
      ((new.after session).cycle.1.result, (new.after session).cycle.2.core.memory.bytes)) =
      .ok (.ok true, #[0x11, 0, 0, 3, 0, 0, 0, 0]) := by decide +kernel
  obtain ⟨new, hnew, hruns⟩ := Check.map_eq_ok.mp hruns
  obtain ⟨hresult, hbytes⟩ := Prod.mk.inj hruns
  have hp : (new.after session).Reachable .extended := ⟨_, new, session, hnew, rfl⟩
  obtain ⟨opcode, row, ws, hrow, hstreams, -, hconfined⟩ := cycle_confined hp hresult
  exact ⟨new, hnew, hresult, hbytes, opcode, row, ws, hrow, hstreams, hconfined⟩

end WordMachine
