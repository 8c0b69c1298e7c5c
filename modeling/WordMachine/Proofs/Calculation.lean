import WordMachine.Proofs.Jumps

/-!
# Calculations

An instruction that calculates fetches its operand words, then reads the registers that they pick,
and stores one result in the accumulator. Which words it takes is told from the core that it begins
with.
-/

set_option autoImplicit false

namespace WordMachine

def Arithmetic.mnemonic : Arithmetic → String
  | add => "ADD"
  | sub => "SUB"
  | mul => "MUL"
  | div => "DIV"
  | intDiv => "IDIV"
  | pow => "POW"

def Bitwise.mnemonic : Bitwise → String
  | and => "AND"
  | or => "OR"
  | xor => "XOR"
  | shiftLeft => "SHL"
  | shiftRight => "SHR"

namespace Model

def calculations : List (String × (Operand → Operation)) :=
  Arithmetic.all.map (fun op => (op.mnemonic, fun o => .two (.arithmetic op o))) ++
  Bitwise.all.map (fun op => (op.mnemonic, fun o => .two (.bitwise op o))) ++
  [("SQRT", fun o => .one (.squareRoot o)), ("NOT", fun _ => .one .complement),
    ("INC", fun _ => .one .increment), ("DEC", fun _ => .one .decrement)]

variable {row : Instruction}

theorem calculation_row {m : String} {operation : Operand → Operation}
    (h : row ∈ Model.extended.instructions) (hm : row.mnemonic = m)
    (hcalculates : (m, operation) ∈ calculations) : ∃ o, row.operation = operation o := by
  have hrows : ∀ c ∈ calculations, ∀ row ∈ Model.extended.instructions, row.mnemonic = c.1 →
      ∃ o ∈ [Operand.register, .constant], row.operation = c.2 o := by
    decide +kernel
  obtain ⟨o, -, hop⟩ := hrows _ hcalculates row h hm
  exact ⟨o, hop⟩

theorem arithmetic_row {op : Arithmetic} (h : row ∈ Model.extended.instructions)
    (hm : row.mnemonic = op.mnemonic) : ∃ o, row.operation = .two (.arithmetic op o) :=
  calculation_row h hm
    (List.mem_append_left _ (List.mem_append_left _ (List.mem_map.mpr ⟨op, op.mem_all, rfl⟩)))

theorem bitwise_row {op : Bitwise} (h : row ∈ Model.extended.instructions)
    (hm : row.mnemonic = op.mnemonic) : ∃ o, row.operation = .two (.bitwise op o) :=
  calculation_row h hm
    (List.mem_append_left _ (List.mem_append_right _ (List.mem_map.mpr ⟨op, op.mem_all, rfl⟩)))

theorem squareRoot_row (h : row ∈ Model.extended.instructions) (hm : row.mnemonic = "SQRT") :
    ∃ o, row.operation = .one (.squareRoot o) :=
  calculation_row h hm (List.mem_append_right _ (by simp))

theorem complement_row (h : row ∈ Model.extended.instructions) (hm : row.mnemonic = "NOT") :
    row.operation = .one .complement := by
  obtain ⟨-, hop⟩ : ∃ _ : Operand, row.operation = .one .complement :=
    calculation_row h hm (List.mem_append_right _ (by simp))
  exact hop

theorem increment_row (h : row ∈ Model.extended.instructions) (hm : row.mnemonic = "INC") :
    row.operation = .one .increment := by
  obtain ⟨-, hop⟩ : ∃ _ : Operand, row.operation = .one .increment :=
    calculation_row h hm (List.mem_append_right _ (by simp))
  exact hop

theorem decrement_row (h : row ∈ Model.extended.instructions) (hm : row.mnemonic = "DEC") :
    row.operation = .one .decrement := by
  obtain ⟨-, hop⟩ : ∃ _ : Operand, row.operation = .one .decrement :=
    calculation_row h hm (List.mem_append_right _ (by simp))
  exact hop

end Model

namespace Core

variable {c d : Core}

def operands? (c : Core) : Nat → Nat → Option (List Word)
  | _, 0 => some []
  | n, count + 1 => do
    let w ← (c.readMemory (c.pointer n)).toOption
    let ws ← c.operands? (n + 1) count
    return w :: ws

/-- The row of the opcode at the instruction pointer, and the operand words behind it. -/
def instruction? (c : Core) : Option (Instruction × List Word) := do
  let opcode ← (c.readMemory c.registers.ip).toOption
  let row ← Model.extended.instructions.lookup? opcode
  let ws ← c.operands? 1 row.arguments.length
  return (row, ws)

def value? (c : Core) : Argument → Word → Option Word
  | .register, w => (c.readRegister w).toOption
  | .constant, w => some w
  | _, _ => none

/-- The mnemonic of the instruction at the instruction pointer and the words that it calculates
with. Registers are read when all operand words are fetched. -/
def calculation? (c : Core) : Option (String × List Word) := do
  let (row, ws) ← c.instruction?
  let fetched := c.advanced (1 + ws.length)
  let values ← (row.arguments.zip ws).mapM fun (a, w) => fetched.value? a w
  return (row.mnemonic, values)

theorem toOption_eq_some {α : Type} {x : Except Fault α} {a : α} :
    x.toOption = some a ↔ x = .ok a := by
  cases x <;> simp [Except.toOption]

theorem operands?_eq_some {n count : Nat} {ws : List Word} :
    c.operands? n count = some ws ↔ c.Streams n ws ∧ ws.length = count := by
  induction count generalizing n ws with
  | zero => cases ws <;> simp [operands?, Streams]
  | succ count ih =>
    simp only [operands?, Option.bind_eq_bind, Option.bind_eq_some_iff, toOption_eq_some, ih,
      Option.pure_def, Option.some.injEq]
    constructor
    · rintro ⟨w, hw, ws, ⟨hstreams, hlength⟩, rfl⟩
      exact ⟨⟨hw, hstreams⟩, congrArg Nat.succ hlength⟩
    · rintro ⟨hstreams, hlength⟩
      cases ws with
      | nil => cases hlength
      | cons w ws => exact ⟨w, hstreams.1, ws, ⟨hstreams.2, Nat.succ.inj hlength⟩, rfl⟩

theorem instruction?_eq_some {row : Instruction} {ws : List Word} :
    c.instruction? = some (row, ws) ↔ ∃ opcode,
      Model.extended.instructions.lookup? opcode = some row ∧ c.Streams 0 (opcode :: ws) ∧
        ws.length = row.arguments.length := by
  simp only [instruction?, Option.bind_eq_bind, Option.bind_eq_some_iff, toOption_eq_some,
    operands?_eq_some, Option.pure_def, Option.some.injEq, Prod.mk.injEq]
  constructor
  · rintro ⟨opcode, hopcode, _, hrow, _, ⟨hstreams, hlength⟩, rfl, rfl⟩
    exact ⟨opcode, hrow, ⟨hopcode, hstreams⟩, hlength⟩
  · rintro ⟨opcode, hrow, ⟨hopcode, hstreams⟩, hlength⟩
    exact ⟨opcode, hopcode, row, hrow, ws, ⟨hstreams, hlength⟩, rfl, rfl⟩

theorem value?_operand {o : Operand} {w a : Word} (h : o.value c w = .ok a) :
    c.value? o.argument w = some a := by
  cases o with
  | register => exact toOption_eq_some.mpr h
  | constant => exact congrArg some (Except.ok.inj h)

theorem calculation?_of_one {row : Instruction} {o : Operand} {w a : Word}
    (hi : c.instruction? = some (row, [w])) (hargs : row.arguments = [o.argument])
    (ha : o.value (c.advanced 2) w = .ok a) : c.calculation? = some (row.mnemonic, [a]) := by
  simp [calculation?, hi, hargs, value?_operand ha]

theorem calculation?_of_two {row : Instruction} {o : Operand} {v w a b : Word}
    (hi : c.instruction? = some (row, [v, w])) (hargs : row.arguments = [.register, o.argument])
    (ha : (c.advanced 3).readRegister v = .ok a) (hb : o.value (c.advanced 3) w = .ok b) :
    c.calculation? = some (row.mnemonic, [a, b]) := by
  have ha : (c.advanced 3).value? .register v = some a := toOption_eq_some.mpr ha
  simp [calculation?, hi, hargs, ha, value?_operand hb]

theorem accumulate_two_eq_ok {o : Operand} {v w : Word} {f : Word → Word → Word}
    {text : Word → Word → String → String} {e : Effect String}
    (h : (do
      let left ← c.readRegister v
      let right ← o.value c w
      c.accumulate (f left right) (text left right)) = Except.ok e) :
    ∃ a b acc, c.readRegister v = .ok a ∧ o.value c w = .ok b ∧
      c.registers.place? (.name accumulator) = some acc ∧ e.writes = [.register acc (f a b)] := by
  obtain ⟨a, ha, h⟩ := Check.bind_eq_ok.mp h
  obtain ⟨b, hb, h⟩ := Check.bind_eq_ok.mp h
  obtain ⟨acc, hacc, hwrites⟩ := assign_eq_ok h
  exact ⟨a, b, acc, ha, hb, hacc, hwrites⟩

theorem accumulate_one_eq_ok {o : Operand} {w : Word} {f : Word → Word}
    {text : Word → String → String} {e : Effect String}
    (h : (do
      let value ← o.value c w
      c.accumulate (f value) (text value)) = Except.ok e) :
    ∃ a acc, o.value c w = .ok a ∧ c.registers.place? (.name accumulator) = some acc ∧
      e.writes = [.register acc (f a)] := by
  obtain ⟨a, ha, h⟩ := Check.bind_eq_ok.mp h
  obtain ⟨acc, hacc, hwrites⟩ := assign_eq_ok h
  exact ⟨a, acc, ha, hacc, hwrites⟩

end Core

namespace Processor

variable {p : Processor}

theorem cycle_of_instruction (hp : p.Sound .extended) (h : p.Succeeds) {row : Instruction}
    {ws : List Word} (hi : p.core.instruction? = some (row, ws)) :
    row.arguments = row.operation.arguments ∧ p.core.Streams 1 ws ∧
      ws.length = row.operation.arguments.length ∧
      ∃ text, row.operation.body ws (p.core.advanced (1 + ws.length)) = .ok text p.cycle.2.core := by
  obtain ⟨continues, hresult⟩ := h
  obtain ⟨opcode, hrow, hstreams, hlength⟩ := Core.instruction?_eq_some.mp hi
  obtain ⟨ws', hstreams', hlength', hbody⟩ := cycle_body hp hresult hstreams.1 hrow
  have harguments := Model.arguments_of_lookup hrow
  rw [harguments] at hlength
  obtain rfl : ws' = ws := hstreams'.2.unique (hlength'.trans hlength.symm) hstreams.2
  exact ⟨harguments, hstreams.2, hlength, hbody⟩

theorem instruction_of_mnemonic {m : String} (hp : p.Sound .extended)
    (hm : p.core.mnemonic? = some m) (h : p.Succeeds) :
    ∃ row ws, p.core.instruction? = some (row, ws) ∧ row ∈ Model.extended.instructions ∧
      row.mnemonic = m := by
  obtain ⟨continues, hresult⟩ := h
  obtain ⟨opcode, row, ws, hrow, hmnemonic, hstreams, hlength, -⟩ := cycle_of_mnemonic hp hm hresult
  rw [← Model.arguments_of_lookup hrow] at hlength
  exact ⟨row, ws, Core.instruction?_eq_some.mpr ⟨opcode, hrow, hstreams, hlength⟩,
    Model.mem_of_lookup hrow, hmnemonic⟩

theorem Sound.coerce_operand (hp : p.Sound .extended) {o : Operand} {n k : Nat} {w a : Word}
    (hw : p.core.readMemory (p.core.pointer k) = .ok w)
    (ha : o.value (p.core.advanced n) w = .ok a) : p.core.kind.coerce a = a := by
  have hs := p.core.advanced_shape n
  have hkind : (p.core.advanced n).kind = p.core.kind := Core.kind_of_shape hs
  rw [← hkind]
  exact Core.coerce_value (Core.registers_of_shape hs hp.core.registers) (hp.coerce_fetched hw n) ha

theorem Sound.readNamed_assigned (hp : p.Sound .extended) {n i : Nat} {name : String} {w : Word}
    (hi : (p.core.advanced n).registers.place? (.name name) = some i) :
    ((p.core.advanced n).store (.register i w)).readNamed name = .ok (p.core.kind.coerce w) := by
  have hs := p.core.advanced_shape n
  have hkind : (p.core.advanced n).kind = p.core.kind := Core.kind_of_shape hs
  rw [← hkind]
  exact Core.readNamed_store (Core.registers_of_shape hs hp.core.registers) hi w

theorem cycle_of_two (hp : p.Sound .extended) (h : p.Succeeds) {row : Instruction} {ws : List Word}
    {op : TwoOperand} (hi : p.core.instruction? = some (row, ws)) (hop : row.operation = .two op) :
    ∃ v w e, ws = [v, w] ∧ row.arguments = [op.arguments.1, op.arguments.2] ∧
      p.core.readMemory (p.core.pointer 1) = .ok v ∧ p.core.readMemory (p.core.pointer 2) = .ok w ∧
      op.effect v w (p.core.advanced 3) = .ok e ∧
      p.cycle.2.core = (p.core.advanced 3).storeAll e.writes := by
  obtain ⟨harguments, hstreams, hlength, text, hbody⟩ := cycle_of_instruction hp h hi
  rw [hop] at harguments hlength hbody
  obtain ⟨v, w, rfl⟩ : ∃ v w, ws = [v, w] := ⟨_, _, List.eq_getElem_of_length_eq_two ws hlength⟩
  obtain ⟨writes, he, hd⟩ := Core.perform_eq_ok.mp hbody
  exact ⟨v, w, _, rfl, harguments, hstreams.1, hstreams.2.1, he, hd⟩

theorem cycle_of_one (hp : p.Sound .extended) (h : p.Succeeds) {row : Instruction} {ws : List Word}
    {op : OneOperand} (hi : p.core.instruction? = some (row, ws)) (hop : row.operation = .one op) :
    ∃ w e, ws = [w] ∧ row.arguments = [op.argument] ∧
      p.core.readMemory (p.core.pointer 1) = .ok w ∧ op.effect w (p.core.advanced 2) = .ok e ∧
      p.cycle.2.core = (p.core.advanced 2).storeAll e.writes := by
  obtain ⟨harguments, hstreams, hlength, text, hbody⟩ := cycle_of_instruction hp h hi
  rw [hop] at harguments hlength hbody
  obtain ⟨w, rfl⟩ := List.length_eq_one_iff.mp hlength
  obtain ⟨writes, he, hd⟩ := Core.perform_eq_ok.mp hbody
  exact ⟨w, _, rfl, harguments, hstreams.1, he, hd⟩

theorem cycle_accumulates_two {row : Instruction} {ws : List Word} {op : TwoOperand} {o : Operand}
    {f : Word → Word → Word} (hp : p.Sound .extended) (h : p.Succeeds)
    (hi : p.core.instruction? = some (row, ws)) (hop : row.operation = .two op)
    (hargs : op.arguments = (.register, o.argument))
    (heffect : ∀ v w c e, op.effect v w c = .ok e →
      ∃ a b acc, c.readRegister v = .ok a ∧ o.value c w = .ok b ∧
        c.registers.place? (.name accumulator) = some acc ∧ e.writes = [.register acc (f a b)]) :
    ∃ a b, p.core.calculation? = some (row.mnemonic, [a, b]) ∧
      p.core.kind.coerce a = a ∧ p.core.kind.coerce b = b ∧
      p.cycle.2.core.readNamed accumulator = .ok (p.core.kind.coerce (f a b)) := by
  obtain ⟨v, w, e, rfl, harguments, hv, hw, he, hd⟩ := cycle_of_two hp h hi hop
  rw [hargs] at harguments
  obtain ⟨a, b, acc, ha, hb, hacc, hwrites⟩ := heffect v w _ _ he
  rw [hwrites] at hd
  exact ⟨a, b, Core.calculation?_of_two hi harguments ha hb,
    hp.coerce_operand (o := .register) hv ha, hp.coerce_operand hw hb,
    hd ▸ hp.readNamed_assigned hacc⟩

theorem cycle_accumulates_one {row : Instruction} {ws : List Word} {op : OneOperand} {o : Operand}
    {f : Word → Word} (hp : p.Sound .extended) (h : p.Succeeds)
    (hi : p.core.instruction? = some (row, ws)) (hop : row.operation = .one op)
    (hargs : op.argument = o.argument)
    (heffect : ∀ w c e, op.effect w c = .ok e →
      ∃ a acc, o.value c w = .ok a ∧ c.registers.place? (.name accumulator) = some acc ∧
        e.writes = [.register acc (f a)]) :
    ∃ a, p.core.calculation? = some (row.mnemonic, [a]) ∧ p.core.kind.coerce a = a ∧
      p.cycle.2.core.readNamed accumulator = .ok (p.core.kind.coerce (f a)) := by
  obtain ⟨w, e, rfl, harguments, hw, he, hd⟩ := cycle_of_one hp h hi hop
  rw [hargs] at harguments
  obtain ⟨a, acc, ha, hacc, hwrites⟩ := heffect w _ _ he
  rw [hwrites] at hd
  exact ⟨a, Core.calculation?_of_one hi harguments ha, hp.coerce_operand hw ha,
    hd ▸ hp.readNamed_assigned hacc⟩

section

variable (hp : p.Sound .extended) (h : p.Succeeds)
include hp h

theorem cycle_arithmetic {op : Arithmetic} (hm : p.core.mnemonic? = some op.mnemonic) :
    ∃ a b, p.core.calculation? = some (op.mnemonic, [a, b]) ∧
      p.core.kind.coerce a = a ∧ p.core.kind.coerce b = b ∧
      p.cycle.2.core.readNamed accumulator = .ok (p.core.kind.coerce (op.apply a b)) := by
  obtain ⟨row, ws, hi, hrow, hmnemonic⟩ := instruction_of_mnemonic hp hm h
  obtain ⟨o, hop⟩ := Model.arithmetic_row hrow hmnemonic
  rw [← hmnemonic]
  exact cycle_accumulates_two hp h hi hop rfl fun _ _ _ _ he => Core.accumulate_two_eq_ok he

theorem cycle_bitwise {op : Bitwise} (hm : p.core.mnemonic? = some op.mnemonic) :
    ∃ a b, p.core.calculation? = some (op.mnemonic, [a, b]) ∧
      p.core.kind.coerce a = a ∧ p.core.kind.coerce b = b ∧
      p.cycle.2.core.readNamed accumulator =
        .ok (p.core.kind.coerce (ofInteger (op.apply (toInteger a) (toInteger b)))) := by
  obtain ⟨row, ws, hi, hrow, hmnemonic⟩ := instruction_of_mnemonic hp hm h
  obtain ⟨o, hop⟩ := Model.bitwise_row hrow hmnemonic
  rw [← hmnemonic]
  exact cycle_accumulates_two hp h hi hop rfl
    (f := fun a b => ofInteger (op.apply (toInteger a) (toInteger b)))
    fun _ _ _ _ he => Core.accumulate_two_eq_ok he

theorem cycle_squareRoot (hm : p.core.mnemonic? = some "SQRT") :
    ∃ a, p.core.calculation? = some ("SQRT", [a]) ∧ p.core.kind.coerce a = a ∧
      p.cycle.2.core.readNamed accumulator = .ok (p.core.kind.coerce a.sqrt) := by
  obtain ⟨row, ws, hi, hrow, hmnemonic⟩ := instruction_of_mnemonic hp hm h
  obtain ⟨o, hop⟩ := Model.squareRoot_row hrow hmnemonic
  rw [← hmnemonic]
  exact cycle_accumulates_one hp h hi hop rfl fun _ _ _ he => Core.accumulate_one_eq_ok he

theorem cycle_complement (hm : p.core.mnemonic? = some "NOT") :
    ∃ a, p.core.calculation? = some ("NOT", [a]) ∧ p.core.kind.coerce a = a ∧
      p.cycle.2.core.readNamed accumulator =
        .ok (p.core.kind.coerce (ofInteger (~~~toInteger a))) := by
  obtain ⟨row, ws, hi, hrow, hmnemonic⟩ := instruction_of_mnemonic hp hm h
  have hop := Model.complement_row hrow hmnemonic
  rw [← hmnemonic]
  exact cycle_accumulates_one (o := .register) hp h hi hop rfl
    (f := fun a => ofInteger (~~~toInteger a)) fun _ _ _ he => Core.accumulate_one_eq_ok he

end

end Processor

end WordMachine
