import WordMachine.Proofs.Store
import WordMachine.Variant

/-!
# What an instruction requires

Besides its operand words an instruction requires that those at register positions pick a register
and that every address it works at is valid: the addresses among its operands, those in registers
that it uses as pointers, and those on the stack. All of this is read off its row.
-/

set_option autoImplicit false

namespace WordMachine

@[simp]
def Argument.isRegister : Argument → Bool
  | register | registerPointer => true
  | address | constant | symbol => false

def Operation.named : Operation → List String
  | .idle | .stop _ => []
  | .ret => [Core.stackPointer]
  | .one op =>
    match op with
    | .squareRoot _ | .complement => [accumulator]
    | .increment | .decrement => []
    | .jump _ _ => [compareRegister]
    | .push _ | .pop | .call _ => [Core.stackPointer]
  | .two op =>
    match op with
    | .arithmetic _ _ | .bitwise _ _ => [accumulator]
    | .compare _ => [compareRegister]
    | .move | .storeThrough | .loadThrough | .moveConstant | .load | .copyIn | .copyOut => []

theorem Model.named_required {model : Model} {row : Instruction} (h : row ∈ model.instructions) :
    ∀ n ∈ row.operation.named, n ∈ (Variant.ofModel model).requiredRegisters := by
  revert row
  cases model <;> decide +kernel

/-- The words on the stack that an instruction works at. -/
inductive StackUse where
  | untouched
  | push
  | pop
  | popTwice
  deriving DecidableEq, Repr

def StackUse.addresses (kind : Kind) (top : Word) : StackUse → List Word
  | untouched => []
  | push => [top.sub (Word.ofNat 1)]
  | pop => [top]
  | popTwice => [top, kind.coerce (top.add (Word.ofNat 1))]

def Operation.stackUse : Operation → StackUse
  | .ret => .popTwice
  | .one (.push _) | .one (.call _) => .push
  | .one .pop => .pop
  | .idle | .stop _ | .one _ | .two _ => .untouched

def Instruction.stackUse (row : Instruction) : StackUse :=
  if row.mnemonic = "PUSH" ∨ row.mnemonic = "CALL" then .push
  else if row.mnemonic = "POP" then .pop
  else if row.mnemonic = "RET" then .popTwice
  else .untouched

theorem Model.stackUse_eq {model : Model} {row : Instruction} (h : row ∈ model.instructions) :
    row.stackUse = row.operation.stackUse := by
  revert row
  cases model <;> decide +kernel

namespace Core

def Resolves (c : Core) (w : Word) : Prop := ∃ i, c.registers.place? (.index w) = some i

def Valid (c : Core) (w : Word) : Prop := ∃ a, c.memory.addressOf w = .ok a

/-- The address that an operand word leads to: itself, or the word of the register it picks. -/
def operandAddress? (c : Core) : Argument → Word → Option Word
  | .address, w => some w
  | .registerPointer, w => (c.registers.place? (.index w)).map c.registers.word
  | .register, _ | .constant, _ | .symbol, _ => none

def stackAddresses (c : Core) (use : StackUse) : List Word :=
  match c.registers.place? (.name stackPointer) with
  | some i => use.addresses c.kind (c.registers.word i)
  | none => []

def RegistersResolve (c : Core) (kinds : List Argument) (ws : List Word) : Prop :=
  ∀ aw ∈ kinds.zip ws, aw.1.isRegister → c.Resolves aw.2

def AddressesValid (c : Core) (kinds : List Argument) (use : StackUse) (ws : List Word) : Prop :=
  (∀ aw ∈ kinds.zip ws, ∀ w, c.operandAddress? aw.1 aw.2 = some w → c.Valid w) ∧
    ∀ w ∈ c.stackAddresses use, c.Valid w

section

variable {c : Core}

theorem stackAddresses_eq {top : Word} (h : c.readNamed stackPointer = .ok top) (use : StackUse) :
    c.stackAddresses use = use.addresses c.kind top := by
  obtain ⟨i, hi, rfl⟩ := Registers.read_eq_ok.mp h
  rw [stackAddresses, hi]

theorem registersResolve_one {a : Argument} {w : Word} :
    c.RegistersResolve [a] [w] ↔ (a.isRegister → c.Resolves w) := by
  simp [RegistersResolve]

theorem registersResolve_two {a b : Argument} {v w : Word} :
    c.RegistersResolve [a, b] [v, w] ↔
      (a.isRegister → c.Resolves v) ∧ (b.isRegister → c.Resolves w) := by
  simp [RegistersResolve]

@[simp]
theorem operandAddress_register (c : Core) (w : Word) : c.operandAddress? .register w = none := rfl

@[simp]
theorem operandAddress_constant (c : Core) (w : Word) : c.operandAddress? .constant w = none := rfl

@[simp]
theorem operandAddress_address (c : Core) (w : Word) : c.operandAddress? .address w = some w := rfl

@[simp]
theorem operandAddress_operand (c : Core) (o : Operand) (w : Word) :
    c.operandAddress? o.argument w = none := by
  cases o <;> rfl

theorem operandAddress_registerPointer {w a : Word} (h : c.readRegister w = .ok a) :
    c.operandAddress? .registerPointer w = some a := by
  obtain ⟨i, hi, rfl⟩ := Registers.read_eq_ok.mp h
  rw [operandAddress?, hi]
  rfl

@[simp]
theorem stackAddresses_untouched (c : Core) : c.stackAddresses .untouched = [] := by
  rw [stackAddresses]
  split <;> rfl

theorem addressesValid_one {a : Argument} {w : Word} {use : StackUse} :
    c.AddressesValid [a] use [w] ↔
      (∀ v, c.operandAddress? a w = some v → c.Valid v) ∧ ∀ v ∈ c.stackAddresses use, c.Valid v := by
  simp [AddressesValid]

theorem addressesValid_two {a b : Argument} {v w : Word} :
    c.AddressesValid [a, b] .untouched [v, w] ↔
      (∀ u, c.operandAddress? a v = some u → c.Valid u) ∧
        ∀ u, c.operandAddress? b w = some u → c.Valid u := by
  simp [AddressesValid, stackAddresses_untouched]

end

end Core

end WordMachine
