import WordMachine.Proofs.Coercion
import WordMachine.Proofs.Reachable
import WordMachine.Proofs.Stack

/-!
# The empty stack

A machine with a stack begins with the capacity of its memory in the stack pointer, and a reset puts
it there again, whatever was done before. It is stored like any other word: the stack is empty just
when the kind stores the capacity as it is.
-/

set_option autoImplicit false

namespace WordMachine

namespace Core

/-- The stack has been set up for a memory of some words and not been used since. -/
structure Emptied (c : Core) (words : Nat) : Prop where
  wellFormed : c.WellFormed
  kinds : c.memory.kind = c.kind
  capacity : c.memory.capacity = words
  pointer : c.readNamed stackPointer = .ok (c.kind.coerce (Word.ofNat words))

variable {c : Core} {capacity : Nat}

namespace Emptied

theorem stackAt_iff (h : c.Emptied capacity) (h0 : 0 < capacity) :
    c.StackAt capacity ↔ c.kind.Exact capacity := by
  constructor
  · rintro ⟨top, htop, hinteger⟩
    obtain rfl : top = c.kind.coerce (Word.ofNat capacity) := Except.ok.inj (htop.symm.trans h.pointer)
    have hstored : c.kind.coerce (Word.ofNat capacity) = Word.ofNat capacity :=
      Word.eq_ofNat hinteger h0
    exact ⟨by rwa [hstored] at hinteger, hstored⟩
  · intro hexact
    refine ⟨_, h.pointer, ?_⟩
    rw [hexact.stored, hexact.integer]

theorem pop_fails (h : c.Emptied capacity) (hexact : c.kind.Exact capacity) (h0 : 0 < capacity) :
    ∃ top, pop c = .error (.outOfBounds top capacity) c := by
  have htop := (h.stackAt_iff h0).mpr hexact
  rw [← h.capacity] at htop hexact ⊢
  exact pop_at_capacity hexact htop

theorem push_succeeds (h : c.Emptied capacity) (hexact : c.kind.Exact capacity)
    (h0 : 0 < capacity) (hbound : capacity ≤ 2 ^ 53) (w : Word) :
    ∃ sp d, push w c = .ok sp d ∧ d.memory.read (capacity - 1) = .ok (c.kind.coerce w) := by
  obtain ⟨n, rfl⟩ : ∃ n, capacity = n + 1 := ⟨capacity - 1, by omega⟩
  have hlt : n < c.memory.capacity := by
    rw [h.capacity]
    exact Nat.lt_succ_self n
  have hlimit : c.memory.capacity < Address.limit := by
    rw [h.capacity]
    exact Nat.lt_of_le_of_lt hbound (by decide)
  obtain ⟨sp, -, hpush⟩ := push_at ((h.stackAt_iff h0).mpr hexact) (Word.integer?_ofNat (by omega))
    hexact.integer hlt hlimit w
  have hread : (c.memory.put n w).read n = .ok (c.memory.kind.coerce w) :=
    Memory.read_put h.wellFormed.memory hlt w
  exact ⟨_, _, hpush, by rw [← h.kinds]; exact hread⟩

end Emptied

theorem emptyStack_ok {sp : Nat} (hsp : c.registers.place? (.name stackPointer) = some sp) :
    Variant.emptyStack c = .ok () (c.store (.register sp (Word.ofNat c.memory.capacity))) := by
  have hwrite : ∃ w, writeRegister (.name stackPointer) (Word.ofNat c.memory.capacity) c =
      .ok w (c.store (.register sp (Word.ofNat c.memory.capacity))) :=
    ⟨_, writeRegister_eq_ok.mpr ⟨sp, hsp, rfl, rfl⟩⟩
  obtain ⟨w, hwrite⟩ := hwrite
  simp only [Variant.emptyStack, hwrite]

end Core

namespace Processor

variable {p : Processor}

theorem initialise_stack (hp : p.Sound .extended) :
    ∃ sp, p.core.registers.place? (.name Core.stackPointer) = some sp ∧
      p.initialise = (.ok (), { p with
        core := p.core.store (.register sp (Word.ofNat p.core.memory.capacity)) }) := by
  obtain ⟨sp, hsp⟩ := Registers.exists_place_of_mem (hp.required Core.stackPointer (by decide))
  have hok : p.variant.initialise p.core =
      .ok () (p.core.store (.register sp (Word.ofNat p.core.memory.capacity))) := by
    rw [hp.variant]
    exact Core.emptyStack_ok hsp
  exact ⟨sp, hsp, by rw [initialise, hok]⟩

theorem initialise_emptied (hp : p.Sound .extended) :
    p.initialise.1 = .ok () ∧ p.initialise.2.core.Emptied p.core.memory.capacity := by
  obtain ⟨sp, hsp, hset⟩ := initialise_stack hp
  have hword := p.core.registers.word_put hp.core.registers (Registers.place_lt hsp)
    (Word.ofNat p.core.memory.capacity)
  rw [hset]
  exact ⟨rfl, hp.core.of_shape (p.core.store_shape _), hp.kinds, rfl,
    Registers.read_eq_ok.mpr ⟨sp, hsp, hword⟩⟩

theorem create_emptied {configuration : Configuration}
    (h : create (.ofModel .extended) configuration = .ok p) :
    0 < configuration.memoryWords ∧ p.core.Emptied configuration.memoryWords := by
  obtain ⟨hwords, registers, hregisters, hinitialise⟩ := create_ok h
  have hemptied := (initialise_emptied (blank_sound hregisters)).2
  rw [hinitialise] at hemptied
  exact ⟨Nat.pos_of_ne_zero hwords, hemptied⟩

theorem reset_emptied (hp : p.Sound .extended) :
    p.reset.1 = .ok () ∧ p.reset.2.core.Emptied p.core.memory.capacity :=
  initialise_emptied (p := p.cleared) (hp.of_shape rfl p.cleared_shape)

/-- A new machine and one that is reset begin with the capacity as the kind stores it. Where this is
the capacity itself, nothing can be popped, and a push goes to the last word of memory. -/
theorem stack_begins_empty {configuration : Configuration} {new : Processor}
    (hnew : create (.ofModel .extended) configuration = .ok new) (calls : List HostCall) :
    let words := configuration.memoryWords
    let reset := (new.after calls).reset
    reset.1 = .ok () ∧ ∀ p, p = new ∨ p = reset.2 →
      p.core.memory.capacity = words ∧
      p.core.readNamed Core.stackPointer = .ok (p.core.kind.coerce (Word.ofNat words)) ∧
      (p.core.StackAt words ↔ p.core.kind.Exact words) ∧
      (p.core.kind.Exact words →
        (∃ top, Core.pop p.core = .error (.outOfBounds top words) p.core) ∧
        (words ≤ 2 ^ 53 → ∀ w, ∃ sp d, Core.push w p.core = .ok sp d ∧
          d.memory.read (words - 1) = .ok (p.core.kind.coerce w))) := by
  intro words reset
  obtain ⟨h0, hcreated⟩ := create_emptied hnew
  have hsound := create_sound hnew
  obtain ⟨hok, hreset⟩ := reset_emptied (after_sound hsound calls)
  have hshape : (new.after calls).core.shape = new.core.shape := after_shape hsound.variant calls
  have hcapacity : (new.after calls).core.memory.capacity = words :=
    (congrArg (·.2.capacity) hshape).trans hcreated.capacity
  rw [hcapacity] at hreset
  refine ⟨hok, fun p hp => ?_⟩
  have hemptied : p.core.Emptied words := by
    rcases hp with rfl | rfl
    · exact hcreated
    · exact hreset
  exact ⟨hemptied.capacity, hemptied.pointer, hemptied.stackAt_iff h0, fun hexact =>
    ⟨hemptied.pop_fails hexact h0, fun hbound w => hemptied.push_succeeds hexact h0 hbound w⟩⟩

theorem pushed_stack_is_emptied :
    ∃ new, create (.ofModel .extended) ⟨some .uint8, 8, some []⟩ = .ok new ∧
      let p := new.after [.memory (.loadWords 0 [Word.ofNat 0x60, Word.ofNat 7]), .cycle]
      p.core.readNamed Core.stackPointer = .ok (Word.ofNat 7) ∧
        p.reset.1 = .ok () ∧ p.reset.2.core.StackAt 8 ∧
        ∃ top, Core.pop p.reset.2.core = .error (.outOfBounds top 8) p.reset.2.core := by
  let session : List HostCall := [.memory (.loadWords 0 [Word.ofNat 0x60, Word.ofNat 7]), .cycle]
  have hruns : (create (.ofModel .extended) ⟨some .uint8, 8, some []⟩).map (fun new =>
      ((new.after session).core.readNamed Core.stackPointer, (new.after session).reset.2.core.kind)) =
      .ok (.ok (Word.ofNat 7), .uint8) := by decide +kernel
  obtain ⟨new, hnew, hruns⟩ := Check.map_eq_ok.mp hruns
  obtain ⟨hpushed, hkind⟩ := Prod.mk.inj hruns
  obtain ⟨hok, hall⟩ := stack_begins_empty hnew session
  obtain ⟨-, -, hiff, hpop⟩ := hall _ (Or.inr rfl)
  have hexact : (new.after session).reset.2.core.kind.Exact 8 := by
    rw [hkind]
    decide +kernel
  exact ⟨new, hnew, hpushed, hok, hiff.mpr hexact, (hpop hexact).1⟩

/-- A memory of 256 words of one byte begins with a stack that is full: what is popped is the first
word of memory, and nothing can be pushed. -/
theorem byte_memory_begins_full :
    ∃ new, create (.ofModel .extended) ⟨some .uint8, 256, some []⟩ = .ok new ∧
      new.core.memory.capacity = 256 ∧
      new.core.readNamed Core.stackPointer = .ok (Word.ofNat 0) ∧
      Work.answer (Core.pop new.core) = .ok (Word.ofNat 0) ∧
      ∀ w, ∃ fault, Core.push w new.core = .error fault new.core := by
  have hruns : (create (.ofModel .extended) ⟨some .uint8, 256, some []⟩).map (fun new =>
      (new.core.memory.capacity, new.core.readNamed Core.stackPointer,
        Work.answer (Core.pop new.core))) =
      .ok (256, .ok (Word.ofNat 0), .ok (Word.ofNat 0)) := by decide +kernel
  obtain ⟨new, hnew, hruns⟩ := Check.map_eq_ok.mp hruns
  obtain ⟨hcapacity, hruns⟩ := Prod.mk.inj hruns
  obtain ⟨hpointer, hpop⟩ := Prod.mk.inj hruns
  have hfull : new.core.StackAt 0 := ⟨_, hpointer, by decide +kernel⟩
  exact ⟨new, hnew, hcapacity, hpointer, hpop, fun w => ⟨_, Core.push_at_zero hfull w⟩⟩

end Processor

end WordMachine
