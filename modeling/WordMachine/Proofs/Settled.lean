import WordMachine.Proofs.Address
import WordMachine.Proofs.Execution
import WordMachine.Proofs.Requirements

/-!
# What the checks of an operation decide

The body of an operation succeeds if and only if its requirements are met, and its fault names a
kind of requirement that is not. Checks are done in sequence, so this is told of each single check
and carried over to sequences.
-/

set_option autoImplicit false

namespace WordMachine

/-- The outcome of checks on registers and on addresses: they pass only if both kinds are met, and
a fault is about a kind that is not. -/
structure Settled {α : Type} (x : Except Fault α) (registers addresses : Prop) : Prop where
  met : ∀ a, x = .ok a → registers ∧ addresses
  blamed : ∀ fault, x = .error fault →
    (∃ s, fault = .invalidRegister s) ∧ ¬ registers ∨
      (∃ w n, fault = .outOfBounds w n) ∧ ¬ addresses

namespace Settled

variable {α β : Type} {R S A B : Prop}

theorem pure (a : α) : Settled (pure a) True True where
  met := fun _ _ => ⟨trivial, trivial⟩
  blamed := fun _ h => nomatch h

theorem bind {x : Except Fault α} {f : α → Except Fault β} (hx : Settled x R A)
    (hf : ∀ a, x = .ok a → Settled (f a) S B) : Settled (x >>= f) (R ∧ S) (A ∧ B) where
  met := by
    intro b hb
    obtain ⟨a, ha, hb⟩ := Check.bind_eq_ok.mp hb
    obtain ⟨hR, hA⟩ := hx.met a ha
    obtain ⟨hS, hB⟩ := (hf a ha).met b hb
    exact ⟨⟨hR, hS⟩, hA, hB⟩
  blamed := by
    intro fault h
    rcases Check.bind_eq_error.mp h with h | ⟨a, ha, h⟩
    · exact (hx.blamed fault h).imp (And.imp_right fun hR hall => hR hall.1)
        (And.imp_right fun hA hall => hA hall.1)
    · exact ((hf a ha).blamed fault h).imp (And.imp_right fun hS hall => hS hall.2)
        (And.imp_right fun hB hall => hB hall.2)

theorem map {x : Except Fault α} (f : α → β) (hx : Settled x R A) : Settled (x.map f) R A where
  met := by
    intro b hb
    obtain ⟨a, ha, -⟩ := Check.map_eq_ok.mp hb
    exact hx.met a ha
  blamed := fun fault h => hx.blamed fault (Check.map_eq_error.mp h)

theorem congr {x : Except Fault α} (hx : Settled x R A) (hR : R ↔ S) (hA : A ↔ B) :
    Settled x S B := by
  rwa [← propext hR, ← propext hA]

theorem work {σ : Type} {x : EStateM Fault σ α} {f : α → EStateM Fault σ β} {s : σ}
    (hx : Settled (Work.answer (x s)) R A)
    (hf : ∀ a t, x s = .ok a t → Settled (Work.answer (f a t)) S B) :
    Settled (Work.answer ((x >>= f) s)) (R ∧ S) (A ∧ B) where
  met := by
    intro b hb
    obtain ⟨_, hb⟩ := Work.answer_eq_ok.mp hb
    obtain ⟨a, t, ha, hb⟩ := Work.bind_eq_ok.mp hb
    obtain ⟨hR, hA⟩ := hx.met a (Work.answer_eq_ok.mpr ⟨t, ha⟩)
    obtain ⟨hS, hB⟩ := (hf a t ha).met b (Work.answer_eq_ok.mpr ⟨_, hb⟩)
    exact ⟨⟨hR, hS⟩, hA, hB⟩
  blamed := by
    intro fault h
    obtain ⟨_, h⟩ := Work.answer_eq_error.mp h
    rcases Work.bind_eq_error.mp h with h | ⟨a, t, ha, h⟩
    · have hblamed := hx.blamed fault (Work.answer_eq_error.mpr ⟨_, h⟩)
      exact hblamed.imp (And.imp_right fun hR hall => hR hall.1)
        (And.imp_right fun hA hall => hA hall.1)
    · have hblamed := (hf a t ha).blamed fault (Work.answer_eq_error.mpr ⟨_, h⟩)
      exact hblamed.imp (And.imp_right fun hS hall => hS hall.2)
        (And.imp_right fun hB hall => hB hall.2)

theorem after {x : Except Fault α} {f : α → Except Fault β} (hx : Settled x True True)
    (hf : ∀ a, x = .ok a → Settled (f a) R A) : Settled (x >>= f) R A :=
  (hx.bind hf).congr (by simp) (by simp)

theorem before {x : Except Fault α} {f : α → Except Fault β} (hx : Settled x R A)
    (hf : ∀ a, x = .ok a → Settled (f a) True True) : Settled (x >>= f) R A :=
  (hx.bind hf).congr (by simp) (by simp)

end Settled

namespace Core

variable {c : Core}

theorem select_settled (c : Core) (s : Selector) :
    Settled (c.registers.resolve s) (∃ i, c.registers.place? s = some i) True where
  met := fun i hi => ⟨⟨i, Registers.resolve_eq_ok.mp hi⟩, trivial⟩
  blamed := by
    intro fault h
    obtain ⟨hnone, rfl⟩ := Registers.resolve_eq_error.mp h
    refine Or.inl ⟨⟨s, rfl⟩, ?_⟩
    rintro ⟨i, hi⟩
    rw [hnone] at hi
    cases hi

theorem resolve_settled (c : Core) (w : Word) :
    Settled (c.registers.resolve (.index w)) (c.Resolves w) True :=
  c.select_settled (.index w)

theorem readRegister_settled (c : Core) (w : Word) :
    Settled (c.readRegister w) (c.Resolves w) True :=
  (c.resolve_settled w).map c.registers.word

theorem resolveNamed_settled {n : String} (hn : n ∈ c.registers.names) :
    Settled (c.registers.resolve (.name n)) True True :=
  (c.select_settled (.name n)).congr (iff_true_intro (Registers.exists_place_of_mem hn)) Iff.rfl

theorem readNamed_settled {n : String} (hn : n ∈ c.registers.names) :
    Settled (c.readNamed n) True True :=
  (resolveNamed_settled hn).map c.registers.word

theorem addressOf_settled (c : Core) (w : Word) :
    Settled (c.memory.addressOf w) True (c.Valid w) where
  met := fun a ha => ⟨trivial, a, ha⟩
  blamed := by
    intro fault h
    refine Or.inr ⟨⟨_, _, Address.ofWord_error h⟩, ?_⟩
    rintro ⟨a, ha⟩
    rw [ha] at h
    cases h

theorem readMemory_settled (hm : c.memory.WellFormed) (w : Word) :
    Settled (c.readMemory w) True (c.Valid w) := by
  refine (c.addressOf_settled w).before fun a ha => ?_
  show Settled (c.memory.read a) True True
  rw [hm.read_eq_ok (Address.ofWord_lt ha)]
  exact .pure _

theorem readMemory_error (hm : c.memory.WellFormed) {w : Word} {fault : Fault}
    (h : c.readMemory w = .error fault) : fault = .outOfBounds w c.memory.capacity := by
  rcases Check.bind_eq_error.mp h with h | ⟨a, ha, h⟩
  · exact Address.ofWord_error h
  · rw [hm.read_eq_ok (Address.ofWord_lt ha)] at h
    cases h

theorem writeEffect_settled (c : Core) (address w : Word) :
    Settled (c.writeEffect address w) True (c.Valid address) :=
  (c.addressOf_settled address).before fun _ _ => .pure _

theorem value_settled (c : Core) (o : Operand) (w : Word) :
    Settled (o.value c w) (o.argument.isRegister → c.Resolves w) True := by
  cases o with
  | register =>
    exact (c.readRegister_settled w).congr (by simp [Operand.argument, Argument.isRegister]) Iff.rfl
  | constant =>
    exact (Settled.pure w).congr (by simp [Operand.argument, Argument.isRegister]) Iff.rfl

theorem accumulate_settled (h : accumulator ∈ c.registers.names) (w : Word)
    (describe : String → String) : Settled (c.accumulate w describe) True True :=
  (resolveNamed_settled h).before fun _ _ => .pure _

theorem step_settled (c : Core) (w delta : Word) (sign : String) :
    Settled (c.step w delta sign) (c.Resolves w) True :=
  ((c.readRegister_settled w).bind fun _ _ => (c.resolve_settled w).before fun _ _ => .pure _).congr
    and_self_iff and_self_iff

theorem pushEffect_settled (h : stackPointer ∈ c.registers.names) (w : Word) :
    Settled (c.pushEffect w) True (∀ a ∈ c.stackAddresses .push, c.Valid a) := by
  refine (readNamed_settled h).after fun top htop => ?_
  rw [stackAddresses_eq htop]
  exact ((c.writeEffect_settled _ w).before fun _ _ =>
    (resolveNamed_settled h).before fun _ _ => .pure _).congr Iff.rfl (by simp [StackUse.addresses])

theorem popEffect_settled (hm : c.memory.WellFormed) (h : stackPointer ∈ c.registers.names) :
    Settled c.popEffect True (∀ a ∈ c.stackAddresses .pop, c.Valid a) := by
  refine (readNamed_settled h).after fun top htop => ?_
  rw [stackAddresses_eq htop]
  exact ((readMemory_settled hm _).before fun _ _ =>
    (resolveNamed_settled h).before fun _ _ => .pure _).congr Iff.rfl (by simp [StackUse.addresses])

theorem perform_settled {α : Type} {effect : Core → Except Fault (Effect α)} {R A : Prop}
    (h : Settled (effect c) R A) : Settled (Work.answer (perform effect c)) R A := by
  have hmap : Work.answer (perform effect c) = (effect c).map (·.answer) := by
    rw [perform]
    cases effect c <;> rfl
  rw [hmap]
  exact h.map _

theorem returnFromCall_settled (hc : c.WellFormed) (h : stackPointer ∈ c.registers.names) :
    Settled (Work.answer (returnFromCall c)) True (∀ a ∈ c.stackAddresses .popTwice, c.Valid a) := by
  obtain ⟨sp, hsp⟩ := Registers.exists_place_of_mem h
  have htop : c.readNamed stackPointer = .ok (c.registers.word sp) :=
    Registers.read_eq_ok.mpr ⟨sp, hsp, rfl⟩
  let next := (c.registers.word sp).add (Word.ofNat 1)
  refine ((perform_settled (popEffect_settled hc.memory h)).work (S := True)
    (B := c.Valid (c.kind.coerce next)) fun target d hd => ?_).congr (by simp)
    (by simp [stackAddresses_eq htop, StackUse.addresses, next])
  obtain rfl : d = c.store (.register sp next) := by
    obtain ⟨top, sp', ht, -, hsp', rfl⟩ := pop_eq_ok.mp hd
    rw [htop] at ht
    cases ht
    rw [hsp] at hsp'
    cases hsp'
    rfl
  have hnext : (c.store (.register sp next)).readNamed stackPointer = .ok (c.kind.coerce next) :=
    Registers.read_eq_ok.mpr ⟨sp, hsp, c.registers.word_put hc.registers (Registers.place_lt hsp) _⟩
  have hpop : Settled (Work.answer (pop (c.store (.register sp next)))) True
      (c.Valid (c.kind.coerce next)) := by
    let d := c.store (.register sp next)
    refine (perform_settled (popEffect_settled (c := d) hc.memory h)).congr Iff.rfl ?_
    rw [stackAddresses_eq hnext]
    simp only [StackUse.addresses, List.mem_singleton, forall_eq]
    rfl
  refine (hpop.work (S := True) (B := True) fun count e he => ?_).congr (by simp) (by simp)
  have hname : stackPointer ∈ e.registers.names := (names_of_shape (pop_shape he)).symm ▸ h
  exact perform_settled ((readNamed_settled hname).before fun _ _ =>
    (resolveNamed_settled hname).before fun _ _ => .pure _)

end Core

theorem OneOperand.effect_settled {c : Core} (hm : c.memory.WellFormed) (op : OneOperand)
    (hn : ∀ n ∈ (Operation.one op).named, n ∈ c.registers.names) (w : Word) :
    Settled (op.effect w c) (c.RegistersResolve [op.argument] [w])
      (c.AddressesValid [op.argument] (Operation.one op).stackUse [w]) := by
  rw [propext Core.registersResolve_one, propext Core.addressesValid_one]
  cases op with
  | squareRoot o =>
    have hacc := hn accumulator (by simp [Operation.named])
    exact ((c.value_settled o w).before fun _ _ => Core.accumulate_settled hacc _ _).congr Iff.rfl
      (by simp [argument, Operation.stackUse])
  | increment =>
    exact (c.step_settled w _ _).congr (by simp [argument]) (by simp [argument, Operation.stackUse])
  | decrement =>
    exact (c.step_settled w _ _).congr (by simp [argument]) (by simp [argument, Operation.stackUse])
  | complement =>
    have hacc := hn accumulator (by simp [Operation.named])
    exact ((c.readRegister_settled w).before fun _ _ => Core.accumulate_settled hacc _ _).congr
      (by simp [argument]) (by simp [argument, Operation.stackUse])
  | jump condition o =>
    have hcmp := hn compareRegister (by simp [Operation.named])
    exact ((c.value_settled o w).before fun _ _ =>
      (Core.readNamed_settled hcmp).before fun _ _ => .pure _).congr Iff.rfl
      (by simp [argument, Operation.stackUse])
  | push o =>
    have hsp := hn Core.stackPointer (by simp [Operation.named])
    exact ((c.value_settled o w).bind fun _ _ =>
      (Core.pushEffect_settled hsp _).before fun _ _ => .pure _).congr
      (by simp [argument]) (by simp [argument, Operation.stackUse])
  | pop =>
    have hsp := hn Core.stackPointer (by simp [Operation.named])
    exact ((c.resolve_settled w).bind fun _ _ =>
      (Core.popEffect_settled hm hsp).before fun _ _ => .pure _).congr
      (by simp [argument]) (by simp [argument, Operation.stackUse])
  | call o =>
    have hsp := hn Core.stackPointer (by simp [Operation.named])
    exact ((c.value_settled o w).bind fun _ _ =>
      (Core.pushEffect_settled hsp _).before fun _ _ => .pure _).congr
      (by simp [argument]) (by simp [argument, Operation.stackUse])

theorem TwoOperand.effect_settled {c : Core} (hm : c.memory.WellFormed) (op : TwoOperand)
    (hn : ∀ n ∈ (Operation.two op).named, n ∈ c.registers.names) (v w : Word) :
    Settled (op.effect v w c) (c.RegistersResolve [op.arguments.1, op.arguments.2] [v, w])
      (c.AddressesValid [op.arguments.1, op.arguments.2] .untouched [v, w]) := by
  rw [propext Core.registersResolve_two, propext Core.addressesValid_two]
  cases op with
  | move =>
    exact ((c.readRegister_settled w).bind fun _ _ =>
      (c.resolve_settled v).before fun _ _ => .pure _).congr
      (by simp [arguments, and_comm]) (by simp [arguments])
  | storeThrough =>
    refine ((c.readRegister_settled v).bind (S := c.Resolves w)
      (B := ∀ u, c.operandAddress? .registerPointer v = some u → c.Valid u)
      fun a ha => ?_).congr (by simp [arguments]) (by simp [arguments])
    rw [Core.operandAddress_registerPointer ha]
    exact ((c.readRegister_settled w).bind fun _ _ =>
      (c.writeEffect_settled a _).before fun _ _ => .pure _).congr (by simp) (by simp)
  | loadThrough =>
    refine ((c.readRegister_settled w).bind (S := c.Resolves v)
      (B := ∀ u, c.operandAddress? .registerPointer w = some u → c.Valid u)
      fun a ha => ?_).congr (by simp [arguments, and_comm]) (by simp [arguments])
    rw [Core.operandAddress_registerPointer ha]
    exact ((Core.readMemory_settled hm a).bind fun _ _ =>
      (c.resolve_settled v).before fun _ _ => .pure _).congr (by simp) (by simp)
  | moveConstant =>
    exact ((c.resolve_settled v).before fun _ _ => .pure _).congr
      (by simp [arguments]) (by simp [arguments])
  | load =>
    exact ((Core.readMemory_settled hm w).bind fun _ _ =>
      (c.resolve_settled v).before fun _ _ => .pure _).congr
      (by simp [arguments]) (by simp [arguments])
  | copyIn =>
    exact ((Core.readMemory_settled hm w).bind fun _ _ =>
      (c.resolve_settled v).before fun _ _ => .pure _).congr
      (by simp [arguments]) (by simp [arguments])
  | copyOut =>
    exact ((c.readRegister_settled w).bind fun _ _ =>
      (c.writeEffect_settled v _).before fun _ _ => .pure _).congr
      (by simp [arguments]) (by simp [arguments])
  | arithmetic op o =>
    have hacc := hn accumulator (by simp [Operation.named])
    exact ((c.readRegister_settled v).bind fun _ _ =>
      (c.value_settled o w).before fun _ _ => Core.accumulate_settled hacc _ _).congr
      (by simp [arguments]) (by simp [arguments])
  | bitwise op o =>
    have hacc := hn accumulator (by simp [Operation.named])
    exact ((c.readRegister_settled v).bind fun _ _ =>
      (c.value_settled o w).before fun _ _ => Core.accumulate_settled hacc _ _).congr
      (by simp [arguments]) (by simp [arguments])
  | compare o =>
    have hcmp := hn compareRegister (by simp [Operation.named])
    exact ((c.readRegister_settled v).bind fun _ _ => (c.value_settled o w).before fun _ _ =>
      (Core.resolveNamed_settled hcmp).before fun _ _ => .pure _).congr
      (by simp [arguments]) (by simp [arguments])

theorem Operation.body_settled {c : Core} (hc : c.WellFormed) (op : Operation)
    (hn : ∀ n ∈ op.named, n ∈ c.registers.names) {ws : List Word}
    (hl : ws.length = op.arguments.length) :
    Settled (Work.answer (op.body ws c)) (c.RegistersResolve op.arguments ws)
      (c.AddressesValid op.arguments op.stackUse ws) := by
  cases op with
  | idle =>
    exact (Settled.pure "").congr (by simp [Core.RegistersResolve, arguments])
      (by simp [Core.AddressesValid, arguments, stackUse])
  | stop remark =>
    exact (Settled.pure "").congr (by simp [Core.RegistersResolve, arguments])
      (by simp [Core.AddressesValid, arguments, stackUse])
  | ret =>
    obtain rfl : ws = [] := List.eq_nil_of_length_eq_zero hl
    exact (Core.returnFromCall_settled hc (hn _ (by simp [named]))).congr
      (by simp [Core.RegistersResolve, arguments])
      (by simp [Core.AddressesValid, arguments, stackUse])
  | one op =>
    obtain ⟨w, rfl⟩ := List.length_eq_one_iff.mp hl
    exact Core.perform_settled (op.effect_settled hc.memory hn w)
  | two op =>
    obtain ⟨v, w, rfl⟩ : ∃ v w, ws = [v, w] := ⟨_, _, List.eq_getElem_of_length_eq_two ws hl⟩
    exact Core.perform_settled (op.effect_settled hc.memory hn v w)

end WordMachine
