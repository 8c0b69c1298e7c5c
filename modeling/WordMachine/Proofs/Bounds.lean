import WordMachine.Proofs.Address
import WordMachine.Proofs.Footprint

/-!
# Writes stay within the machine

Whatever a machine writes in a cycle, a run or a fetch goes to a register that it has or to an
address below its capacity, also when it fails halfway.
-/

set_option autoImplicit false

namespace WordMachine

def Write.LiesIn (c : Core) : Write → Prop
  | .register i _ => i < c.registers.size
  | .memory a _ => a < c.memory.capacity

namespace Core

variable {c d : Core}

theorem liesIn_of_shape (h : d.shape = c.shape) {w : Write} (hw : w.LiesIn d) : w.LiesIn c := by
  cases w with
  | register i v => exact Nat.lt_of_lt_of_eq hw (size_of_shape h)
  | memory a v => exact Nat.lt_of_lt_of_eq hw (capacity_of_shape h)

/-- Writes to what is there take one core to the other. -/
def WritesTo (c d : Core) : Prop :=
  c.registers.WellFormed → ∃ ws, (∀ w ∈ ws, Write.LiesIn c w) ∧ d = c.storeAll ws

theorem chains_writesTo : Chains WritesTo where
  refl := fun _ _ => ⟨[], by simp, rfl⟩
  trans := by
    intro c d e hcd hde hc
    obtain ⟨ws, hws, rfl⟩ := hcd hc
    have hs := c.storeAll_shape ws
    obtain ⟨vs, hvs, rfl⟩ := hde (registers_of_shape hs hc)
    refine ⟨ws ++ vs, fun w hw => ?_, (c.storeAll_append ws vs).symm⟩
    rcases List.mem_append.mp hw with hw | hw
    · exact hws w hw
    · exact liesIn_of_shape hs (hvs w hw)

theorem leads_writesTo {α : Type} {effect : Core → Except Fault (Effect α)}
    (h : ∀ c e, c.registers.WellFormed → effect c = .ok e → ∀ w ∈ e.writes, w.LiesIn c) :
    Leads WritesTo (perform effect) :=
  .perform chains_writesTo fun c e he hc => ⟨e.writes, h c e hc he, rfl⟩

theorem fetch_writesTo : Leads WritesTo fetch := by
  apply leads_writesTo
  intro c e hc h
  obtain ⟨w, -, h⟩ := Check.bind_eq_ok.mp h
  cases h
  simp [Write.LiesIn, hc.ipIndex_lt]

theorem target_lt {ws : List Word} {t : Target} {i : Nat} (h : c.target? ws t = some i) :
    i < c.registers.size := by
  cases t with
  | first =>
    obtain ⟨w, -, hw⟩ := Option.bind_eq_some_iff.mp h
    exact Registers.place_lt hw
  | named n =>
    have hn : c.registers.place? (.name n) = some i := h
    exact Registers.place_lt hn

theorem writeEffect_address {address w v : Word} {a : Nat} {e : Effect Unit}
    (h : c.writeEffect address w = .ok e) (ha : .memory a v ∈ e.writes) : a < c.memory.capacity := by
  obtain ⟨place, hplace, rfl⟩ := writeEffect_eq_ok.mp h
  obtain ⟨rfl, -⟩ : a = place ∧ v = w := by simpa using ha
  exact Address.ofWord_lt hplace

theorem pushEffect_address {w v : Word} {a : Nat} {e : Effect Word} (h : c.pushEffect w = .ok e)
    (ha : .memory a v ∈ e.writes) : a < c.memory.capacity := by
  obtain ⟨top, -, h⟩ := Check.bind_eq_ok.mp h
  obtain ⟨stored, hstored, h⟩ := Check.bind_eq_ok.mp h
  obtain ⟨sp, -, h⟩ := Check.bind_eq_ok.mp h
  cases h
  exact writeEffect_address hstored (by simpa using ha)

end Core

theorem OneOperand.effect_address {c : Core} {op : OneOperand} {w v : Word} {a : Nat}
    {e : Effect String} (h : op.effect w c = .ok e) (ha : .memory a v ∈ e.writes) :
    a < c.memory.capacity := by
  obtain ⟨slot, hslot, -⟩ := OneOperand.effect_admitted h _ ha
  cases op with
  | push o =>
    obtain ⟨value, -, h⟩ := Check.bind_eq_ok.mp h
    obtain ⟨pushed, hpushed, h⟩ := Check.bind_eq_ok.mp h
    cases h
    exact Core.pushEffect_address hpushed ha
  | call o =>
    obtain ⟨target, -, h⟩ := Check.bind_eq_ok.mp h
    obtain ⟨pushed, hpushed, h⟩ := Check.bind_eq_ok.mp h
    cases h
    have ha : .memory a v ∈ pushed.writes := by simpa using ha
    exact Core.pushEffect_address hpushed ha
  | squareRoot o | increment | decrement | complement | jump condition o | pop => cases hslot

theorem TwoOperand.effect_address {c : Core} {op : TwoOperand} {first second v : Word} {a : Nat}
    {e : Effect String} (h : op.effect first second c = .ok e) (ha : .memory a v ∈ e.writes) :
    a < c.memory.capacity := by
  obtain ⟨slot, hslot, -⟩ := TwoOperand.effect_admitted h _ ha
  cases op with
  | storeThrough =>
    obtain ⟨address, -, h⟩ := Check.bind_eq_ok.mp h
    obtain ⟨value, -, h⟩ := Check.bind_eq_ok.mp h
    obtain ⟨stored, hstored, h⟩ := Check.bind_eq_ok.mp h
    cases h
    exact Core.writeEffect_address hstored ha
  | copyOut =>
    obtain ⟨value, -, h⟩ := Check.bind_eq_ok.mp h
    obtain ⟨stored, hstored, h⟩ := Check.bind_eq_ok.mp h
    cases h
    exact Core.writeEffect_address hstored ha
  | move | loadThrough | moveConstant | load | copyIn | arithmetic op o | bitwise op o
  | compare o => cases hslot

theorem Footprint.Admits.register_lt {f : Footprint} {ws : List Word} {c : Core} {i : Nat} {v : Word}
    (hc : c.registers.WellFormed) (h : f.Admits ws c (.register i v)) : i < c.registers.size := by
  rcases h with ⟨t, -, ht⟩ | ⟨rfl, -⟩
  · exact Core.target_lt ht
  · exact hc.ipIndex_lt

namespace Core

theorem pop_writesTo : Leads WritesTo pop := by
  apply leads_writesTo
  intro c e hc h
  obtain ⟨sp, v, hsp, hwrites⟩ := popEffect_eq_ok h
  simp [hwrites, Write.LiesIn, Registers.place_lt hsp]

theorem returnFromCall_writesTo : Leads WritesTo returnFromCall := by
  refine .bind chains_writesTo pop_writesTo fun target => ?_
  refine .bind chains_writesTo pop_writesTo fun count => ?_
  apply leads_writesTo
  intro c e hc h
  obtain ⟨top, -, h⟩ := Check.bind_eq_ok.mp h
  obtain ⟨sp, hsp, h⟩ := Check.bind_eq_ok.mp h
  cases h
  simp [Write.LiesIn, Registers.place_lt (Registers.resolve_eq_ok.mp hsp), hc.ipIndex_lt]

end Core

theorem Operation.body_writesTo (op : Operation) (ws : List Word) :
    Core.Leads Core.WritesTo (op.body ws) := by
  unfold body
  split
  · exact Core.returnFromCall_writesTo
  · apply Core.leads_writesTo
    intro c e hc h w hw
    cases w with
    | register i v => exact (OneOperand.effect_admitted h _ hw).register_lt hc
    | memory a v => exact OneOperand.effect_address h hw
  · apply Core.leads_writesTo
    intro c e hc h w hw
    cases w with
    | register i v => exact (TwoOperand.effect_admitted h _ hw).register_lt hc
    | memory a v => exact TwoOperand.effect_address h hw
  · exact .pure Core.chains_writesTo ""

theorem Variant.initialise_writesTo (model : Model) :
    Core.Leads Core.WritesTo (ofModel model).initialise :=
  initialise_leads Core.chains_writesTo
    (fun _ _ i w hi _ => ⟨[.register i w], by simp [Write.LiesIn, Registers.place_lt hi], rfl⟩) model

namespace Processor

variable {model : Model} {p : Processor}

theorem cycle_writesTo (hp : p.variant = Variant.ofModel model) : p.core.WritesTo p.cycle.2.core :=
  cycle_leads Core.chains_writesTo Core.fetch_writesTo Operation.body_writesTo hp

theorem run_writesTo (hp : p.variant = Variant.ofModel model) (limit : Nat) :
    p.core.WritesTo (p.run limit).after.core :=
  runFrom_leads Core.chains_writesTo Core.fetch_writesTo Operation.body_writesTo hp 0 Record.fresh
    #[] limit

end Processor

section

variable {R : Core → Core → Prop} (hR : Core.Chains R)
include hR

section

variable (hstore : ∀ (c : Core) (w : Write), w.LiesIn c → R c (c.store w))
include hstore

theorem Core.WritesTo.related {c d : Core} (hc : c.registers.WellFormed) (h : c.WritesTo d) :
    R c d := by
  obtain ⟨ws, hws, rfl⟩ := h hc
  clear h hc
  induction ws generalizing c with
  | nil => exact hR.refl c
  | cons w ws ih =>
    have hshape : c.shape = (c.store w).shape := (c.store_shape w).symm
    have hrest : ∀ v ∈ ws, v.LiesIn (c.store w) := fun v hv =>
      liesIn_of_shape hshape (hws v (List.mem_cons_of_mem w hv))
    exact hR.trans (hstore c w (hws w List.mem_cons_self)) (ih hrest)

theorem Processor.serve_related {model : Model} {p : Processor}
    (hp : p.variant = Variant.ofModel model) (hc : p.core.registers.WellFormed) (call : HostCall)
    (hreset : call = .reset → R p.core p.cleared.core)
    (hregisters : ∀ own, call = .registers own →
      R p.core (Work.final (Core.onRegisters own.apply p.core)))
    (hmemory : ∀ own, call = .memory own →
      R p.core (Work.final (Core.onMemory own.apply p.core))) :
    R p.core (p.serve call).2.core := by
  cases call with
  | cycle => exact (cycle_writesTo hp).related hR hstore hc
  | run limit => exact (run_writesTo hp limit).related hR hstore hc
  | fetch =>
    show R p.core (p.onCore Core.fetch).2.core
    rw [onCore_snd]
    exact (Core.fetch_writesTo p.core).related hR hstore hc
  | reset =>
    have hcleared := Core.registers_of_shape p.cleared_shape hc
    have hinitialise := Variant.initialise_writesTo model p.cleared.core
    rw [← hp] at hinitialise
    show R p.core (initialise p.cleared).2.core
    rw [initialise_snd]
    exact hR.trans (hreset rfl) (hinitialise.related hR hstore hcleared)
  | configure switches => exact hR.refl p.core
  | registers own =>
    show R p.core (p.onCore _).2.core
    rw [onCore_snd]
    exact hregisters own rfl
  | memory own =>
    show R p.core (p.onCore _).2.core
    rw [onCore_snd]
    exact hmemory own rfl

end

theorem Processor.after_related {model : Model} {p : Processor} {Allowed : HostCall → Prop}
    (hserve : ∀ (p : Processor) (call : HostCall), p.variant = Variant.ofModel model →
      p.core.WellFormed → Allowed call → R p.core (p.serve call).2.core)
    (hp : p.variant = Variant.ofModel model) (hc : p.core.WellFormed) (calls : List HostCall)
    (hcalls : ∀ call ∈ calls, Allowed call) : R p.core (p.after calls).core := by
  induction calls generalizing p with
  | nil => exact hR.refl p.core
  | cons call calls ih =>
    obtain ⟨hv, hs⟩ := serve_shape hp call
    have hfirst := hserve p call hp hc (hcalls call List.mem_cons_self)
    have hrest := ih (hv.trans hp) (hc.of_shape hs) fun other h =>
      hcalls other (List.mem_cons_of_mem call h)
    exact hR.trans hfirst hrest

end

end WordMachine
