import WordMachine.Host
import WordMachine.Proofs.Leads

/-!
# Reachable processors

A cycle of a built-in model changes the core by writes only, and the other calls of a host keep the
names, the kinds and the sizes as well. So whatever is set up with a processor is there after every
session: a well-formed core of one kind, with the registers that the model requires.
-/

set_option autoImplicit false

namespace WordMachine

namespace Core

variable {α β : Type}

def Stores (action : Action α) : Prop := ∀ c, ∃ ws, Work.final (action c) = c.storeAll ws

theorem chains_storeAll : Chains fun c d => ∃ ws, d = c.storeAll ws where
  refl := fun _ => ⟨[], rfl⟩
  trans := by
    rintro c _ _ ⟨ws, rfl⟩ ⟨vs, rfl⟩
    exact ⟨ws ++ vs, (c.storeAll_append ws vs).symm⟩

theorem Stores.perform (effect : Core → Except Fault (Effect α)) : Stores (perform effect) :=
  Leads.perform chains_storeAll fun _ e _ => ⟨e.writes, rfl⟩

theorem fetch_stores : Stores fetch := .perform _

theorem returnFromCall_stores : Stores returnFromCall :=
  Leads.bind chains_storeAll (Stores.perform _) fun _ =>
    Leads.bind chains_storeAll (Stores.perform _) fun _ => Stores.perform _

variable {c d : Core}

theorem writeRegister_eq_ok {s : Selector} {w v : Word} :
    writeRegister s w c = .ok v d ↔
      ∃ i, c.registers.place? s = some i ∧ d = c.store (.register i w) ∧ v = d.registers.word i := by
  simp only [writeRegister, onRegisters, Registers.write, Registers.resolve]
  cases c.registers.place? s with
  | none => simp [Except.map]
  | some i =>
    simp only [Except.map, Option.some.injEq, exists_eq_left']
    constructor
    · intro h
      cases h
      exact ⟨rfl, rfl⟩
    · rintro ⟨rfl, rfl⟩
      rfl

theorem writeRegister_eq_error {s : Selector} {w : Word} {fault : Fault} :
    writeRegister s w c = .error fault d ↔
      c.registers.place? s = none ∧ fault = .invalidRegister s ∧ d = c := by
  simp only [writeRegister, onRegisters, Registers.write, Registers.resolve]
  cases c.registers.place? s <;> simp [Except.map, eq_comm]

theorem onRegisters_related {R : Core → Core → Prop} {f : Registers → Except Fault (Update Registers α)}
    (hsame : R c c)
    (h : ∀ u, f c.registers = .ok u → R c ⟨u.store, c.memory, c.log ++ u.events⟩) :
    R c (Work.final (onRegisters f c)) := by
  rw [onRegisters]
  cases hf : f c.registers with
  | ok u => exact h u hf
  | error fault => exact hsame

theorem onMemory_related {R : Core → Core → Prop} {f : Memory → Except Fault (Update Memory α)}
    (hsame : R c c) (h : ∀ u, f c.memory = .ok u → R c ⟨c.registers, u.store, c.log ++ u.events⟩) :
    R c (Work.final (onMemory f c)) := by
  rw [onMemory]
  cases hf : f c.memory with
  | ok u => exact h u hf
  | error fault => exact hsame

theorem onRegisters_shape {f : Registers → Except Fault (Update Registers α)}
    (h : ∀ u, f c.registers = .ok u → u.store.shape = c.registers.shape) :
    (Work.final (onRegisters f c)).shape = c.shape :=
  onRegisters_related (R := fun c d => d.shape = c.shape) rfl fun u hu =>
    congrArg (·, c.memory.shape) (h u hu)

theorem onMemory_shape {f : Memory → Except Fault (Update Memory α)}
    (h : ∀ u, f c.memory = .ok u → u.store.shape = c.memory.shape) :
    (Work.final (onMemory f c)).shape = c.shape :=
  onMemory_related (R := fun c d => d.shape = c.shape) rfl fun u hu =>
    congrArg (c.registers.shape, ·) (h u hu)

end Core

theorem Variant.initialise_leads {R : Core → Core → Prop} (hR : Core.Chains R)
    (hwrite : ∀ c s i w, c.registers.place? s = some i → R c (c.store (.register i w)))
    (model : Model) : Core.Leads R (ofModel model).initialise := by
  cases model with
  | base => exact .pure hR ()
  | extended =>
    intro c
    show R c (Work.final (emptyStack c))
    rw [emptyStack]
    cases h : Core.writeRegister (.name Core.stackPointer) (Word.ofNat c.memory.capacity) c with
    | ok v d =>
      obtain ⟨i, hi, rfl, -⟩ := Core.writeRegister_eq_ok.mp h
      exact hwrite c _ i _ hi
    | error fault d =>
      obtain ⟨-, -, rfl⟩ := Core.writeRegister_eq_error.mp h
      exact hR.refl d

theorem Variant.initialise_stores (model : Model) : Core.Stores (ofModel model).initialise :=
  initialise_leads Core.chains_storeAll (fun _ _ i w _ => ⟨[.register i w], rfl⟩) model

theorem Variant.mem_registerNames {v : Variant} {n : String} (h : n ∈ v.requiredRegisters)
    (asked : Option (List String)) : n ∈ v.registerNames asked :=
  (mem_foldl_withName _ _).mpr (Or.inr h)

theorem Operation.body_stores (op : Operation) (ws : List Word) : Core.Stores (op.body ws) := by
  unfold Operation.body
  split
  · exact Core.returnFromCall_stores
  · exact .perform _
  · exact .perform _
  · exact Core.Leads.pure Core.chains_storeAll ""

namespace Processor

variable {model : Model} {p q : Processor}

theorem cycle_stores (hp : p.variant = Variant.ofModel model) :
    p.cycle.2.variant = p.variant ∧ ∃ ws, p.cycle.2.core = p.core.storeAll ws :=
  ⟨p.cycle_variant, cycle_leads Core.chains_storeAll Core.fetch_stores Operation.body_stores hp⟩

theorem run_stores (hp : p.variant = Variant.ofModel model) (cycles : Nat) (last : Record)
    (trace : Array TraceEvent) (limit : Nat) :
    (p.runFrom cycles last trace limit).after.variant = p.variant ∧
      ∃ ws, (p.runFrom cycles last trace limit).after.core = p.core.storeAll ws :=
  ⟨runFrom_variant cycles last trace limit,
    runFrom_leads Core.chains_storeAll Core.fetch_stores Operation.body_stores hp cycles last trace
      limit⟩

end Processor

theorem RegisterCall.apply_shape {r : Registers} {call : RegisterCall} {u : Update Registers Answer}
    (h : call.apply r = .ok u) : u.store.shape = r.shape := by
  cases call with
  | write s w =>
    obtain ⟨v, hv, rfl⟩ := Check.map_eq_ok.mp h
    obtain ⟨i, -, rfl⟩ := Check.map_eq_ok.mp hv
    exact r.shape_put i w
  | setIp w =>
    cases h
    exact r.shape_put r.ipIndex w
  | clear =>
    cases h
    exact r.shape_clear
  | observe tag =>
    cases h
    rfl

theorem MemoryCall.apply_shape {m : Memory} {call : MemoryCall} {u : Update Memory Answer}
    (h : call.apply m = .ok u) : u.store.shape = m.shape := by
  cases call with
  | write a w =>
    obtain ⟨v, hv, rfl⟩ := Check.map_eq_ok.mp h
    obtain ⟨b, -, rfl⟩ := Check.map_eq_ok.mp hv
    exact m.shape_put b w
  | writeRaw a bytes =>
    obtain ⟨v, hv, rfl⟩ := Check.map_eq_ok.mp h
    exact Memory.writeRaw_shape hv
  | load start bytes =>
    obtain ⟨v, hv, rfl⟩ := Check.map_eq_ok.mp h
    exact Memory.load_shape hv
  | loadWords start ws =>
    obtain ⟨v, hv, rfl⟩ := Check.map_eq_ok.mp h
    exact Memory.load_shape hv
  | fill start stop w =>
    obtain ⟨v, hv, rfl⟩ := Check.map_eq_ok.mp h
    exact Memory.fill_shape hv
  | clear =>
    cases h
    exact congrArg (Memory.Shape.mk m.capacity m.kind) m.bank.size_clear
  | observe tag =>
    cases h
    rfl

namespace Processor

variable {model : Model} {p q : Processor}

/-- What is set up with a processor of a model and never given up. -/
structure Sound (model : Model) (p : Processor) : Prop where
  variant : p.variant = Variant.ofModel model
  core : p.core.WellFormed
  kinds : p.core.memory.kind = p.core.kind
  required : ∀ n ∈ (Variant.ofModel model).requiredRegisters, n ∈ p.core.registers.names

theorem Sound.of_shape (hp : p.Sound model) (hv : q.variant = p.variant)
    (hs : q.core.shape = p.core.shape) : q.Sound model where
  variant := hv.trans hp.variant
  core := hp.core.of_shape hs
  kinds := by
    have hm : q.core.memory.kind = p.core.memory.kind := congrArg (·.2.kind) hs
    rw [hm, hp.kinds]
    exact (Core.kind_of_shape hs).symm
  required := Core.names_of_shape hs ▸ hp.required

theorem onCore_snd {α : Type} (p : Processor) (action : Action α) :
    (p.onCore action).2 = { p with core := Work.final (action p.core) } := by
  rw [onCore]
  cases action p.core <;> rfl

theorem initialise_snd (p : Processor) :
    p.initialise.2 = { p with core := Work.final (p.variant.initialise p.core) } := by
  rw [initialise]
  cases p.variant.initialise p.core <;> rfl

theorem initialise_shape (hp : p.variant = Variant.ofModel model) :
    p.initialise.2.variant = p.variant ∧ p.initialise.2.core.shape = p.core.shape := by
  obtain ⟨ws, hws⟩ := Variant.initialise_stores model p.core
  rw [initialise_snd, hp, hws]
  exact ⟨rfl, p.core.storeAll_shape ws⟩

def cleared (p : Processor) : Processor :=
  { p with core := { p.core with registers := p.core.registers.clear }, state := .ready }

theorem cleared_shape (p : Processor) : p.cleared.core.shape = p.core.shape :=
  congrArg (·, p.core.memory.shape) p.core.registers.shape_clear

theorem reset_shape (hp : p.variant = Variant.ofModel model) :
    p.reset.2.variant = p.variant ∧ p.reset.2.core.shape = p.core.shape := by
  obtain ⟨hv, hs⟩ := initialise_shape (p := p.cleared) hp
  exact ⟨hv, hs.trans p.cleared_shape⟩

theorem serve_shape (hp : p.variant = Variant.ofModel model) (call : HostCall) :
    (p.serve call).2.variant = p.variant ∧ (p.serve call).2.core.shape = p.core.shape := by
  cases call with
  | cycle =>
    obtain ⟨hv, ws, hws⟩ := cycle_stores hp
    exact ⟨hv, (congrArg Core.shape hws).trans (p.core.storeAll_shape ws)⟩
  | run limit =>
    obtain ⟨hv, ws, hws⟩ := run_stores hp 0 Record.fresh #[] limit
    exact ⟨hv, (congrArg Core.shape hws).trans (p.core.storeAll_shape ws)⟩
  | fetch =>
    obtain ⟨ws, hws⟩ := Core.fetch_stores p.core
    show (p.onCore Core.fetch).2.variant = _ ∧ (p.onCore Core.fetch).2.core.shape = _
    rw [onCore_snd, hws]
    exact ⟨rfl, p.core.storeAll_shape ws⟩
  | reset => exact reset_shape hp
  | configure switches => exact ⟨rfl, rfl⟩
  | registers call =>
    show (p.onCore _).2.variant = _ ∧ (p.onCore _).2.core.shape = _
    rw [onCore_snd]
    exact ⟨rfl, Core.onRegisters_shape fun _ h => RegisterCall.apply_shape h⟩
  | memory call =>
    show (p.onCore _).2.variant = _ ∧ (p.onCore _).2.core.shape = _
    rw [onCore_snd]
    exact ⟨rfl, Core.onMemory_shape fun _ h => MemoryCall.apply_shape h⟩

theorem after_shape (hp : p.variant = Variant.ofModel model) (calls : List HostCall) :
    (p.after calls).core.shape = p.core.shape := by
  induction calls generalizing p with
  | nil => rfl
  | cons call calls ih =>
    obtain ⟨hv, hs⟩ := serve_shape hp call
    exact (ih (hv.trans hp)).trans hs

theorem serve_sound (hp : p.Sound model) (call : HostCall) : (p.serve call).2.Sound model :=
  hp.of_shape (serve_shape hp.variant call).1 (serve_shape hp.variant call).2

theorem after_sound (hp : p.Sound model) (calls : List HostCall) : (p.after calls).Sound model := by
  induction calls generalizing p with
  | nil => exact hp
  | cons call calls ih => exact ih (serve_sound hp call)

theorem cycle_shape (hp : p.Sound model) : p.cycle.2.core.shape = p.core.shape :=
  (serve_shape hp.variant .cycle).2

theorem cycle_sound (hp : p.Sound model) : p.cycle.2.Sound model := serve_sound hp .cycle

theorem cycle_kind (hp : p.Sound model) : p.cycle.2.core.kind = p.core.kind :=
  Core.kind_of_shape (cycle_shape hp)

theorem cycle_ipIndex (hp : p.Sound model) :
    p.cycle.2.core.registers.ipIndex = p.core.registers.ipIndex :=
  Core.ipIndex_of_shape (cycle_shape hp)

def blank (variant : Variant) (kind : Kind) (registers : Registers) (words : Nat) : Processor :=
  ⟨variant, ⟨registers, Memory.create kind words, #[]⟩, {}, .ready⟩

theorem create_ok {variant : Variant} {configuration : Configuration}
    (h : create variant configuration = .ok p) :
    let kind := configuration.kind.getD variant.defaultKind
    configuration.memoryWords ≠ 0 ∧ ∃ registers,
      Registers.create kind (variant.registerNames configuration.registers) = .ok registers ∧
      initialise (blank variant kind registers configuration.memoryWords) = (.ok (), p) := by
  simp only [create] at h
  split at h
  · cases h
  · rename_i hwords
    obtain ⟨registers, hregisters, h⟩ := Check.bind_eq_ok.mp h
    refine ⟨hwords, registers, hregisters, ?_⟩
    split at h
    · rename_i q hq
      cases h
      exact hq
    · cases h

theorem blank_sound {configuration : Configuration} {registers : Registers}
    (h : Registers.create (configuration.kind.getD (Variant.ofModel model).defaultKind)
      ((Variant.ofModel model).registerNames configuration.registers) = .ok registers) :
    (blank (.ofModel model) (configuration.kind.getD (Variant.ofModel model).defaultKind)
      registers configuration.memoryWords).Sound model := by
  obtain ⟨hnames, hkind⟩ := Registers.create_names h
  refine ⟨rfl, ⟨Registers.create_wellFormed h, Memory.create_wellFormed _ _⟩, hkind.symm, ?_⟩
  intro n hn
  show n ∈ registers.names
  rw [hnames]
  exact Variant.mem_registerNames hn _

theorem create_sound {configuration : Configuration}
    (h : create (.ofModel model) configuration = .ok p) : p.Sound model := by
  obtain ⟨-, registers, hregisters, hinitialise⟩ := create_ok h
  have hblank := blank_sound hregisters
  obtain ⟨hv, hs⟩ := initialise_shape hblank.variant
  rw [hinitialise] at hv hs
  exact hblank.of_shape hv hs

theorem Reachable.sound (hp : p.Reachable model) : p.Sound model := by
  obtain ⟨configuration, new, calls, hnew, rfl⟩ := hp
  exact after_sound (create_sound hnew) calls

end Processor

end WordMachine
