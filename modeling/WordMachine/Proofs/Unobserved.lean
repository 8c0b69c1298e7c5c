import WordMachine.Proofs.Reachable

/-!
# Observers do not influence execution

Observers and the log are written and never read. A processor without them does the same cycles,
answers every call the same, and is left the same but for them.
-/

set_option autoImplicit false

namespace WordMachine

namespace Work

variable {σ α β : Type}

def mapState (f : σ → σ) : EStateM.Result Fault σ α → EStateM.Result Fault σ α
  | .ok a s => .ok a (f s)
  | .error fault s => .error fault (f s)

/-- It makes no difference whether the state is changed before the work or after it. -/
def Commutes (f : σ → σ) (work : EStateM Fault σ α) : Prop := ∀ s, work (f s) = mapState f (work s)

theorem Commutes.pure (f : σ → σ) (a : α) : Commutes f (pure a : EStateM Fault σ α) := fun _ => rfl

theorem Commutes.bind {f : σ → σ} {first : EStateM Fault σ α} {next : α → EStateM Fault σ β}
    (hfirst : Commutes f first) (hnext : ∀ a, Commutes f (next a)) : Commutes f (first >>= next) := by
  intro s
  show EStateM.bind first next (f s) = mapState f (EStateM.bind first next s)
  rw [EStateM.bind, EStateM.bind, hfirst s]
  cases first s with
  | ok a t => exact hnext a t
  | error fault t => rfl

end Work

open Work (Commutes mapState)

def Registers.mute (r : Registers) : Registers := { r with observer := none }

def Memory.mute (m : Memory) : Memory := { m with observer := none }

def Core.mute (c : Core) : Core := ⟨c.registers.mute, c.memory.mute, #[]⟩

def Context.mute (x : Context) : Context := { x with core := x.core.mute }

def Processor.mute (p : Processor) : Processor := { p with core := p.core.mute }

namespace Core

theorem store_mute (c : Core) (w : Write) : c.mute.store w = (c.store w).mute := by
  cases w <;> rfl

theorem storeAll_mute (c : Core) (ws : List Write) : c.mute.storeAll ws = (c.storeAll ws).mute := by
  induction ws generalizing c with
  | nil => rfl
  | cons w ws ih => exact (congrArg (storeAll · ws) (c.store_mute w)).trans (ih (c.store w))

theorem perform_commutes {α : Type} {effect : Core → Except Fault (Effect α)}
    (h : ∀ c, effect c.mute = effect c) : Commutes mute (perform effect) := by
  intro c
  rw [perform, perform, h c]
  cases effect c with
  | ok e => exact congrArg (EStateM.Result.ok e.answer) (c.storeAll_mute e.writes)
  | error fault => rfl

theorem fetch_commutes : Commutes mute fetch := perform_commutes fun _ => rfl

theorem pop_commutes : Commutes mute pop := perform_commutes fun _ => rfl

theorem returnFromCall_commutes : Commutes mute returnFromCall :=
  pop_commutes.bind fun _ => pop_commutes.bind fun _ => perform_commutes fun _ => rfl

theorem writeRegister_commutes (s : Selector) (w : Word) : Commutes mute (writeRegister s w) := by
  intro c
  have hresolve : c.mute.registers.resolve s = c.registers.resolve s := rfl
  simp only [writeRegister, onRegisters, Registers.write, hresolve]
  cases c.registers.resolve s <;> rfl

end Core

theorem OneOperand.effect_mute (op : OneOperand) (w : Word) (c : Core) :
    op.effect w c.mute = op.effect w c := by
  cases op with
  | squareRoot o | jump condition o | push o | call o => cases o <;> rfl
  | increment | decrement | complement | pop => rfl

theorem TwoOperand.effect_mute (op : TwoOperand) (first second : Word) (c : Core) :
    op.effect first second c.mute = op.effect first second c := by
  cases op with
  | arithmetic op o | bitwise op o | compare o => cases o <;> rfl
  | move | storeThrough | loadThrough | moveConstant | load | copyIn | copyOut => rfl

namespace Context

theorem onCore_commutes {α : Type} {action : Action α} (h : Commutes Core.mute action) :
    Commutes mute (onCore action) := by
  intro x
  show onCore action ⟨x.core.mute, x.record⟩ = _
  rw [onCore, onCore, h x.core]
  cases action x.core <;> rfl

theorem comment_commutes (switches : Switches) (text : String) :
    Commutes mute (comment switches text) := by
  intro x
  show EStateM.Result.ok () _ = mapState mute (EStateM.Result.ok () _)
  cases switches.emitCommentary <;> rfl

theorem finish_commutes (set : InstructionSet) (switches : Switches) (opcode : Word)
    (continues : Bool) : Commutes mute (finish set switches opcode continues) := by
  intro x
  rw [finish_eq_ok.mpr ⟨rfl, rfl⟩, finish_eq_ok.mpr ⟨rfl, rfl⟩]
  rfl

theorem run_commutes (switches : Switches) (name : String) (op : Operation) :
    Commutes mute (run switches name op) := by
  have hset (ws : List Word) : Commutes mute (setArguments ws) := fun _ => rfl
  have hdone (text : String) : Commutes mute (comment switches text >>= fun _ => pure true) :=
    (comment_commutes switches text).bind fun _ => .pure mute true
  have hfetch : Commutes mute (onCore Core.fetch) := onCore_commutes Core.fetch_commutes
  cases op with
  | idle => exact (comment_commutes switches _).bind fun _ => .pure mute _
  | stop remark => exact (comment_commutes switches remark).bind fun _ => .pure mute false
  | ret =>
    have hbody := onCore_commutes Core.returnFromCall_commutes
    exact (hset []).bind fun _ => hbody.bind hdone
  | one op =>
    have hbody (w : Word) := onCore_commutes (Core.perform_commutes (op.effect_mute w))
    exact hfetch.bind fun w => (hset [w]).bind fun _ => (hbody w).bind hdone
  | two op =>
    have hbody (v w : Word) := onCore_commutes (Core.perform_commutes (op.effect_mute v w))
    exact hfetch.bind fun v => hfetch.bind fun w => (hset [v, w]).bind fun _ =>
      (hbody v w).bind hdone

theorem execute_commutes (set : InstructionSet) (switches : Switches) (opcode : Word) :
    Commutes mute (execute set switches opcode) := by
  unfold execute
  cases set.lookup? opcode with
  | none => exact fun _ => rfl
  | some row =>
    exact (run_commutes switches row.name row.operation).bind fun continues =>
      finish_commutes set switches opcode continues

end Context

theorem Variant.initialise_commutes (model : Model) :
    Commutes Core.mute (ofModel model).initialise := by
  cases model with
  | base => exact .pure Core.mute ()
  | extended =>
    intro c
    have hwrite := Core.writeRegister_commutes (.name Core.stackPointer)
      (Word.ofNat c.memory.capacity) c
    show emptyStack c.mute = mapState Core.mute (emptyStack c)
    rw [emptyStack, emptyStack, show c.mute.memory.capacity = c.memory.capacity from rfl, hwrite]
    cases Core.writeRegister (.name Core.stackPointer) (Word.ofNat c.memory.capacity) c <;> rfl

namespace Processor

variable {model : Model} {p q : Processor}

theorem cycle_mute (hp : p.variant = Variant.ofModel model) :
    p.mute.cycle = (p.cycle.1, p.cycle.2.mute) := by
  have hfetch := Core.fetch_commutes p.core
  cases hf : Core.fetch p.core with
  | error cause c =>
    rw [hf] at hfetch
    rw [cycle_unfetched hf, cycle_unfetched (p := p.mute) hfetch]
    rfl
  | ok opcode c =>
    rw [hf] at hfetch
    have hexecute := Context.execute_commutes model.instructions p.switches opcode
      ⟨c, p.opened opcode⟩
    rw [← model.execute_ofModel, ← hp] at hexecute
    cases hx : p.variant.execute p.switches opcode ⟨c, p.opened opcode⟩ with
    | error cause x =>
      rw [hx] at hexecute
      rw [cycle_fails hf hx, cycle_fails (p := p.mute) hfetch hexecute]
      rfl
    | ok continues x =>
      rw [hx] at hexecute
      rw [cycle_succeeds hf hx, cycle_succeeds (p := p.mute) hfetch hexecute]
      rfl

theorem runFrom_mute (hp : p.variant = Variant.ofModel model) (cycles : Nat) (last : Record)
    (trace : Array TraceEvent) (limit : Nat) :
    p.mute.runFrom cycles last trace limit =
      { p.runFrom cycles last trace limit with
        after := (p.runFrom cycles last trace limit).after.mute } := by
  induction limit generalizing p cycles last trace with
  | zero => rfl
  | succ limit ih =>
    have hcycle := cycle_mute hp
    have hanswer : p.mute.cycle.1 = p.cycle.1 := by rw [hcycle]
    have hafter : p.mute.cycle.2 = p.cycle.2.mute := by rw [hcycle]
    have hip : p.mute.core.registers.ip = p.core.registers.ip := rfl
    cases h : p.cycle.1.result with
    | error fault =>
      rw [runFrom_fault _ _ _ _ h, runFrom_fault _ _ _ _ (hanswer ▸ h), hanswer, hafter, hip]
    | ok continues =>
      cases continues with
      | false =>
        rw [runFrom_stop _ _ _ _ h, runFrom_stop _ _ _ _ (hanswer ▸ h), hanswer, hafter, hip]
      | true =>
        rw [runFrom_continue _ _ _ _ h, runFrom_continue _ _ _ _ (hanswer ▸ h), hanswer, hafter, hip]
        exact ih (p.cycle_variant.trans hp) _ _ _

theorem onCore_mute {α : Type} {action : Action α} (h : Commutes Core.mute action) :
    p.mute.onCore action = ((p.onCore action).1, (p.onCore action).2.mute) := by
  rw [onCore, onCore, show p.mute.core = p.core.mute from rfl, h p.core]
  cases action p.core <;> rfl

theorem initialise_mute (hp : p.variant = Variant.ofModel model) :
    p.mute.initialise = (p.initialise.1, p.initialise.2.mute) := by
  have hinitialise := Variant.initialise_commutes model p.core
  rw [← hp] at hinitialise
  rw [initialise, initialise, show p.mute.core = p.core.mute from rfl,
    show p.mute.variant = p.variant from rfl, hinitialise]
  cases p.variant.initialise p.core <;> rfl

end Processor

def Update.mute {σ α : Type} (hide : σ → σ) (u : Update σ α) : α × σ := (u.answer, hide u.store)

theorem Update.map_mute {σ α β : Type} {hide : σ → σ} {x y : Except Fault (Update σ α)}
    (h : x.map (Update.mute hide) = y.map (Update.mute hide)) (f : α → β) :
    (x.map (Update.map f)).map (Update.mute hide) = (y.map (Update.map f)).map (Update.mute hide) := by
  have hmap : ∀ z : Except Fault (Update σ α), (z.map (Update.map f)).map (Update.mute hide) =
      (z.map (Update.mute hide)).map fun u => (f u.1, u.2) := by
    intro z
    cases z <;> rfl
  rw [hmap, hmap, h]

theorem Update.mute_cases {σ α : Type} {hide : σ → σ} {x y : Except Fault (Update σ α)}
    (h : x.map (Update.mute hide) = y.map (Update.mute hide)) :
    (∃ fault, x = .error fault ∧ y = .error fault) ∨
      ∃ u v : Update σ α, x = .ok u ∧ y = .ok v ∧ u.answer = v.answer ∧
        hide u.store = hide v.store := by
  cases y with
  | error fault => exact Or.inl ⟨fault, Check.map_eq_error.mp h, rfl⟩
  | ok v =>
    obtain ⟨u, hu, hmute⟩ := Check.map_eq_ok.mp h
    obtain ⟨hanswer, hstore⟩ := Prod.mk.inj hmute
    exact Or.inr ⟨u, v, hu, rfl, hanswer, hstore⟩

theorem RegisterCall.apply_mute (call : RegisterCall) (r : Registers) :
    (call.apply r.mute).map (Update.mute Registers.mute) =
      (call.apply r).map (Update.mute Registers.mute) := by
  cases call with
  | write s w =>
    have hresolve : r.mute.resolve s = r.resolve s := rfl
    simp only [apply, Registers.write, hresolve]
    cases r.resolve s <;> rfl
  | setIp w | clear | observe tag => rfl

theorem Memory.load_mute (m : Memory) (start : Nat) (bytes : List UInt8) :
    (m.mute.load start bytes).map (Update.mute Memory.mute) =
      (m.load start bytes).map (Update.mute Memory.mute) := by
  have hcapacity : m.mute.capacity = m.capacity := rfl
  have hkind : m.mute.kind = m.kind := rfl
  simp only [load, hcapacity, hkind]
  split <;> rfl

theorem Memory.writeRaw_mute (m : Memory) (a : Nat) (bytes : List UInt8) :
    (m.mute.writeRaw a bytes).map (Update.mute Memory.mute) =
      (m.writeRaw a bytes).map (Update.mute Memory.mute) := by
  have hkind : m.mute.kind = m.kind := rfl
  have hcheck : m.mute.check a = m.check a := rfl
  rw [writeRaw, writeRaw, hkind, hcheck]
  split
  · rfl
  · cases m.check a with
    | error fault => rfl
    | ok place =>
      have hread : (m.mute.putBytes place bytes).read place = (m.putBytes place bytes).read place := rfl
      show Except.map _ (Except.bind ((m.mute.putBytes place bytes).read place) _) =
        Except.map _ (Except.bind ((m.putBytes place bytes).read place) _)
      rw [hread]
      cases (m.putBytes place bytes).read place <;> rfl

theorem Memory.fill_mute (m : Memory) (start stop : Nat) (w : Word) :
    (m.mute.fill start stop w).map (Update.mute Memory.mute) =
      (m.fill start stop w).map (Update.mute Memory.mute) := by
  have hcapacity : m.mute.capacity = m.capacity := rfl
  simp only [fill, hcapacity]
  split
  · rfl
  · split <;> rfl

theorem MemoryCall.apply_mute (call : MemoryCall) (m : Memory) :
    (call.apply m.mute).map (Update.mute Memory.mute) =
      (call.apply m).map (Update.mute Memory.mute) := by
  cases call with
  | write a w =>
    have hcheck : m.mute.check a = m.check a := rfl
    simp only [apply, Memory.write, hcheck]
    cases m.check a <;> rfl
  | writeRaw a bytes => exact Update.map_mute (m.writeRaw_mute a bytes) _
  | load start bytes => exact Update.map_mute (m.load_mute start bytes) _
  | loadWords start ws => exact Update.map_mute (m.load_mute start _) _
  | fill start stop w => exact Update.map_mute (m.fill_mute start stop w) _
  | clear | observe tag => rfl

namespace Processor

variable {model : Model} {p q : Processor}

theorem onRegisters_mute (call : RegisterCall) :
    (p.mute.onCore (Core.onRegisters call.apply)).1 = (p.onCore (Core.onRegisters call.apply)).1 ∧
      (p.mute.onCore (Core.onRegisters call.apply)).2.mute =
        (p.onCore (Core.onRegisters call.apply)).2.mute := by
  rw [onCore, onCore, Core.onRegisters, Core.onRegisters,
    show p.mute.core.registers = p.core.registers.mute from rfl]
  rcases Update.mute_cases (call.apply_mute p.core.registers) with
    ⟨fault, hmute, hfails⟩ | ⟨u, v, hmute, happly, hanswer, hstore⟩
  · rw [hmute, hfails]
    exact ⟨rfl, rfl⟩
  · rw [hmute, happly]
    refine ⟨congrArg Except.ok hanswer, ?_⟩
    exact congrArg (fun r => Processor.mk p.variant ⟨r, p.core.memory.mute, #[]⟩ p.switches p.state)
      hstore

theorem onMemory_mute (call : MemoryCall) :
    (p.mute.onCore (Core.onMemory call.apply)).1 = (p.onCore (Core.onMemory call.apply)).1 ∧
      (p.mute.onCore (Core.onMemory call.apply)).2.mute =
        (p.onCore (Core.onMemory call.apply)).2.mute := by
  rw [onCore, onCore, Core.onMemory, Core.onMemory,
    show p.mute.core.memory = p.core.memory.mute from rfl]
  rcases Update.mute_cases (call.apply_mute p.core.memory) with
    ⟨fault, hmute, hfails⟩ | ⟨u, v, hmute, happly, hanswer, hstore⟩
  · rw [hmute, hfails]
    exact ⟨rfl, rfl⟩
  · rw [hmute, happly]
    refine ⟨congrArg Except.ok hanswer, ?_⟩
    exact congrArg (fun m => Processor.mk p.variant ⟨p.core.registers.mute, m, #[]⟩ p.switches
      p.state) hstore

theorem serve_mute (hp : p.variant = Variant.ofModel model) (call : HostCall) :
    (p.mute.serve call).1 = (p.serve call).1 ∧
      (p.mute.serve call).2.mute = (p.serve call).2.mute := by
  cases call with
  | cycle =>
    have hcycle := cycle_mute hp
    have hip : p.mute.core.registers.ip = p.core.registers.ip := rfl
    simp only [serve, cycleTraced, hcycle, hip]
    exact ⟨trivial, rfl⟩
  | run limit =>
    have hrun := runFrom_mute hp 0 Record.fresh #[] limit
    simp only [serve, run, hrun]
    exact ⟨trivial, rfl⟩
  | fetch =>
    simp only [serve, fetch, onCore_mute Core.fetch_commutes]
    exact ⟨trivial, rfl⟩
  | reset =>
    have hreset : p.mute.reset = (p.reset.1, p.reset.2.mute) := initialise_mute (p := p.cleared) hp
    simp only [serve, hreset]
    exact ⟨trivial, rfl⟩
  | configure switches => exact ⟨rfl, rfl⟩
  | registers own => exact ⟨congrArg Reply.core (onRegisters_mute own).1, (onRegisters_mute own).2⟩
  | memory own => exact ⟨congrArg Reply.core (onMemory_mute own).1, (onMemory_mute own).2⟩

theorem session_mute (hp : p.variant = Variant.ofModel model) (hq : q.variant = Variant.ofModel model)
    (h : p.mute = q.mute) (calls : List HostCall) :
    p.replies calls = q.replies calls ∧ (p.after calls).mute = (q.after calls).mute := by
  induction calls generalizing p q with
  | nil => exact ⟨rfl, h⟩
  | cons call calls ih =>
    obtain ⟨hanswer, hafter⟩ := serve_mute hp call
    obtain ⟨hanswer', hafter'⟩ := serve_mute hq call
    rw [h] at hanswer hafter
    obtain ⟨hreplies, hend⟩ := ih ((serve_shape hp call).1.trans hp)
      ((serve_shape hq call).1.trans hq) (hafter.symm.trans hafter')
    refine ⟨?_, hend⟩
    rw [replies, replies, hreplies, ← hanswer, hanswer']

end Processor

end WordMachine
