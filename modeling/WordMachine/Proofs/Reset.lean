import WordMachine.Proofs.EmptyStack
import WordMachine.Proofs.Unobserved

/-!
# A reset forgets everything but memory

A reset sets the registers up as they were in the new processor, whatever has happened since, and
leaves memory and the switches. From then on the processor cannot be told from a new one that is
given the same memory and the same switches.
-/

set_option autoImplicit false

namespace WordMachine

namespace Registers

def Shape.zeroed (s : Shape) : Registers :=
  ⟨s.names, ⟨s.kind, Array.replicate s.bytes 0⟩, s.ipIndex, none⟩

theorem clear_mute_of_shape {r s : Registers} (h : r.shape = s.shape) :
    r.clear.mute = s.clear.mute :=
  congrArg Shape.zeroed h

theorem create_clear {kind : Kind} {names : List String} {r : Registers}
    (h : create kind names = .ok r) : r.clear.mute = r := by
  obtain ⟨-, i, -, rfl⟩ := create_eq_ok.mp h
  simp only [clear, mute, Bank.clear, Bank.zeroed, Array.size_replicate]

end Registers

namespace Memory

theorem load_image {m n : Memory} (hn : n.WellFormed) (h : m.shape = n.shape) :
    (m.load 0 n.bytes.toList).map (Update.mute Memory.mute) = .ok (m.capacity, n.mute) := by
  have hkind : m.kind = n.kind := kind_of_shape h
  have hcapacity : m.capacity = n.capacity := capacity_of_shape h
  have hsize : m.bank.bytes.size = n.bank.bytes.size := congrArg (·.bytes) h
  have hstop : Address.afterBytes 0 n.bytes.toList.length m.kind.byteWidth = m.capacity := by
    have hwidth := n.kind.byteWidth_pos
    have hlast : (n.kind.byteWidth - 1) / n.kind.byteWidth = 0 :=
      Nat.div_eq_of_lt (Nat.sub_lt hwidth Nat.one_pos)
    rw [Array.length_toList, hn, hkind, hcapacity, Address.afterBytes, Nat.zero_add,
      Nat.add_sub_assoc hwidth, Nat.mul_comm, Nat.mul_add_div hwidth, hlast, Nat.add_zero]
  have himage : (m.putBytes 0 n.bytes.toList).mute = n.mute := by
    have hbytes : Bytes.splice m.bank.bytes (0 * m.bank.kind.byteWidth) n.bytes.toList = n.bytes := by
      rw [Nat.zero_mul]
      exact Bytes.splice_whole hsize
    show Memory.mk m.capacity ⟨m.kind, _⟩ none = Memory.mk n.capacity ⟨n.kind, n.bytes⟩ none
    rw [hbytes, hkind, hcapacity]
  rw [load, hstop, if_pos (Nat.le_refl _)]
  exact congrArg (fun n => Except.ok (m.capacity, n)) himage

end Memory

namespace Core

theorem storeAll_registers {c d : Core} (h : c.registers = d.registers) (ws : List Write) :
    (c.storeAll ws).registers = (d.storeAll ws).registers := by
  induction ws generalizing c d with
  | nil => exact h
  | cons w ws ih =>
    apply ih
    cases w with
    | register i v => exact congrArg (·.put i v) h
    | memory a v => exact h

end Core

theorem Variant.initialise_ok {model : Model} {c : Core}
    (hn : ∀ n ∈ (ofModel model).requiredRegisters, n ∈ c.registers.names) :
    ∃ ws : List Write, (∀ w ∈ ws, w.address? = none) ∧
      ∀ d : Core, d.registers.mute = c.registers.mute → d.memory.capacity = c.memory.capacity →
        (ofModel model).initialise d = .ok () (d.storeAll ws) := by
  cases model with
  | base => exact ⟨[], by simp, fun d _ _ => rfl⟩
  | extended =>
    obtain ⟨sp, hsp⟩ := Registers.exists_place_of_mem (hn Core.stackPointer (by decide))
    refine ⟨[.register sp (Word.ofNat c.memory.capacity)], by simp [Write.address?], ?_⟩
    intro d hregisters hcapacity
    have hplace : d.registers.mute.place? (.name Core.stackPointer) = some sp := by
      rw [hregisters]
      exact hsp
    have hset := Core.emptyStack_ok (c := d) hplace
    rw [hcapacity] at hset
    exact hset

namespace Processor

variable {model : Model} {p q new : Processor}

theorem mute_eq (hvariant : p.variant = q.variant)
    (hregisters : p.core.registers.mute = q.core.registers.mute)
    (hmemory : p.core.memory.mute = q.core.memory.mute) (hswitches : p.switches = q.switches)
    (hstate : p.state = q.state) : p.mute = q.mute := by
  rw [mute, mute, Core.mute, Core.mute, hvariant, hregisters, hmemory, hswitches, hstate]

theorem reset_after {configuration : Configuration}
    (hnew : create (.ofModel model) configuration = .ok new) (calls : List HostCall) :
    (new.after calls).reset.1 = .ok () ∧
      (new.after calls).reset.2.variant = new.variant ∧
      (new.after calls).reset.2.core.registers.mute = new.core.registers.mute ∧
      (new.after calls).reset.2.core.memory = (new.after calls).core.memory ∧
      (new.after calls).reset.2.switches = (new.after calls).switches ∧
      (new.after calls).reset.2.state = new.state := by
  have hnewSound := create_sound hnew
  let p := new.after calls
  have hp : p.Sound model := after_sound hnewSound calls
  have hshape : p.core.shape = new.core.shape := after_shape hnewSound.variant calls
  obtain ⟨-, registers, hregisters, hinitialise⟩ := create_ok hnew
  let begun := blank (.ofModel model) (configuration.kind.getD (Variant.ofModel model).defaultKind)
    registers configuration.memoryWords
  have hbegun : begun.Sound model := blank_sound hregisters
  have hbegunShape : new.core.shape = begun.core.shape := by
    have hs := (initialise_shape hbegun.variant).2
    rwa [show begun.initialise = _ from hinitialise] at hs
  -- both set-ups begin with the same registers, so they make the same writes
  have hsame : p.cleared.core.registers.mute = begun.core.registers.mute := by
    have hcleared : begun.core.registers.clear.mute = begun.core.registers :=
      Registers.create_clear hregisters
    rw [← hcleared]
    exact Registers.clear_mute_of_shape (congrArg Prod.fst (hshape.trans hbegunShape))
  have hcapacity : p.cleared.core.memory.capacity = begun.core.memory.capacity :=
    Core.capacity_of_shape (p.cleared_shape.trans (hshape.trans hbegunShape))
  obtain ⟨ws, hws, hset⟩ := Variant.initialise_ok hbegun.required
  have hreset : p.reset = (.ok (), { p.cleared with core := p.cleared.core.storeAll ws }) := by
    have hok := hset _ hsame hcapacity
    rw [← hp.variant] at hok
    show initialise p.cleared = _
    rw [initialise, show p.cleared.variant.initialise _ = _ from hok]
  have hfirst : new = { begun with core := begun.core.storeAll ws } := by
    have hok := hset begun.core rfl rfl
    have hinitialise : begun.initialise = (.ok (), new) := hinitialise
    rw [initialise, show begun.variant.initialise _ = _ from hok] at hinitialise
    exact (Prod.mk.inj hinitialise).2.symm
  have hregisters : (p.cleared.core.storeAll ws).registers.mute =
      (begun.core.storeAll ws).registers.mute := by
    have hmute := Core.storeAll_registers (c := p.cleared.core.mute) (d := begun.core.mute) hsame ws
    rwa [Core.storeAll_mute, Core.storeAll_mute] at hmute
  rw [show (new.after calls).reset = _ from hreset]
  refine ⟨rfl, hp.variant.trans hnewSound.variant.symm, ?_, p.cleared.core.storeAll_memory ws hws,
    rfl, ?_⟩
  · rw [hfirst]
    exact hregisters
  · rw [hfirst]
    rfl

/-- A processor that is given an image of its memory and switches. -/
def given (p : Processor) (image : List UInt8) (switches : Switches) : Processor :=
  p.after [.memory (.load 0 image), .configure switches]

theorem given_eq {m : Memory} (hm : m.WellFormed) (hshape : p.core.memory.shape = m.shape)
    (switches : Switches) :
    ∃ (memory : Memory) (log : Array Event), memory.mute = m.mute ∧
      p.given m.bytes.toList switches =
        ⟨p.variant, ⟨p.core.registers, memory, log⟩, switches, p.state⟩ := by
  obtain ⟨u, hu, hmute⟩ := Check.map_eq_ok.mp (Memory.load_image hm hshape)
  have happly : (MemoryCall.load 0 m.bytes.toList).apply p.core.memory = .ok (u.map .address) := by
    rw [MemoryCall.apply, hu]
    rfl
  have hcore : Work.final (Core.onMemory (MemoryCall.load 0 m.bytes.toList).apply p.core) =
      ⟨p.core.registers, u.store, p.core.log ++ u.events⟩ := by
    rw [Core.onMemory, happly]
    rfl
  refine ⟨u.store, p.core.log ++ u.events, congrArg Prod.snd hmute, ?_⟩
  show ({ (p.onCore (Core.onMemory _)).2 with switches := switches } : Processor) = _
  rw [onCore_snd, hcore]

/-- Whatever has been asked of a processor, a reset succeeds and leaves the registers and the state
of the new processor, with memory and switches as they are. Given these, the new processor answers
every later session the same and is left the same, but for observers. -/
theorem reset_forgets_history {configuration : Configuration}
    (hnew : create (.ofModel model) configuration = .ok new) (calls : List HostCall) :
    let p := new.after calls
    let q := p.reset.2
    let fresh := new.given p.core.memory.bytes.toList p.switches
    p.reset.1 = .ok () ∧
    (q.core.registers.bank = new.core.registers.bank ∧
      q.core.registers.names = new.core.registers.names ∧
      q.core.registers.ipIndex = new.core.registers.ipIndex ∧ q.state = new.state) ∧
    (q.core.memory.bytes = p.core.memory.bytes ∧ q.switches = p.switches) ∧
    (fresh.core.registers = new.core.registers ∧ fresh.core.memory.bytes = p.core.memory.bytes ∧
      fresh.switches = p.switches ∧ fresh.state = new.state) ∧
    ∀ later : List HostCall,
      q.replies later = fresh.replies later ∧ (q.after later).mute = (fresh.after later).mute := by
  intro p q fresh
  have hsound := create_sound hnew
  have hp : p.Sound model := after_sound hsound calls
  obtain ⟨hok, hvariant, hregisters, hmemory, hswitches, hstate⟩ := reset_after hnew calls
  obtain ⟨memory, log, hmute, hfresh⟩ := given_eq hp.core.memory
    (congrArg Prod.snd (after_shape hsound.variant calls).symm) p.switches
  have hbytes := congrArg Memory.bytes hmute
  have hbank := congrArg Registers.bank hregisters
  have hnames := congrArg Registers.names hregisters
  have hindex := congrArg Registers.ipIndex hregisters
  have hfresh : fresh = ⟨new.variant, ⟨new.core.registers, memory, log⟩, p.switches, new.state⟩ :=
    hfresh
  have hsame : q.mute = fresh.mute := by
    rw [hfresh]
    exact mute_eq hvariant hregisters ((congrArg Memory.mute hmemory).trans hmute.symm) hswitches
      hstate
  refine ⟨hok, ⟨hbank, hnames, hindex, hstate⟩, ⟨congrArg Memory.bytes hmemory, hswitches⟩,
    by rw [hfresh]; exact ⟨rfl, hbytes, rfl, rfl⟩, fun later => ?_⟩
  have hfreshVariant : fresh.variant = Variant.ofModel model := by
    rw [hfresh]
    exact hsound.variant
  exact session_mute (hvariant.trans hsound.variant) hfreshVariant hsame later

theorem faulted_processor_is_reset :
    ∃ new, create (.ofModel .extended) ⟨some .uint8, 8, some ["x"]⟩ = .ok new ∧
      let program := [0x60, 7, 0x3e, 9].map Word.ofNat
      let p := new.after [.registers (.observe "log"), .memory (.loadWords 0 program), .run 2,
        .registers (.write (.name "x") (Word.ofNat 5)), .configure ⟨false, true, false⟩]
      let fresh := new.given p.core.memory.bytes.toList p.switches
      (p.state = .faulted ∧ p.core.registers.bank.bytes = #[5, 4, 0, 7, 0]) ∧
        new.core.registers.bank.bytes = #[0, 0, 0, 8, 0] ∧ p.reset.1 = .ok () ∧
        p.reset.2.core.registers.bank = new.core.registers.bank ∧
        p.reset.2.replies [.cycle, .run 3] = fresh.replies [.cycle, .run 3] := by
  let calls : List HostCall := [.registers (.observe "log"),
    .memory (.loadWords 0 ([0x60, 7, 0x3e, 9].map Word.ofNat)), .run 2,
    .registers (.write (.name "x") (Word.ofNat 5)), .configure ⟨false, true, false⟩]
  have hruns : (create (.ofModel .extended) ⟨some .uint8, 8, some ["x"]⟩).map (fun new =>
      (((new.after calls).state, (new.after calls).core.registers.bank.bytes),
        new.core.registers.bank.bytes)) =
      .ok ((.faulted, #[5, 4, 0, 7, 0]), #[0, 0, 0, 8, 0]) := by decide +kernel
  obtain ⟨new, hnew, hruns⟩ := Check.map_eq_ok.mp hruns
  obtain ⟨hbefore, hbytes⟩ := Prod.mk.inj hruns
  obtain ⟨hok, hregisters, -, -, hlater⟩ := reset_forgets_history hnew calls
  exact ⟨new, hnew, Prod.mk.inj hbefore, hbytes, hok, hregisters.1, (hlater [.cycle, .run 3]).1⟩

end Processor

end WordMachine
