import WordMachine.Proofs.HexDump
import WordMachine.Proofs.Slices
import WordMachine.Proofs.Success

/-!
# What is kept of a machine

Names, kinds and sizes of registers and memory stay as they were created. So every offset, slice
and copy of every call is possible, whatever its arguments, and bytes are blamed for their number
only where a caller hands them over.
-/

set_option autoImplicit false

namespace WordMachine

/-- The outcome does not blame the number of bytes. -/
def Check.Sized {α : Type} (x : Except Fault α) : Prop :=
  ∀ expected actual, x ≠ .error (.sizeMismatch expected actual)

def Check.fault? {ε α : Type} : Except ε α → Option ε
  | .ok _ => none
  | .error fault => some fault

theorem Check.fault?_eq_some {ε α : Type} {x : Except ε α} {fault : ε} :
    fault? x = some fault ↔ x = .error fault := by
  cases x <;> simp [fault?]

namespace Check.Sized

variable {α β : Type} {x : Except Fault α}

theorem ok (a : α) : Sized (.ok a) := by
  intro expected actual h
  cases h

theorem outOfBounds (a : Word) (capacity : Nat) :
    Sized (.error (.outOfBounds a capacity) : Except Fault α) := by
  intro expected actual h
  cases h

theorem map (f : α → β) (hx : Sized x) : Sized (x.map f) :=
  fun expected actual h => hx expected actual (Check.map_eq_error.mp h)

theorem mapM {l : List α} {f : α → Except Fault β} (hf : ∀ a, Sized (f a)) : Sized (l.mapM f) := by
  induction l with
  | nil => exact ok []
  | cons a l ih =>
    intro expected actual h
    rw [List.mapM_cons] at h
    rcases Check.bind_eq_error.mp h with h | ⟨b, -, h⟩
    · exact hf a expected actual h
    · rcases Check.bind_eq_error.mp h with h | ⟨bs, -, h⟩
      · exact ih expected actual h
      · cases h

end Check.Sized

namespace Kind

/-- Encoding and decoding are refused for their number of bytes only, and a word encoded by a kind
is decoded by it. -/
structure Encodes (k : Kind) : Prop where
  coerce : ∀ w, k.decode (k.encode w) = .ok (k.coerce w)
  encodeInto : ∀ w size fault, k.encodeInto w size = .error fault ↔
    size ≠ k.byteWidth ∧ fault = .sizeMismatch k.byteWidth size
  decode : ∀ bytes fault, k.decode bytes = .error fault ↔
    bytes.length ≠ k.byteWidth ∧ fault = .sizeMismatch k.byteWidth bytes.length
  ofHex : ∀ input, Check.Sized (k.ofHex input)

theorem encodes (k : Kind) : k.Encodes where
  coerce := k.decode_encode
  encodeInto := by
    intro w size fault
    rw [Kind.encodeInto]
    split <;> simp_all [eq_comm]
  decode := by
    intro bytes fault
    rw [Kind.decode]
    split <;> simp_all [eq_comm]
  ofHex := by
    intro input expected actual h
    by_cases hdump : k.IsDump input
    · rw [ofHex_of_isDump hdump, decode_eq_ok (length_hexDenoted hdump)] at h
      cases h
    · obtain ⟨flaw, hflaw⟩ := ofHex_refused hdump
      rw [hflaw] at h
      cases h

end Kind

namespace Registers

variable {r : Registers}

theorem create_sized (k : Kind) (names : List String) : Check.Sized (create k names) := by
  intro expected actual h
  rw [create] at h
  split at h
  · cases h
  · split at h <;> cases h

theorem resolve_sized (r : Registers) (s : Selector) : Check.Sized (r.resolve s) := by
  intro expected actual h
  obtain ⟨-, hfault⟩ := resolve_eq_error.mp h
  cases hfault

theorem apply_sized (r : Registers) (call : RegisterCall) : Check.Sized (call.apply r) := by
  cases call with
  | write s w => exact ((r.resolve_sized s).map _).map _
  | setIp w => exact .ok _
  | clear => exact .ok _
  | observe tag => exact .ok _

/-- Registers are kept as they were at first. Whatever is asked of them is possible at every step,
and the instruction pointer can always be set. -/
structure Intact (first r : Registers) : Prop where
  shape : r.shape = first.shape
  wellFormed : r.WellFormed
  ip : r.bank.word? r.ipIndex = some r.ip
  reads : ∀ s, r.read? s = some (r.read s)
  words : r.words? = some r.words
  calls : ∀ call, r.call? call = some (call.apply r)
  setIp : ∀ w, r.setIp? w = some (.ok (r.setIp w))
  resolveSized : ∀ s, Check.Sized (r.resolve s)
  readSized : ∀ s, Check.Sized (r.read s)
  callSized : ∀ call : RegisterCall, Check.Sized (call.apply r)

theorem intact_of_shape {first : Registers} (hfirst : first.WellFormed) (ha : first.Allocated)
    (h : r.shape = first.shape) : first.Intact r := by
  have hr := hfirst.of_shape h
  have ha := ha.of_shape h
  exact {
    shape := h
    wellFormed := hr
    ip := word?_eq hr ha hr.ipIndex_lt
    reads := read?_eq hr ha
    words := words?_eq hr ha
    calls := call?_eq hr ha
    setIp := setIp?_eq hr ha
    resolveSized := r.resolve_sized
    readSized := fun s => (r.resolve_sized s).map _
    callSized := r.apply_sized }

theorem session_shape (r : Registers) (calls : List RegisterCall) :
    (session serve r calls).1.shape = r.shape := by
  induction calls generalizing r with
  | nil => rfl
  | cons call calls ih =>
    refine (ih _).trans ?_
    show (settle r (call.apply r)).2.1.shape = r.shape
    cases h : call.apply r with
    | ok u => exact RegisterCall.apply_shape h
    | error fault => rfl

end Registers

namespace Memory

variable {m : Memory}

theorem check_sized (m : Memory) (a : Nat) : Check.Sized (m.check a) := by
  intro expected actual h
  rw [check, Address.check] at h
  split at h <;> cases h

theorem addressOf_sized (m : Memory) (w : Word) : Check.Sized (m.addressOf w) := by
  intro expected actual h
  cases Address.ofWord_error h

theorem read_sized (hm : m.WellFormed) (a : Nat) : Check.Sized (m.read a) := by
  rw [read_eq_map hm]
  exact (m.check_sized a).map _

theorem words_sized (hm : m.WellFormed) (start stop : Nat) : Check.Sized (m.words start stop) := by
  rw [words]
  split
  · exact .outOfBounds _ _
  · exact .mapM (read_sized hm)

theorem load_sized (m : Memory) (start : Nat) (bytes : List UInt8) :
    Check.Sized (m.load start bytes) := by
  rw [load]
  split
  · exact .ok _
  · exact .outOfBounds _ _

theorem fill_sized (m : Memory) (start stop : Nat) (w : Word) :
    Check.Sized (m.fill start stop w) := by
  rw [fill]
  split
  · exact .ok _
  · split
    · exact .outOfBounds _ _
    · exact .ok _

theorem writeRaw_mismatch (hm : m.WellFormed) {a : Nat} {bytes : List UInt8} {expected actual : Nat} :
    m.writeRaw a bytes = .error (.sizeMismatch expected actual) ↔
      bytes.length ≠ m.kind.byteWidth ∧ expected = m.kind.byteWidth ∧ actual = bytes.length := by
  by_cases h : bytes.length = m.kind.byteWidth
  · have hsized : Check.Sized (m.writeRaw a bytes) := by
      rw [writeRaw_eq_map hm h]
      exact (m.check_sized a).map _
    exact ⟨fun hfault => absurd hfault (hsized _ _), fun hne => absurd h hne.1⟩
  · have hrefused : m.writeRaw a bytes = .error (.sizeMismatch m.kind.byteWidth bytes.length) := by
      rw [writeRaw, if_pos h]
      rfl
    rw [hrefused]
    simp [h, eq_comm]

end Memory

/-- A call hands over bytes that are not those of one word of the kind. -/
def MemoryCall.Mismatches (k : Kind) (expected actual : Nat) (call : MemoryCall) : Prop :=
  ∃ a bytes, call = .writeRaw a bytes ∧ bytes.length ≠ k.byteWidth ∧ expected = k.byteWidth ∧
    actual = bytes.length

theorem MemoryCall.apply_mismatch {m : Memory} (hm : m.WellFormed) {call : MemoryCall}
    {expected actual : Nat} :
    call.apply m = .error (.sizeMismatch expected actual) ↔ call.Mismatches m.kind expected actual := by
  have hothers (hcall : ∀ a bytes, call ≠ .writeRaw a bytes) (hsized : Check.Sized (call.apply m)) :
      call.apply m = .error (.sizeMismatch expected actual) ↔
        call.Mismatches m.kind expected actual :=
    ⟨fun h => absurd h (hsized _ _), fun ⟨a, bytes, he, _⟩ => absurd he (hcall a bytes)⟩
  cases call with
  | writeRaw a bytes =>
    refine Check.map_eq_error.trans ((Memory.writeRaw_mismatch hm).trans ⟨?_, ?_⟩)
    · exact fun h => ⟨a, bytes, rfl, h⟩
    · rintro ⟨a, bytes, he, h⟩
      cases he
      exact h
  | write a w => exact hothers (by simp) (((m.check_sized a).map _).map _)
  | load start bytes => exact hothers (by simp) ((m.load_sized start bytes).map _)
  | loadWords start ws => exact hothers (by simp) ((m.load_sized start _).map _)
  | fill start stop w => exact hothers (by simp) ((m.fill_sized start stop w).map _)
  | clear => exact hothers (by simp) (.ok _)
  | observe tag => exact hothers (by simp) (.ok _)

namespace Memory

variable {m : Memory}

/-- Memory is kept as it was at first. Whatever is asked of it is possible at every step. -/
structure Intact (first m : Memory) : Prop where
  shape : m.shape = first.shape
  wellFormed : m.WellFormed
  reads : ∀ a, m.read? a = some (m.read a)
  words : ∀ start stop, m.words? start stop = some (m.words start stop)
  calls : ∀ call, m.call? call = some (call.apply m)
  addressSized : ∀ w, Check.Sized (m.addressOf w)
  readSized : ∀ a, Check.Sized (m.read a)
  wordsSized : ∀ start stop, Check.Sized (m.words start stop)
  mismatch : ∀ (call : MemoryCall) (expected actual : Nat),
    call.apply m = .error (.sizeMismatch expected actual) ↔ call.Mismatches m.kind expected actual

theorem intact_of_shape {first : Memory} (hfirst : first.WellFormed) (ha : first.Allocated)
    (h : m.shape = first.shape) : first.Intact m := by
  have hm := hfirst.of_shape h
  have ha := ha.of_shape h
  exact {
    shape := h
    wellFormed := hm
    reads := read?_eq hm ha
    words := words?_eq hm ha
    calls := call?_eq hm ha
    addressSized := m.addressOf_sized
    readSized := read_sized hm
    wordsSized := words_sized hm
    mismatch := fun _ _ _ => MemoryCall.apply_mismatch hm }

theorem serve_shape (m : Memory) (call : MemoryCall) : (m.serve call).2.1.shape = m.shape := by
  rw [serve]
  cases h : call.apply m with
  | ok u => exact MemoryCall.apply_shape h
  | error fault => rfl

theorem session_shape (m : Memory) (calls : List MemoryCall) :
    (session serve m calls).1.shape = m.shape := by
  induction calls generalizing m with
  | nil => rfl
  | cons call calls ih => exact (ih _).trans (m.serve_shape call)

end Memory

namespace Core

variable {c first : Core}

structure Intact (first c : Core) : Prop where
  registers : first.registers.Intact c.registers
  memory : first.memory.Intact c.memory

theorem intact_of_shape (hfirst : first.WellFormed) (ha : first.Allocated)
    (h : c.shape = first.shape) : first.Intact c where
  registers := Registers.intact_of_shape hfirst.registers ha.registers (congrArg Prod.fst h)
  memory := Memory.intact_of_shape hfirst.memory ha.memory (congrArg Prod.snd h)

end Core

def Reply.fault? : Reply → Option Fault
  | .cycle c _ => (Check.fault? c.result).map (·.cause)
  | .run outcome _ => (Check.fault? outcome).map (·.cause)
  | .core answer => Check.fault? answer

namespace Processor

variable {model : Model} {p : Processor}

theorem cycle_sized (hp : p.Sound model) {fault : CycleFault} (h : p.cycle.1.result = .error fault) :
    Check.Sized (α := Unit) (.error fault.cause) := by
  cases hf : Core.fetch p.core with
  | error cause c =>
    obtain ⟨hread, -⟩ := (Core.fetch_eq_error hp.core.registers (n := 0)).mp hf
    rw [cycle_unfetched hf] at h
    cases h
    rw [Core.readMemory_error hp.core.memory hread]
    exact .outOfBounds _ _
  | ok opcode c =>
    obtain ⟨-, rfl⟩ := (Core.fetch_eq_ok hp.core.registers (n := 0)).mp hf
    cases hx : p.variant.execute p.switches opcode ⟨p.core.advanced 1, p.opened opcode⟩ with
    | ok continues x =>
      rw [cycle_succeeds hf hx] at h
      cases h
    | error cause x =>
      rw [cycle_fails hf hx] at h
      cases h
      rw [hp.variant, model.execute_ofModel] at hx
      cases Model.execute_blames hp.core hp.required hx <;> exact fun _ _ h => nomatch h

theorem runFrom_sized (hp : p.Sound model) (cycles : Nat) (last : Record)
    (trace : Array TraceEvent) (limit : Nat) {fault : CycleFault}
    (h : (p.runFrom cycles last trace limit).outcome = .error fault) :
    Check.Sized (α := Unit) (.error fault.cause) := by
  induction limit generalizing p cycles last trace with
  | zero => cases h
  | succ limit ih =>
    cases hresult : p.cycle.1.result with
    | error cause =>
      rw [runFrom_fault cycles last trace limit hresult] at h
      cases h
      exact cycle_sized hp hresult
    | ok continues =>
      cases continues with
      | false =>
        rw [runFrom_stop cycles last trace limit hresult] at h
        cases h
      | true =>
        rw [runFrom_continue cycles last trace limit hresult] at h
        exact ih (serve_sound hp .cycle) _ _ _ h

theorem initialise_sized (hp : p.variant = Variant.ofModel model) : Check.Sized p.initialise.1 := by
  intro expected actual h
  rw [initialise, hp] at h
  cases model with
  | base => cases h
  | extended =>
    cases hwrite : Core.writeRegister (.name Core.stackPointer) (Word.ofNat p.core.memory.capacity)
      p.core with
    | ok v d => simp [Variant.ofModel, Variant.extended, Variant.emptyStack, hwrite] at h
    | error fault d =>
      obtain ⟨-, rfl, -⟩ := Core.writeRegister_eq_error.mp hwrite
      simp [Variant.ofModel, Variant.extended, Variant.emptyStack, hwrite] at h

theorem create_sized (model : Model) (configuration : Configuration) :
    Check.Sized (create (.ofModel model) configuration) := by
  intro expected actual h
  simp only [create] at h
  split at h
  · cases h
  · rcases Check.bind_eq_error.mp h with h | ⟨registers, -, h⟩
    · exact Registers.create_sized _ _ _ _ h
    · split at h
      · cases h
      · rename_i hinitialise
        cases h
        exact initialise_sized rfl _ _ (congrArg Prod.fst hinitialise)

theorem onRegisters_answer {α : Type} (p : Processor)
    (f : Registers → Except Fault (Update Registers α)) :
    (p.onCore (Core.onRegisters f)).1 = (f p.core.registers).map (·.answer) := by
  rw [onCore, Core.onRegisters]
  cases f p.core.registers <;> rfl

theorem onMemory_answer {α : Type} (p : Processor) (f : Memory → Except Fault (Update Memory α)) :
    (p.onCore (Core.onMemory f)).1 = (f p.core.memory).map (·.answer) := by
  rw [onCore, Core.onMemory]
  cases f p.core.memory <;> rfl

theorem fetch_sized (hp : p.Sound model) : Check.Sized p.fetch.1 := by
  intro expected actual h
  rw [fetch, onCore] at h
  cases hf : Core.fetch p.core with
  | ok w c =>
    rw [hf] at h
    cases h
  | error cause c =>
    obtain ⟨hread, -⟩ := (Core.fetch_eq_error hp.core.registers (n := 0)).mp hf
    rw [hf, Core.readMemory_error hp.core.memory hread] at h
    cases h

theorem serve_mismatch (hp : p.Sound model) (call : HostCall) (expected actual : Nat) :
    (p.serve call).1.fault? = some (.sizeMismatch expected actual) ↔
      ∃ own : MemoryCall, call = .memory own ∧ own.Mismatches p.core.memory.kind expected actual := by
  have hothers (hcall : ∀ own, call ≠ .memory own)
      (hsized : (p.serve call).1.fault? ≠ some (.sizeMismatch expected actual)) :
      (p.serve call).1.fault? = some (.sizeMismatch expected actual) ↔
        ∃ own : MemoryCall, call = .memory own ∧
          own.Mismatches p.core.memory.kind expected actual :=
    ⟨fun h => absurd h hsized, fun ⟨own, he, _⟩ => absurd he (hcall own)⟩
  cases call with
  | cycle =>
    refine hothers (by simp) fun h => ?_
    obtain ⟨fault, hfault, hcause⟩ := Option.map_eq_some_iff.mp h
    exact cycle_sized hp (Check.fault?_eq_some.mp hfault) _ _ (congrArg Except.error hcause)
  | run limit =>
    refine hothers (by simp) fun h => ?_
    obtain ⟨fault, hfault, hcause⟩ := Option.map_eq_some_iff.mp h
    exact runFrom_sized hp 0 Record.fresh #[] limit (Check.fault?_eq_some.mp hfault) _ _
      (congrArg Except.error hcause)
  | fetch =>
    refine hothers (by simp) fun h => ?_
    exact (fetch_sized hp).map _ _ _ (Check.fault?_eq_some.mp h)
  | reset =>
    refine hothers (by simp) fun h => ?_
    exact (initialise_sized (p := p.cleared) hp.variant).map _ _ _ (Check.fault?_eq_some.mp h)
  | configure switches => exact hothers (by simp) fun h => nomatch h
  | registers own =>
    refine hothers (by simp) fun h => ?_
    have hanswer : (p.onCore (Core.onRegisters own.apply)).1 =
        .error (.sizeMismatch expected actual) := Check.fault?_eq_some.mp h
    rw [onRegisters_answer] at hanswer
    exact (p.core.registers.apply_sized own).map _ _ _ hanswer
  | memory own =>
    show Check.fault? (p.onCore (Core.onMemory own.apply)).1 = _ ↔ _
    rw [Check.fault?_eq_some, onMemory_answer, Check.map_eq_error,
      MemoryCall.apply_mismatch hp.core.memory]
    constructor
    · exact fun h => ⟨own, rfl, h⟩
    · rintro ⟨own', he, h⟩
      cases he
      exact h

theorem cycle_intact (hp : p.Sound model) {first : Core} (hfirst : first.WellFormed)
    (ha : first.Allocated) (h : p.core.shape = first.shape) :
    ∃ ws, p.core.storeAll? ws = some p.cycle.2.core ∧
      ∀ n, first.Intact (p.core.storeAll (ws.take n)) := by
  obtain ⟨ws, hws, hcore⟩ := cycle_writesTo hp.variant hp.core.registers
  refine ⟨ws, hcore ▸ Core.storeAll?_eq hp.core (ha.of_shape h) hws, fun n => ?_⟩
  exact Core.intact_of_shape hfirst ha ((p.core.storeAll_shape _).trans h)

end Processor

/-- Registers and memory stay as they were created, on their own and within a machine of a built-in
model, also halfway through a cycle; every access is possible and needs nothing to stand in for it;
and bytes are blamed for their number by the encoding and the decoding of a kind and by a raw write
that are given too many or too few, and by nothing else. -/
theorem representation_is_kept :
    (∀ k : Kind, k.Encodes) ∧
    (∀ (k : Kind) (names : List String), Check.Sized (Registers.create k names) ∧
      ∀ r, Registers.create k names = .ok r → r.names = names ∧
        (r.Allocated → ∀ calls, r.Intact (session Registers.serve r calls).1)) ∧
    (∀ (k : Kind) (capacity : Nat), (Memory.create k capacity).Allocated →
      ∀ calls, (Memory.create k capacity).Intact
        (session Memory.serve (Memory.create k capacity) calls).1) ∧
    ∀ (model : Model) (configuration : Configuration),
      Check.Sized (Processor.create (.ofModel model) configuration) ∧
      ∀ new, Processor.create (.ofModel model) configuration = .ok new → new.core.Allocated →
      ∀ calls : List HostCall,
        let p := new.after calls
        new.core.Intact p.core ∧
          (∃ ws, p.core.storeAll? ws = some p.cycle.2.core ∧
            ∀ n, new.core.Intact (p.core.storeAll (ws.take n))) ∧
          ∀ (call : HostCall) (expected actual : Nat),
            (p.serve call).1.fault? = some (.sizeMismatch expected actual) ↔
              ∃ own : MemoryCall, call = .memory own ∧
                own.Mismatches p.core.memory.kind expected actual := by
  refine ⟨Kind.encodes, ?_, ?_, ?_⟩
  · intro k names
    refine ⟨Registers.create_sized k names, fun r hr => ?_⟩
    refine ⟨(Registers.create_names hr).1, fun ha calls => ?_⟩
    exact Registers.intact_of_shape (Registers.create_wellFormed hr) ha (r.session_shape calls)
  · intro k capacity ha calls
    exact Memory.intact_of_shape (Memory.create_wellFormed k capacity) ha
      (Memory.session_shape _ calls)
  · intro model configuration
    refine ⟨Processor.create_sized model configuration, ?_⟩
    intro new hnew ha calls p
    have hnewSound := Processor.create_sound hnew
    have hp : p.Sound model := Processor.after_sound hnewSound calls
    have hs : p.core.shape = new.core.shape := Processor.after_shape hnewSound.variant calls
    exact ⟨Core.intact_of_shape hnewSound.core ha hs,
      Processor.cycle_intact hp hnewSound.core ha hs, Processor.serve_mismatch hp⟩

theorem hostile_calls_keep_representation :
    ∃ new r, Processor.create (.ofModel .extended) ⟨some .uint16, 8, some ["x"]⟩ = .ok new ∧
      Registers.create .int8 ["ip"] = .ok r ∧ new.core.Allocated ∧ r.Allocated ∧
      (Memory.create .float64 2).Allocated ∧
      let p := new.after [.memory (.load (2 ^ 64 - 1) [7]), .memory (.fill 6 (2 ^ 64 - 1) Word.nan),
        .registers (.write (.index (Word.ofNat (2 ^ 60))) Word.nan),
        .registers (.setIp (Word.ofInt (-1))), .cycle]
      new.core.Intact p.core ∧
        (p.serve (.memory (.writeRaw 0 [1, 2, 3]))).1.fault? = some (.sizeMismatch 2 3) ∧
        (∃ own : MemoryCall, HostCall.memory (.writeRaw 0 [1, 2, 3]) = .memory own ∧
          own.Mismatches p.core.memory.kind 2 3) ∧
        r.Intact (session Registers.serve r [.setIp (Word.ofNat 300), .clear]).1 ∧
        (Memory.create .float64 2).Intact
          (session Memory.serve (Memory.create .float64 2) [.writeRaw 1 [1], .fill 0 2 Word.nan]).1 := by
  let calls : List HostCall := [.memory (.load (2 ^ 64 - 1) [7]),
    .memory (.fill 6 (2 ^ 64 - 1) Word.nan),
    .registers (.write (.index (Word.ofNat (2 ^ 60))) Word.nan),
    .registers (.setIp (Word.ofInt (-1))), .cycle]
  have hruns : (Processor.create (.ofModel .extended) ⟨some .uint16, 8, some ["x"]⟩).map (fun new =>
      (decide (new.core.registers.size ≤ 2 ^ 53 ∧ new.core.registers.bank.bytes.size < 2 ^ 63 ∧
        new.core.memory.bank.bytes.size < 2 ^ 63),
        ((new.after calls).serve (.memory (.writeRaw 0 [1, 2, 3]))).1.fault?)) =
      .ok (true, some (.sizeMismatch 2 3)) := by decide +kernel
  have hregisters : (Registers.create .int8 ["ip"]).map (fun r =>
      decide (r.size ≤ 2 ^ 53 ∧ r.bank.bytes.size < 2 ^ 63)) = .ok true := by decide +kernel
  obtain ⟨new, hnew, hruns⟩ := Check.map_eq_ok.mp hruns
  obtain ⟨r, hr, hregisters⟩ := Check.map_eq_ok.mp hregisters
  obtain ⟨hallocated, hmismatch⟩ := Prod.mk.inj hruns
  obtain ⟨hnames, hbank, hbytes⟩ := of_decide_eq_true hallocated
  obtain ⟨hnames', hbank'⟩ := of_decide_eq_true hregisters
  have hmemory : (Memory.create .float64 2).Allocated := by
    rw [Memory.Allocated, Bank.Allocated, Memory.create, Bank.size_zeroed]
    decide
  obtain ⟨-, hfiles, hmemories, hmachines⟩ := representation_is_kept
  obtain ⟨hintact, -, hblamed⟩ := (hmachines .extended _).2 new hnew ⟨⟨hnames, hbank⟩, hbytes⟩ calls
  exact ⟨new, r, hnew, hr, ⟨⟨hnames, hbank⟩, hbytes⟩, ⟨hnames', hbank'⟩, hmemory, hintact, hmismatch,
    (hblamed _ 2 3).mp hmismatch, ((hfiles .int8 ["ip"]).2 r hr).2 ⟨hnames', hbank'⟩ _,
    hmemories .float64 2 hmemory _⟩

end WordMachine
