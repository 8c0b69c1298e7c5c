import WordMachine.Core
import WordMachine.Proofs.Sequencing

/-!
# What a write changes

A write to a register changes the bytes of that register, a write to memory those of one word, and
no write changes how many there are, what they are called, or their kinds.
-/

set_option autoImplicit false

namespace WordMachine

namespace Registers

variable {r : Registers}

structure Shape where
  names : List String
  ipIndex : Nat
  kind : Kind
  bytes : Nat

def shape (r : Registers) : Shape := ⟨r.names, r.ipIndex, r.kind, r.bank.bytes.size⟩

def cell (r : Registers) (i : Nat) : Array UInt8 := r.bank.span i (i + 1)

theorem word_of_cell {r' : Registers} (hk : r'.kind = r.kind) {i : Nat} (h : r'.cell i = r.cell i) :
    r'.word i = r.word i := by
  have hr : r'.bank.read i = r.bank.read i := by
    show r'.kind.decode (r'.cell i).toList = r.kind.decode (r.cell i).toList
    rw [hk, h]
  show r'.bank.word i = r.bank.word i
  rw [Bank.word, hr, ← Bank.word]

theorem cell_put_ne (r : Registers) {i j : Nat} (w : Word) (hne : j ≠ i) :
    (r.put i w).cell j = r.cell j :=
  r.bank.span_put_ne w hne

theorem word_put_ne (r : Registers) {i j : Nat} (w : Word) (hne : j ≠ i) :
    (r.put i w).word j = r.word j :=
  r.bank.word_put_ne w hne

theorem word_put (hr : r.WellFormed) {i : Nat} (hi : i < r.size) (w : Word) :
    (r.put i w).word i = r.kind.coerce w :=
  r.bank.word_put i w (r.bank.word_lies_in hi hr.size_bytes)

theorem resolve_eq_ok {s : Selector} {i : Nat} : r.resolve s = .ok i ↔ r.place? s = some i := by
  rw [resolve]
  cases r.place? s <;> simp

theorem resolve_eq_error {s : Selector} {fault : Fault} :
    r.resolve s = .error fault ↔ r.place? s = none ∧ fault = .invalidRegister s := by
  rw [resolve]
  cases r.place? s <;> simp [eq_comm]

theorem read_eq_ok {s : Selector} {w : Word} :
    r.read s = .ok w ↔ ∃ i, r.place? s = some i ∧ r.word i = w := by
  rw [read, Check.map_eq_ok]
  simp only [resolve_eq_ok]

theorem read_eq_error {s : Selector} {fault : Fault} :
    r.read s = .error fault ↔ r.place? s = none ∧ fault = .invalidRegister s := by
  rw [read, Check.map_eq_error, resolve_eq_error]

theorem place_lt {s : Selector} {i : Nat} (h : r.place? s = some i) : i < r.size := by
  cases s with
  | name n =>
    obtain ⟨hi, -⟩ := List.findIdx?_eq_some_iff_getElem.mp h
    exact hi
  | index w =>
    simp only [place?] at h
    split at h
    · split at h
      · rename_i n _ hn
        have hi : n.toNat = i := Option.some.inj h
        omega
      · cases h
    · cases h

theorem WellFormed.ipIndex_lt (hr : r.WellFormed) : r.ipIndex < r.size :=
  (List.getElem?_eq_some_iff.mp hr.ip_name).1

theorem shape_put (r : Registers) (i : Nat) (w : Word) : (r.put i w).shape = r.shape :=
  congrArg (Shape.mk r.names r.ipIndex r.kind) (r.bank.size_put i w)

theorem shape_clear (r : Registers) : r.clear.shape = r.shape :=
  congrArg (Shape.mk r.names r.ipIndex r.kind) r.bank.size_clear

theorem WellFormed.of_shape {s : Registers} (h : s.shape = r.shape) (hr : r.WellFormed) :
    s.WellFormed := by
  have hnames : s.names = r.names := congrArg (·.names) h
  have hindex : s.ipIndex = r.ipIndex := congrArg (·.ipIndex) h
  have hkind : s.kind = r.kind := congrArg (·.kind) h
  have hbytes : s.bank.bytes.size = r.bank.bytes.size := congrArg (·.bytes) h
  constructor
  · rw [hnames]
    exact hr.distinct
  · rw [hnames, hindex]
    exact hr.ip_name
  · rw [hbytes, size, hnames, hkind]
    exact hr.size_bytes

theorem place_name_inj {n m : String} {i : Nat} (hn : r.place? (.name n) = some i)
    (hm : r.place? (.name m) = some i) : n = m := by
  obtain ⟨hi, hx, -⟩ := List.findIdx?_eq_some_iff_getElem.mp hn
  obtain ⟨hi', hy, -⟩ := List.findIdx?_eq_some_iff_getElem.mp hm
  rw [← beq_iff_eq.mp hx, ← beq_iff_eq.mp hy]

theorem place_name_of_getElem (hr : r.WellFormed) {i : Nat} {n : String}
    (h : r.names[i]? = some n) : r.place? (.name n) = some i := by
  obtain ⟨hi, rfl⟩ := List.getElem?_eq_some_iff.mp h
  apply List.findIdx?_eq_some_iff_getElem.mpr
  refine ⟨hi, beq_self_eq_true _, fun j hj hb => ?_⟩
  exact List.pairwise_iff_getElem.mp hr.distinct j i (by omega) hi hj (beq_iff_eq.mp hb)

theorem place_ne_ip (hr : r.WellFormed) {n : String} (hn : n ≠ instructionPointer) {i : Nat}
    (h : r.place? (.name n) = some i) : i ≠ r.ipIndex := by
  rintro rfl
  exact hn (place_name_inj h (place_name_of_getElem hr hr.ip_name))

theorem exists_place_of_mem {n : String} (h : n ∈ r.names) : ∃ i, r.place? (.name n) = some i := by
  show ∃ i, r.names.idxOf? n = some i
  exact Option.isSome_iff_exists.mp (by simpa using h)

theorem create_eq_ok {kind : Kind} {names : List String} :
    create kind names = .ok r ↔ names.Nodup ∧ ∃ i, names.idxOf? instructionPointer = some i ∧
      r = ⟨names, Bank.zeroed kind names.length, i, none⟩ := by
  have hnodup : firstRepeat [] names = none ↔ names.Nodup := by simp [firstRepeat_eq_none]
  rw [create]
  cases hrepeat : firstRepeat [] names with
  | some n => simp [← hnodup, hrepeat]
  | none => cases names.idxOf? instructionPointer <;> simp [hnodup.mp hrepeat, eq_comm]

theorem create_iff (k : Kind) (names : List String) :
    (∃ r, create k names = .ok r) ↔ names.Nodup ∧ instructionPointer ∈ names := by
  have hmem : (∃ i, names.idxOf? instructionPointer = some i) ↔ instructionPointer ∈ names := by
    rw [← Option.isSome_iff_exists]
    simp
  rw [← hmem]
  constructor
  · rintro ⟨r, hr⟩
    obtain ⟨hnodup, i, hi, -⟩ := create_eq_ok.mp hr
    exact ⟨hnodup, i, hi⟩
  · rintro ⟨hnodup, i, hi⟩
    exact ⟨_, create_eq_ok.mpr ⟨hnodup, i, hi, rfl⟩⟩

theorem create_names {kind : Kind} {names : List String} (h : create kind names = .ok r) :
    r.names = names ∧ r.kind = kind := by
  obtain ⟨-, i, -, rfl⟩ := create_eq_ok.mp h
  exact ⟨rfl, rfl⟩

theorem create_bytes {kind : Kind} {names : List String} (h : create kind names = .ok r) :
    r.bank.bytes = Array.replicate r.bank.bytes.size 0 := by
  obtain ⟨-, i, -, rfl⟩ := create_eq_ok.mp h
  simp [Bank.zeroed]

theorem create_wellFormed {kind : Kind} {names : List String} (h : create kind names = .ok r) :
    r.WellFormed := by
  obtain ⟨hnodup, i, hi, rfl⟩ := create_eq_ok.mp h
  obtain ⟨hlt, hname, -⟩ := List.findIdx?_eq_some_iff_getElem.mp hi
  exact ⟨hnodup, List.getElem?_eq_some_iff.mpr ⟨hlt, beq_iff_eq.mp hname⟩, Bank.size_zeroed _ _⟩

end Registers

namespace Memory

variable {m : Memory}

structure Shape where
  capacity : Nat
  kind : Kind
  bytes : Nat

def shape (m : Memory) : Shape := ⟨m.capacity, m.kind, m.bytes.size⟩

theorem kind_of_shape {d : Memory} (h : d.shape = m.shape) : d.kind = m.kind := congrArg (·.kind) h

theorem capacity_of_shape {d : Memory} (h : d.shape = m.shape) : d.capacity = m.capacity :=
  congrArg (·.capacity) h

theorem WellFormed.of_shape {n : Memory} (h : n.shape = m.shape) (hm : m.WellFormed) :
    n.WellFormed := by
  have hbytes : n.bytes.size = m.bytes.size := congrArg (·.bytes) h
  rw [WellFormed, hbytes, capacity_of_shape h, kind_of_shape h, hm]

theorem shape_putBytes (m : Memory) (a : Nat) (bytes : List UInt8) :
    (m.putBytes a bytes).shape = m.shape :=
  congrArg (Shape.mk m.capacity m.kind) (m.bank.size_putBytes a bytes)

theorem shape_put (m : Memory) (a : Nat) (w : Word) : (m.put a w).shape = m.shape :=
  m.shape_putBytes a _

theorem writeRaw_shape {a : Nat} {bytes : List UInt8} {u : Update Memory Word}
    (h : m.writeRaw a bytes = .ok u) : u.store.shape = m.shape := by
  rw [writeRaw] at h
  split at h
  · cases h
  · simp only [Check.bind_eq_ok, Check.pure_eq_ok] at h
    obtain ⟨place, -, w, -, rfl⟩ := h
    exact m.shape_putBytes place bytes

theorem load_shape {start : Nat} {bytes : List UInt8} {u : Update Memory Nat}
    (h : m.load start bytes = .ok u) : u.store.shape = m.shape := by
  simp only [load] at h
  split at h <;> cases h
  exact m.shape_putBytes start bytes

theorem fill_shape {start stop : Nat} {w : Word} {u : Update Memory Unit}
    (h : m.fill start stop w = .ok u) : u.store.shape = m.shape := by
  simp only [fill] at h
  split at h
  · cases h
    rfl
  · split at h <;> cases h
    exact m.shape_putBytes start _

theorem WellFormed.read_eq_ok (hm : m.WellFormed) {a : Nat} (ha : a < m.capacity) :
    m.read a = .ok (m.bank.word a) := by
  have hc : m.check a = .ok a := Address.check_eq_ok.mpr ⟨rfl, ha⟩
  rw [read, hc]
  exact m.bank.read_eq_ok a (m.bank.word_lies_in ha hm)

end Memory

def Write.index? : Write → Option Nat
  | .register i _ => some i
  | .memory _ _ => none

def Write.address? : Write → Option Nat
  | .register _ _ => none
  | .memory a _ => some a

def Event.isRegister : Event → Bool
  | .register .. => true
  | .memory .. => false

namespace Core

variable {c d : Core}

def shape (c : Core) : Registers.Shape × Memory.Shape := (c.registers.shape, c.memory.shape)

/-- Registers and memory have the bytes their names and addresses ask for. -/
structure WellFormed (c : Core) : Prop where
  registers : c.registers.WellFormed
  memory : c.memory.WellFormed

section SameShape

variable (h : d.shape = c.shape)
include h

theorem names_of_shape : d.registers.names = c.registers.names := congrArg (·.1.names) h

theorem ipIndex_of_shape : d.registers.ipIndex = c.registers.ipIndex := congrArg (·.1.ipIndex) h

theorem kind_of_shape : d.registers.kind = c.registers.kind := congrArg (·.1.kind) h

theorem size_of_shape : d.registers.size = c.registers.size :=
  congrArg List.length (names_of_shape h)

theorem capacity_of_shape : d.memory.capacity = c.memory.capacity := congrArg (·.2.capacity) h

theorem place_of_shape (s : Selector) : d.registers.place? s = c.registers.place? s := by
  unfold Registers.place? Registers.indexOf? Registers.size
  rw [names_of_shape h]

theorem registers_of_shape (hc : c.registers.WellFormed) : d.registers.WellFormed :=
  hc.of_shape (congrArg Prod.fst h)

theorem memory_of_shape (hc : c.memory.WellFormed) : d.memory.WellFormed :=
  hc.of_shape (congrArg Prod.snd h)

theorem WellFormed.of_shape (hc : c.WellFormed) : d.WellFormed :=
  ⟨registers_of_shape h hc.registers, memory_of_shape h hc.memory⟩

end SameShape

theorem store_shape (c : Core) (w : Write) : (c.store w).shape = c.shape := by
  cases w with
  | register i v => exact congrArg (·, c.memory.shape) (c.registers.shape_put i v)
  | memory a v => exact congrArg (c.registers.shape, ·) (c.memory.shape_put a v)

theorem store_register_memory (c : Core) (i : Nat) (w : Word) :
    (c.store (.register i w)).memory = c.memory := rfl

theorem storeAll_shape (c : Core) (ws : List Write) : (c.storeAll ws).shape = c.shape := by
  induction ws generalizing c with
  | nil => rfl
  | cons w ws ih => exact (ih _).trans (c.store_shape w)

theorem readNamed_of_cell {n : String} (hs : d.shape = c.shape)
    (h : ∀ i, c.registers.place? (.name n) = some i → d.registers.cell i = c.registers.cell i) :
    d.readNamed n = c.readNamed n := by
  rw [readNamed, readNamed, Registers.read, Registers.read, Registers.resolve, Registers.resolve,
    place_of_shape hs]
  cases hplace : c.registers.place? (.name n) with
  | none => rfl
  | some i => exact congrArg Except.ok (Registers.word_of_cell (kind_of_shape hs) (h i hplace))

theorem readNamed_store (hc : c.registers.WellFormed) {n : String} {i : Nat}
    (hi : c.registers.place? (.name n) = some i) (w : Word) :
    (c.store (.register i w)).readNamed n = .ok (c.kind.coerce w) :=
  Registers.read_eq_ok.mpr ⟨i, (place_of_shape (c.store_shape _) _).trans hi,
    Registers.word_put hc (Registers.place_lt hi) w⟩

theorem storeAll_cell (c : Core) (ws : List Write) {i : Nat} (h : ∀ w ∈ ws, w.index? ≠ some i) :
    (c.storeAll ws).registers.cell i = c.registers.cell i := by
  induction ws generalizing c with
  | nil => rfl
  | cons w ws ih =>
    have hw := h w (by simp)
    refine (ih (c.store w) (fun v hv => h v (by simp [hv]))).trans ?_
    cases w with
    | register j v => exact c.registers.cell_put_ne v (fun hij => hw (by simp [Write.index?, hij]))
    | memory a v => rfl

theorem storeAll_byte (c : Core) (ws : List Write) {k : Nat}
    (h : ∀ w ∈ ws, ∀ a, w.address? = some a →
      k < a * c.memory.kind.byteWidth ∨ (a + 1) * c.memory.kind.byteWidth ≤ k) :
    (c.storeAll ws).memory.bytes[k]? = c.memory.bytes[k]? := by
  induction ws generalizing c with
  | nil => rfl
  | cons w ws ih =>
    have hk : (c.store w).memory.kind = c.memory.kind := congrArg (·.2.kind) (c.store_shape w)
    refine (ih (c.store w) (fun v hv => hk ▸ h v (by simp [hv]))).trans ?_
    cases w with
    | register j v => rfl
    | memory a v => exact c.memory.bank.bytes_put_frame a v k (h _ List.mem_cons_self a rfl)

theorem storeAll_memory (c : Core) (ws : List Write) (h : ∀ w ∈ ws, w.address? = none) :
    (c.storeAll ws).memory = c.memory := by
  induction ws generalizing c with
  | nil => rfl
  | cons w ws ih =>
    refine (ih (c.store w) (fun v hv => h v (by simp [hv]))).trans ?_
    cases w with
    | register j v => rfl
    | memory a v => cases h _ List.mem_cons_self

theorem storeAll_events (c : Core) (ws : List Write) (h : ∀ w ∈ ws, w.address? = none) :
    ∃ events : List Event, (c.storeAll ws).log.toList = c.log.toList ++ events ∧
      ∀ e ∈ events, e.isRegister := by
  induction ws generalizing c with
  | nil => exact ⟨[], by simp [storeAll], by simp⟩
  | cons w ws ih =>
    obtain ⟨events, hlog, hevents⟩ := ih (c.store w) (fun v hv => h v (by simp [hv]))
    cases w with
    | memory a v => cases h _ List.mem_cons_self
    | register i v =>
      refine ⟨(c.registers.put i v).report i ++ events, ?_, ?_⟩
      · refine hlog.trans ?_
        rw [← List.append_assoc]
        congr 1
        exact Array.toList_appendList
      · intro e he
        rcases List.mem_append.mp he with hr | hr
        · simp only [Registers.report] at hr
          split at hr <;> simp_all [Event.isRegister]
        · exact hevents e hr

end Core

end WordMachine
