import WordMachine.Proofs.History
import WordMachine.Proofs.RoundTrip

/-!
# Offsets and slices

Registers and memory reach their buffers at offsets that are calculated. Where that could go wrong,
the definitions that run make do: offsets have no bound, a slice goes as far as the buffer does,
what is written past its end is dropped, and no number stands in for bytes that are not those of a
word. Here the same calls are made step by step so that any of this makes them fail, and are shown
to come to the same on every buffer of the right size.
-/

set_option autoImplicit false

namespace WordMachine

/-- Goes on after a check with steps that may be impossible. -/
def Check.andThen? {α β : Type} (x : Except Fault α) (f : α → Option β) : Option (Except Fault β) :=
  match x with
  | .ok a => (f a).map .ok
  | .error fault => some (.error fault)

theorem Check.andThen?_eq {α β : Type} {x : Except Fault α} {f : α → Option β} {g : α → β}
    (h : ∀ a, x = .ok a → f a = some (g a)) : andThen? x f = some (x.map g) := by
  cases x with
  | ok a => rw [andThen?, h a rfl]; rfl
  | error fault => rfl

namespace Address

def sum? (m n : Nat) : Option Nat := if m + n < limit then some (m + n) else none

def product? (m n : Nat) : Option Nat := if m * n < limit then some (m * n) else none

theorem sum?_eq {m n : Nat} (h : m + n < 2 ^ 63) : sum? m n = some (m + n) :=
  if_pos (Nat.lt_trans h (by decide))

theorem product?_eq {m n : Nat} (h : m * n < 2 ^ 63) : product? m n = some (m * n) :=
  if_pos (Nat.lt_trans h (by decide))

end Address

namespace Bank

variable {b : Bank}

def slice? (b : Bank) (lo hi : Nat) : Option (List UInt8) :=
  if lo ≤ hi ∧ hi ≤ b.bytes.size then some (b.bytes.extract lo hi).toList else none

def copy? (b : Bank) (lo hi : Nat) (bytes : List UInt8) : Option Bank :=
  if lo ≤ hi ∧ hi ≤ b.bytes.size ∧ bytes.length = hi - lo then
    some { b with bytes := Bytes.splice b.bytes lo bytes }
  else none

def offsets? (b : Bank) (start stop : Nat) : Option (Nat × Nat) := do
  let lo ← Address.product? start b.kind.byteWidth
  let hi ← Address.product? stop b.kind.byteWidth
  return (lo, hi)

def ends? (b : Bank) (i : Nat) : Option (Nat × Nat) := do
  let next ← Address.sum? i 1
  b.offsets? i next

def word? (b : Bank) (i : Nat) : Option Word := do
  let (lo, hi) ← b.ends? i
  let bytes ← b.slice? lo hi
  (b.kind.decode bytes).toOption

def put? (b : Bank) (i : Nat) (w : Word) : Option Bank := do
  let (lo, hi) ← b.ends? i
  let bytes ← (b.kind.encodeInto w (hi - lo)).toOption
  b.copy? lo hi bytes

/-- A buffer that is there has fewer bytes than a machine word with a sign counts. -/
def Allocated (b : Bank) : Prop := b.bytes.size < 2 ^ 63

/-- A buffer of zeros, if its size can be calculated and is not too large for one. -/
def zeroed? (kind : Kind) (words : Nat) : Option Bank := do
  let size ← Address.product? words kind.byteWidth
  if size < 2 ^ 63 then some ⟨kind, Array.replicate size 0⟩ else none

theorem zeroed?_eq_some {kind : Kind} {words : Nat} :
    zeroed? kind words = some b ↔ b = zeroed kind words ∧ b.Allocated := by
  have hiff : (zeroed kind words).Allocated ↔ words * kind.byteWidth < 2 ^ 63 := by
    rw [Allocated, size_zeroed]
  constructor
  · intro h
    obtain ⟨size, hproduct, h⟩ := Option.bind_eq_some_iff.mp h
    obtain ⟨-, hsize⟩ := Option.ite_none_right_eq_some.mp hproduct
    obtain ⟨hbound, h⟩ := Option.ite_none_right_eq_some.mp h
    cases hsize
    cases h
    exact ⟨rfl, hiff.mpr hbound⟩
  · rintro ⟨rfl, ha⟩
    have hbound := hiff.mp ha
    rw [zeroed?, Address.product?_eq hbound, Option.bind_eq_bind, Option.bind_some, if_pos hbound]
    rfl

theorem slice?_eq {lo hi : Nat} (hle : lo ≤ hi) (hhi : hi ≤ b.bytes.size) :
    b.slice? lo hi = some (b.bytes.extract lo hi).toList := if_pos ⟨hle, hhi⟩

theorem copy?_eq {i hi : Nat} {bytes : List UInt8} (h : hi = i * b.kind.byteWidth + bytes.length)
    (hhi : hi ≤ b.bytes.size) :
    b.copy? (i * b.kind.byteWidth) hi bytes = some (b.putBytes i bytes) :=
  if_pos ⟨by omega, hhi, by omega⟩

section

variable (hb : b.Allocated)
include hb

theorem offset?_eq {i : Nat} (hi : i * b.kind.byteWidth ≤ b.bytes.size) :
    Address.product? i b.kind.byteWidth = some (i * b.kind.byteWidth) :=
  Address.product?_eq (Nat.lt_of_le_of_lt hi hb)

theorem offsets?_eq {start stop : Nat} (hle : start ≤ stop)
    (hstop : stop * b.kind.byteWidth ≤ b.bytes.size) :
    b.offsets? start stop = some (start * b.kind.byteWidth, stop * b.kind.byteWidth) := by
  have hstart := Nat.le_trans (Nat.mul_le_mul_right b.kind.byteWidth hle) hstop
  rw [offsets?, offset?_eq hb hstart, offset?_eq hb hstop]
  rfl

variable {i : Nat} (hi : (i + 1) * b.kind.byteWidth ≤ b.bytes.size)
include hi

theorem ends?_eq : b.ends? i = some (i * b.kind.byteWidth, (i + 1) * b.kind.byteWidth) := by
  have hsize : b.bytes.size < 2 ^ 63 := hb
  have hplace : i + 1 ≤ (i + 1) * b.kind.byteWidth := Nat.le_mul_of_pos_right _ b.kind.byteWidth_pos
  rw [ends?, Address.sum?_eq (by omega)]
  exact offsets?_eq hb (Nat.le_succ i) hi

theorem word?_eq : b.word? i = some (b.word i) := by
  have hle := Nat.mul_le_mul_right b.kind.byteWidth (Nat.le_succ i)
  have hread : b.kind.decode (b.bytes.extract (i * b.kind.byteWidth) ((i + 1) * b.kind.byteWidth)).toList
      = .ok (b.word i) := b.read_eq_ok i hi
  simp only [word?, ends?_eq hb hi, Option.bind_eq_bind, Option.bind_some, slice?_eq hle hi, hread]
  rfl

theorem put?_eq (w : Word) : b.put? i w = some (b.put i w) := by
  have hlength := b.kind.length_encode w
  have hwidth : (i + 1) * b.kind.byteWidth - i * b.kind.byteWidth = b.kind.byteWidth := by
    rw [Nat.succ_mul]; omega
  have hinto : b.kind.encodeInto w b.kind.byteWidth = .ok (b.kind.encode w) := if_pos rfl
  simp only [put?, ends?_eq hb hi, Option.bind_eq_bind, Option.bind_some, hwidth, hinto,
    Except.toOption]
  exact copy?_eq (by rw [hlength, Nat.succ_mul]) hi

end

end Bank

namespace Registers

variable {r : Registers}

def update? (r : Registers) (i : Nat) (w : Word) : Option (Update Registers Word) := do
  let bank ← r.bank.put? i w
  let stored ← bank.word? i
  let changed := { r with bank := bank }
  return ⟨stored, changed, changed.report i⟩

/-- The place a selector picks if the number of names is compared as a word, as a capacity is. -/
def placeByWord? (r : Registers) : Selector → Option Nat
  | .name n => r.indexOf? n
  | .index w => (Address.ofWord w r.size).toOption

def resolveByWord (r : Registers) (s : Selector) : Except Fault Nat :=
  match r.placeByWord? s with
  | some i => .ok i
  | none => .error (.invalidRegister s)

def read? (r : Registers) (s : Selector) : Option (Except Fault Word) :=
  Check.andThen? (r.resolveByWord s) r.bank.word?

def write? (r : Registers) (s : Selector) (w : Word) :
    Option (Except Fault (Update Registers Word)) :=
  Check.andThen? (r.resolveByWord s) (r.update? · w)

def setIp? (r : Registers) (w : Word) : Option (Except Fault (Update Registers Word)) :=
  r.write? (.index (Word.ofNat r.ipIndex)) w

def words? (r : Registers) : Option (List Word) := (List.range r.size).mapM r.bank.word?

/-- A list of so many names would take more bytes than an address space has. -/
structure Allocated (r : Registers) : Prop where
  names : r.size ≤ 2 ^ 53
  bank : r.bank.Allocated

theorem Allocated.of_shape {q : Registers} (h : q.shape = r.shape) (ha : r.Allocated) :
    q.Allocated where
  names := Nat.le_trans (Nat.le_of_eq (congrArg (·.names.length) h)) ha.names
  bank := Nat.lt_of_le_of_lt (Nat.le_of_eq (congrArg (·.bytes) h)) ha.bank

theorem placeByWord?_eq (ha : r.Allocated) (s : Selector) : r.placeByWord? s = r.place? s := by
  cases s with
  | name n => rfl
  | index w =>
    rw [placeByWord?, place?, Address.ofWord, Address.bound_eq_self ha.names]
    cases w.floor? with
    | none => rfl
    | some n =>
      by_cases h : 0 ≤ n ∧ n < r.size
      · simp only [if_pos h, Except.toOption]
      · simp only [if_neg h, Except.toOption]

theorem resolveByWord_eq (ha : r.Allocated) (s : Selector) : r.resolveByWord s = r.resolve s := by
  rw [resolveByWord, placeByWord?_eq ha]
  rfl

theorem place_ofNat (ha : r.Allocated) {i : Nat} (hi : i < r.size) :
    r.place? (.index (Word.ofNat i)) = some i := by
  have hnames := ha.names
  have hfloor := Word.floor_of_integer? (Word.integer?_ofNat (n := i) (by omega))
  rw [place?, hfloor]
  exact if_pos ⟨by omega, by omega⟩

section

variable (hr : r.WellFormed) (ha : r.Allocated)
include hr ha

theorem word?_eq {i : Nat} (hi : i < r.size) : r.bank.word? i = some (r.word i) :=
  Bank.word?_eq ha.bank (r.bank.word_lies_in hi hr.size_bytes)

theorem update?_eq {i : Nat} (hi : i < r.size) (w : Word) : r.update? i w = some (r.update i w) := by
  have hput : r.bank.put? i w = some (r.put i w).bank :=
    Bank.put?_eq ha.bank (r.bank.word_lies_in hi hr.size_bytes) w
  have hs := r.shape_put i w
  have hstored : (r.put i w).bank.word? i = some ((r.put i w).word i) :=
    word?_eq (hr.of_shape hs) (ha.of_shape hs) hi
  rw [update?, hput, Option.bind_eq_bind, Option.bind_some, hstored]
  rfl

theorem read?_eq (s : Selector) : r.read? s = some (r.read s) := by
  rw [read?, resolveByWord_eq ha]
  exact Check.andThen?_eq fun _ hi => word?_eq hr ha (place_lt (resolve_eq_ok.mp hi))

theorem write?_eq (s : Selector) (w : Word) : r.write? s w = some (r.write s w) := by
  rw [write?, resolveByWord_eq ha]
  exact Check.andThen?_eq fun _ hi => update?_eq hr ha (place_lt (resolve_eq_ok.mp hi)) w

theorem setIp?_eq (w : Word) : r.setIp? w = some (.ok (r.setIp w)) := by
  have hip := resolve_eq_ok.mpr (place_ofNat ha hr.ipIndex_lt)
  rw [setIp?, write?_eq hr ha, write, hip]
  rfl

theorem words?_eq : r.words? = some r.words :=
  mapM_eq_map fun _ hi => word?_eq hr ha (List.mem_range.mp hi)

end

def call? (r : Registers) : RegisterCall → Option (Except Fault (Update Registers Answer))
  | .write s w => (r.write? s w).map (·.map (Update.map .word))
  | .setIp w => (r.setIp? w).map (·.map (Update.map .word))
  | .clear => some (.ok ⟨.done, r.clear, []⟩)
  | .observe tag => some (.ok ⟨.done, r.observe tag, []⟩)

theorem call?_eq (hr : r.WellFormed) (ha : r.Allocated) (call : RegisterCall) :
    r.call? call = some (call.apply r) := by
  cases call with
  | write s w => rw [call?, write?_eq hr ha]; rfl
  | setIp w => rw [call?, setIp?_eq hr ha]; rfl
  | clear => rfl
  | observe tag => rfl

end Registers

namespace Memory

variable {m : Memory}

def changed (m : Memory) (bank : Bank) (start stop : Nat) : Update Memory Unit :=
  let changed := { m with bank := bank }
  ⟨(), changed, changed.report start stop⟩

def read? (m : Memory) (address : Nat) : Option (Except Fault Word) :=
  Check.andThen? (m.check address) m.bank.word?

def words? (m : Memory) (start stop : Nat) : Option (Except Fault (List Word)) :=
  if m.capacity < stop then some (.error (Address.fault stop m.capacity))
  else ((List.range' start (stop - start)).mapM m.read?).map (·.mapM id)

def write? (m : Memory) (address : Nat) (w : Word) : Option (Except Fault (Update Memory Unit)) :=
  Check.andThen? (m.check address) fun a => do
    let bank ← m.bank.put? a w
    return m.changed bank a a

def writeRaw? (m : Memory) (address : Nat) (bytes : List UInt8) :
    Option (Except Fault (Update Memory Word)) :=
  if bytes.length ≠ m.kind.byteWidth then
    some (.error (.sizeMismatch m.kind.byteWidth bytes.length))
  else
    Check.andThen? (m.check address) fun a => do
      let (lo, hi) ← m.bank.ends? a
      let bank ← m.bank.copy? lo hi bytes
      let stored ← bank.word? a
      return (m.changed bank a a).map fun _ => stored

def load? (m : Memory) (start : Nat) (bytes : List UInt8) :
    Option (Except Fault (Update Memory Nat)) :=
  if m.capacity < start then some (.error (Address.fault start m.capacity))
  else
    match Address.spanEnd start bytes.length m.kind.byteWidth with
    | none => some (.error (Address.fault start m.capacity))
    | some stop =>
      if stop ≤ m.capacity then do
        let lo ← Address.product? start m.kind.byteWidth
        let hi ← Address.sum? lo bytes.length
        let bank ← m.bank.copy? lo hi bytes
        return .ok ((m.changed bank start stop).map fun _ => stop)
      else some (.error (Address.fault start m.capacity))

def fill? (m : Memory) (start stop : Nat) (w : Word) : Option (Except Fault (Update Memory Unit)) :=
  if stop ≤ start then some (.ok ⟨(), m, []⟩)
  else if m.capacity < stop then some (.error (Address.fault stop m.capacity))
  else do
    let (lo, hi) ← m.bank.offsets? start stop
    let bank ← m.bank.copy? lo hi (m.kind.encodeWords (List.replicate (stop - start) w))
    return .ok (m.changed bank start stop)

def Allocated (m : Memory) : Prop := m.bank.Allocated

def create? (kind : Kind) (capacity : Nat) : Option Memory :=
  (Bank.zeroed? kind capacity).map fun bank => ⟨capacity, bank, none⟩

/-- A memory can be made just when there can be a buffer for all its words. -/
theorem create?_eq_some {kind : Kind} {capacity : Nat} :
    create? kind capacity = some m ↔ m = create kind capacity ∧ m.Allocated := by
  rw [create?, Option.map_eq_some_iff]
  constructor
  · rintro ⟨bank, hbank, rfl⟩
    obtain ⟨rfl, ha⟩ := Bank.zeroed?_eq_some.mp hbank
    exact ⟨rfl, ha⟩
  · rintro ⟨rfl, ha⟩
    exact ⟨_, Bank.zeroed?_eq_some.mpr ⟨rfl, ha⟩, rfl⟩

theorem Allocated.of_shape {n : Memory} (h : n.shape = m.shape) (ha : m.Allocated) : n.Allocated :=
  Nat.lt_of_le_of_lt (Nat.le_of_eq (congrArg (·.bytes) h)) ha

theorem check_lt {a b : Nat} (h : m.check a = .ok b) : b < m.capacity := by
  obtain ⟨rfl, hlt⟩ := Address.check_eq_ok.mp h
  exact hlt

section

variable (hm : m.WellFormed)
include hm

theorem read_eq_map (a : Nat) : m.read a = (m.check a).map m.bank.word := by
  rw [read]
  cases h : m.check a with
  | error fault => rfl
  | ok a' =>
    obtain ⟨rfl, hlt⟩ := Address.check_eq_ok.mp h
    exact m.bank.read_eq_ok a' (m.bank.word_lies_in hlt hm)

theorem writeRaw_eq_map {bytes : List UInt8} (h : bytes.length = m.kind.byteWidth) (a : Nat) :
    m.writeRaw a bytes = (m.check a).map fun b =>
      ⟨(m.putBytes b bytes).bank.word b, m.putBytes b bytes, (m.putBytes b bytes).report b b⟩ := by
  rw [writeRaw, if_neg (not_not_intro h)]
  cases hb : m.check a with
  | error fault => rfl
  | ok b =>
    have hread := (hm.of_shape (m.shape_putBytes b bytes)).read_eq_ok (check_lt hb)
    show ((m.putBytes b bytes).read b >>= _) = _
    rw [hread]
    rfl

variable (ha : m.Allocated)
include ha

theorem capacity_lt : m.capacity < Address.limit := by
  have hbound : m.bank.bytes.size < 2 ^ 63 := ha
  have hcapacity : m.capacity ≤ m.bank.bytes.size :=
    hm ▸ Nat.le_mul_of_pos_right _ m.kind.byteWidth_pos
  simp only [Address.limit]
  omega

theorem word?_eq {a : Nat} (h : a < m.capacity) : m.bank.word? a = some (m.bank.word a) :=
  Bank.word?_eq ha (m.bank.word_lies_in h hm)

theorem read?_eq (a : Nat) : m.read? a = some (m.read a) := by
  rw [read_eq_map hm]
  exact Check.andThen?_eq fun _ hb => word?_eq hm ha (check_lt hb)

theorem words?_eq (start stop : Nat) : m.words? start stop = some (m.words start stop) := by
  rw [words?, words]
  split
  · rfl
  · have hread : (List.range' start (stop - start)).mapM m.read? =
        some ((List.range' start (stop - start)).map m.read) :=
      mapM_eq_map fun a _ => read?_eq hm ha a
    rw [hread, Option.map_some, List.mapM_map]
    rfl

theorem write?_eq (a : Nat) (w : Word) : m.write? a w = some (m.write a w) := by
  apply Check.andThen?_eq
  intro b hb
  rw [Bank.put?_eq ha (m.bank.word_lies_in (check_lt hb) hm)]
  rfl

theorem writeRaw?_eq (a : Nat) (bytes : List UInt8) :
    m.writeRaw? a bytes = some (m.writeRaw a bytes) := by
  by_cases hlength : bytes.length = m.kind.byteWidth
  · rw [writeRaw_eq_map hm hlength, writeRaw?, if_neg (not_not_intro hlength)]
    apply Check.andThen?_eq
    intro b hb
    have hplace := m.bank.word_lies_in (check_lt hb) hm
    have hspan : (b + 1) * m.bank.kind.byteWidth = b * m.bank.kind.byteWidth + bytes.length := by
      rw [hlength, Nat.succ_mul, kind]
    have hs := m.shape_putBytes b bytes
    have hstored := word?_eq (hm.of_shape hs) (ha.of_shape hs) (check_lt hb)
    rw [Bank.ends?_eq ha hplace]
    show (m.bank.copy? _ _ _).bind _ = _
    rw [Bank.copy?_eq hspan hplace]
    show ((m.putBytes b bytes).bank.word? b).bind _ = _
    rw [hstored]
    rfl
  · rw [writeRaw?, writeRaw, if_pos hlength, if_pos hlength]
    rfl

theorem load?_eq (start : Nat) (bytes : List UInt8) :
    m.load? start bytes = some (m.load start bytes) := by
  have hle := (afterBytes_fits start bytes.length m.kind.byteWidth_pos).1
  have hlies := bytes_lie_in hm start bytes
  rw [load?, load, Address.spanEnd]
  generalize Address.afterBytes start bytes.length m.kind.byteWidth = stop at hle hlies
  have hcapacity : m.capacity < Address.limit := capacity_lt hm ha
  by_cases hstop : stop ≤ m.capacity
  · have hsize : start * m.bank.kind.byteWidth + bytes.length ≤ m.bank.bytes.size := hlies hstop
    simp only [if_neg (show ¬ m.capacity < start by omega), if_pos (Nat.lt_of_le_of_lt hstop hcapacity),
      if_pos hstop]
    show (Address.product? start m.bank.kind.byteWidth).bind _ = _
    rw [Bank.offset?_eq ha (Nat.le_trans (Nat.le_add_right _ _) hsize)]
    show (Address.sum? _ _).bind _ = _
    rw [Address.sum?_eq (Nat.lt_of_le_of_lt hsize ha)]
    show (m.bank.copy? _ _ _).bind _ = _
    rw [Bank.copy?_eq rfl hsize]
    rfl
  · rw [if_neg hstop]
    by_cases hstart : m.capacity < start
    · rw [if_pos hstart]
    · rw [if_neg hstart]
      by_cases hlimit : stop < Address.limit
      · simp only [if_pos hlimit, if_neg hstop]
      · simp only [if_neg hlimit]

theorem fill?_eq (start stop : Nat) (w : Word) :
    m.fill? start stop w = some (m.fill start stop w) := by
  rw [fill?, fill]
  split
  · rfl
  · split
    · rfl
    · rename_i hstart hstop
      have hsize : stop * m.bank.kind.byteWidth ≤ m.bank.bytes.size :=
        Nat.le_trans (Nat.mul_le_mul_right _ (by omega)) (Nat.le_of_eq hm.symm)
      have hspan : stop * m.bank.kind.byteWidth = start * m.bank.kind.byteWidth +
          (m.kind.encodeWords (List.replicate (stop - start) w)).length := by
        rw [Kind.length_encodeWords, List.length_replicate, kind, ← Nat.add_mul]
        congr 1
        omega
      rw [Bank.offsets?_eq ha (by omega) hsize]
      show (m.bank.copy? _ _ _).bind _ = _
      rw [Bank.copy?_eq hspan hsize]
      rfl

end

def call? (m : Memory) : MemoryCall → Option (Except Fault (Update Memory Answer))
  | .write a w => (m.write? a w).map (·.map (Update.map fun _ => .done))
  | .writeRaw a bytes => (m.writeRaw? a bytes).map (·.map (Update.map .word))
  | .load start bytes => (m.load? start bytes).map (·.map (Update.map .address))
  | .loadWords start ws =>
    (m.load? start (m.kind.encodeWords ws)).map (·.map (Update.map .address))
  | .fill start stop w => (m.fill? start stop w).map (·.map (Update.map fun _ => .done))
  | .clear => some (.ok ⟨.done, m.clear, []⟩)
  | .observe tag => some (.ok ⟨.done, m.observe tag, []⟩)

theorem call?_eq (hm : m.WellFormed) (ha : m.Allocated) (call : MemoryCall) :
    m.call? call = some (call.apply m) := by
  cases call with
  | write a w => rw [call?, write?_eq hm ha]; rfl
  | writeRaw a bytes => rw [call?, writeRaw?_eq hm ha]; rfl
  | load start bytes => rw [call?, load?_eq hm ha]; rfl
  | loadWords start ws => rw [call?, load?_eq hm ha]; rfl
  | fill start stop w => rw [call?, fill?_eq hm ha]; rfl
  | clear => rfl
  | observe tag => rfl

end Memory

namespace Core

variable {c d : Core}

def store? (c : Core) : Write → Option Core
  | .register i w => do
    let u ← c.registers.update? i w
    return { c with registers := u.store, log := c.log ++ u.events }
  | .memory a w => do
    let bank ← c.memory.bank.put? a w
    let u := c.memory.changed bank a a
    return { c with memory := u.store, log := c.log ++ u.events }

def storeAll? (c : Core) (ws : List Write) : Option Core := ws.foldlM store? c

structure Allocated (c : Core) : Prop where
  registers : c.registers.Allocated
  memory : c.memory.Allocated

theorem Allocated.of_shape (h : d.shape = c.shape) (ha : c.Allocated) : d.Allocated where
  registers := ha.registers.of_shape (congrArg Prod.fst h)
  memory := ha.memory.of_shape (congrArg Prod.snd h)

theorem store?_eq (hc : c.WellFormed) (ha : c.Allocated) {w : Write} (hw : w.LiesIn c) :
    c.store? w = some (c.store w) := by
  cases w with
  | register i w =>
    rw [store?, Registers.update?_eq hc.registers ha.registers hw]
    rfl
  | memory a w =>
    rw [store?, Bank.put?_eq ha.memory (c.memory.bank.word_lies_in hw hc.memory)]
    rfl

theorem storeAll?_eq (hc : c.WellFormed) (ha : c.Allocated) {ws : List Write}
    (hws : ∀ w ∈ ws, w.LiesIn c) : c.storeAll? ws = some (c.storeAll ws) := by
  induction ws generalizing c with
  | nil => rfl
  | cons w ws ih =>
    have hs := c.store_shape w
    have hrest : ∀ v ∈ ws, v.LiesIn (c.store w) := fun v hv =>
      liesIn_of_shape hs.symm (hws v (List.mem_cons_of_mem w hv))
    rw [storeAll?, List.foldlM_cons, store?_eq hc ha (hws w List.mem_cons_self)]
    exact ih (hc.of_shape hs) (ha.of_shape hs) hrest

end Core

end WordMachine
