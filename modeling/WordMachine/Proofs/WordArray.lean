import WordMachine.Proofs.Image
import WordMachine.Proofs.Representation

/-!
# Memory as an array

The buffer of a memory stands for an array with one word for every address below the capacity. A
call that is let in stores words at the addresses it touches, and one that is refused leaves the
array as it is. So after any session, what is read is what the same calls make of an array of zeros.
-/

set_option autoImplicit false

namespace WordMachine

def overlay (cells : Nat → Word) (start : Nat) (ws : List Word) : Nat → Word :=
  fun i => if start ≤ i then ws[i - start]?.getD (cells i) else cells i

theorem overlay_nil (cells : Nat → Word) (start : Nat) : overlay cells start [] = cells := by
  funext i
  simp only [overlay, List.getElem?_nil, Option.getD_none, ite_self]

theorem overlay_singleton (cells : Nat → Word) (start : Nat) (w : Word) :
    overlay cells start [w] = fun i => if i = start then w else cells i := by
  funext i
  rcases Nat.lt_trichotomy i start with hlt | rfl | hgt
  · rw [overlay, if_neg (by omega), if_neg (by omega)]
  · simp [overlay]
  · rw [overlay, if_pos (by omega), if_neg (by omega), List.getElem?_eq_none (by simp; omega)]
    rfl

theorem overlay_cons (cells : Nat → Word) (start : Nat) (w : Word) (ws : List Word) :
    overlay cells start (w :: ws) = overlay (overlay cells start [w]) (start + 1) ws := by
  funext i
  rw [overlay_singleton, overlay, overlay]
  rcases Nat.lt_trichotomy i start with hlt | rfl | hgt
  · rw [if_neg (by omega), if_neg (by omega), if_neg (by omega)]
  · rw [if_pos (Nat.le_refl i), if_neg (by omega), if_pos rfl, Nat.sub_self]
    rfl
  · have hnext : i - start = i - (start + 1) + 1 := by omega
    rw [if_pos (by omega), if_pos (by omega), if_neg (by omega), hnext, List.getElem?_cons_succ]

theorem overlay_replicate (cells : Nat → Word) (start count : Nat) (w : Word) :
    overlay cells start (List.replicate count w) =
      fun i => if start ≤ i ∧ i < start + count then w else cells i := by
  funext i
  by_cases hlow : start ≤ i
  · by_cases hhigh : i < start + count
    · rw [overlay, if_pos hlow, if_pos ⟨hlow, hhigh⟩, List.getElem?_replicate, if_pos (by omega)]
      rfl
    · rw [overlay, if_pos hlow, if_neg (by omega), List.getElem?_replicate, if_neg (by omega)]
      rfl
  · rw [overlay, if_neg hlow, if_neg (by omega)]

namespace MemoryCall

def assign (k : Kind) (cells : Nat → Word) : MemoryCall → Nat → Word
  | write a w => fun i => if i = a then k.coerce w else cells i
  | writeRaw a bytes => fun i => if i = a then k.ofPattern (Bytes.toNat bytes) else cells i
  | load start bytes => overlay cells start (k.decodeWords bytes)
  | loadWords start ws => overlay cells start (ws.map k.coerce)
  | fill start stop w => fun i => if start ≤ i ∧ i < stop then k.coerce w else cells i
  | clear => fun _ => Word.zero false
  | observe _ => cells

/-- The call asks for the word at an address to be stored; a clear takes what there is. -/
def Touches (k : Kind) (i : Nat) : MemoryCall → Prop
  | write a _ | writeRaw a _ => i = a
  | load start bytes => start ≤ i ∧ i < start + bytes.length / k.byteWidth
  | loadWords start ws => start ≤ i ∧ i < start + ws.length
  | fill start stop _ => start ≤ i ∧ i < stop
  | clear | observe _ => False

def Sized (k : Kind) : MemoryCall → Prop
  | writeRaw _ bytes => bytes.length = k.byteWidth
  | _ => True

def Begins (k : Kind) (capacity : Nat) : MemoryCall → Prop
  | load start bytes => bytes.length / k.byteWidth = 0 → start ≤ capacity
  | loadWords start ws => ws = [] → start ≤ capacity
  | _ => True

/-- A call that succeeds: no address that it touches is out of bounds. -/
structure Admitted (k : Kind) (capacity : Nat) (call : MemoryCall) : Prop where
  inside : ∀ i, call.Touches k i → i < capacity
  sized : call.Sized k
  begins : call.Begins k capacity

def fits (k : Kind) (capacity : Nat) : MemoryCall → Bool
  | write a _ => a < capacity
  | writeRaw a bytes => a < capacity ∧ bytes.length = k.byteWidth
  | load start bytes => start + bytes.length / k.byteWidth ≤ capacity
  | loadWords start ws => start + ws.length ≤ capacity
  | fill start stop _ => stop ≤ start ∨ stop ≤ capacity
  | clear | observe _ => true

/-- Bytes that are loaded make up whole words. -/
def Whole (k : Kind) : MemoryCall → Prop
  | load _ bytes => k.byteWidth ∣ bytes.length
  | _ => True

theorem stretch_inside {start count capacity : Nat} :
    (∀ i, start ≤ i ∧ i < start + count → i < capacity) ∧ (count = 0 → start ≤ capacity) ↔
      start + count ≤ capacity := by
  constructor
  · rintro ⟨hinside, hbegins⟩
    cases count with
    | zero => exact hbegins rfl
    | succ count => exact hinside (start + count) (by omega)
  · intro h
    exact ⟨fun i hi => by omega, fun _ => by omega⟩

theorem admitted_iff_fits {k : Kind} {capacity : Nat} {call : MemoryCall} :
    call.Admitted k capacity ↔ call.fits k capacity := by
  have hparts : call.Admitted k capacity ↔
      (∀ i, call.Touches k i → i < capacity) ∧ call.Sized k ∧ call.Begins k capacity :=
    ⟨fun h => ⟨h.inside, h.sized, h.begins⟩, fun h => ⟨h.1, h.2.1, h.2.2⟩⟩
  rw [hparts]
  cases call with
  | write a w | writeRaw a bytes =>
    simp only [Touches, Sized, Begins, fits, forall_eq, and_true, decide_eq_true_eq]
  | load start bytes =>
    simp only [Touches, Sized, Begins, fits, true_and, decide_eq_true_eq, stretch_inside]
  | loadWords start ws =>
    simp only [Touches, Sized, Begins, fits, true_and, decide_eq_true_eq, ← List.length_eq_zero_iff,
      stretch_inside]
  | fill start stop w =>
    simp only [Touches, Sized, Begins, fits, and_true, decide_eq_true_eq]
    constructor
    · intro hinside
      have hlast := hinside (stop - 1)
      omega
    · intro h i hi
      omega
  | clear | observe tag =>
    simp only [Touches, Sized, Begins, fits, false_implies, implies_true, and_true]

instance (k : Kind) (capacity : Nat) (call : MemoryCall) : Decidable (call.Admitted k capacity) :=
  decidable_of_iff (call.fits k capacity) admitted_iff_fits.symm

def step (k : Kind) (capacity : Nat) (cells : Nat → Word) (call : MemoryCall) : Nat → Word :=
  if call.Admitted k capacity then call.assign k cells else cells

end MemoryCall

namespace Bank

theorem span_zero (b : Bank) (hbytes : b.bytes = Array.replicate b.bytes.size 0) {i : Nat}
    (h : (i + 1) * b.kind.byteWidth ≤ b.bytes.size) :
    b.span i (i + 1) = Array.replicate b.kind.byteWidth 0 := by
  rw [Nat.succ_mul] at h
  rw [span, hbytes]
  simp only [Array.extract_replicate, Nat.succ_mul]
  congr 1
  omega

theorem word_zero (b : Bank) (hbytes : b.bytes = Array.replicate b.bytes.size 0) {i : Nat}
    (h : (i + 1) * b.kind.byteWidth ≤ b.bytes.size) : b.word i = Word.zero false := by
  have hpattern : ∀ k : Kind,
      k.ofPattern (Bytes.toNat (List.replicate k.byteWidth 0)) = Word.zero false := by
    intro k
    cases k <;> decide +kernel
  rw [word, read, b.span_zero hbytes h, Array.toList_replicate,
    Kind.decode_eq_ok List.length_replicate, hpattern]

end Bank

namespace Memory

variable {m : Memory} {cells : Nat → Word}

/-- The buffer has the words of an array. -/
structure StandsFor (m : Memory) (cells : Nat → Word) : Prop where
  wellFormed : m.WellFormed
  word : ∀ a, a < m.capacity → m.bank.word a = cells a

/-- What is read is what the array has, within bounds. -/
structure ReadsAs (m : Memory) (cells : Nat → Word) : Prop where
  read : ∀ a, m.read a =
    if a < m.capacity then .ok (cells a) else .error (Address.fault a m.capacity)
  words : ∀ start stop, m.words start stop =
    if stop ≤ m.capacity then .ok ((List.range' start (stop - start)).map cells)
    else .error (Address.fault stop m.capacity)

theorem StandsFor.readsAs (h : m.StandsFor cells) : m.ReadsAs cells := by
  have hread (a : Nat) : m.read a =
      if a < m.capacity then .ok (cells a) else .error (Address.fault a m.capacity) := by
    rw [read_eq_map h.wellFormed, check, Address.check, Address.isValid]
    by_cases ha : a < m.capacity
    · rw [decide_eq_true ha, if_pos rfl, if_pos ha, ← h.word a ha]
      rfl
    · rw [decide_eq_false ha, if_neg Bool.false_ne_true, if_neg ha]
      rfl
  refine ⟨hread, fun start stop => ?_⟩
  rw [words]
  by_cases hstop : stop ≤ m.capacity
  · rw [if_neg (by omega), if_pos hstop]
    refine mapM_eq_map fun a ha => ?_
    rw [List.mem_range'_1] at ha
    rw [hread a, if_pos (by omega)]
    rfl
  · rw [if_pos (by omega), if_neg hstop]

theorem StandsFor.zeroed (hm : m.WellFormed)
    (hbytes : m.bank.bytes = Array.replicate m.bank.bytes.size 0) :
    m.StandsFor fun _ => Word.zero false :=
  ⟨hm, fun _ ha => m.bank.word_zero hbytes (m.bank.word_lies_in ha hm)⟩

theorem StandsFor.putWord (h : m.StandsFor cells) {a : Nat} (ha : a < m.capacity)
    {bytes : List UInt8} (hbytes : bytes.length = m.kind.byteWidth) :
    (m.putBytes a bytes).StandsFor (overlay cells a [m.kind.ofPattern (Bytes.toNat bytes)]) := by
  refine ⟨h.wellFormed.of_shape (m.shape_putBytes a bytes), fun b hb => ?_⟩
  rw [overlay_singleton]
  show (m.bank.putBytes a bytes).word b = if b = a then _ else _
  by_cases hne : b = a
  · subst hne
    have hread : (m.bank.putBytes b bytes).read b =
        .ok (m.kind.ofPattern (Bytes.toNat bytes)) :=
      (m.bank.read_putBytes b hbytes (m.bank.word_lies_in ha h.wellFormed)).trans
        (Kind.decode_eq_ok hbytes)
    rw [if_pos rfl, Bank.word, hread]
  · rw [if_neg hne, Bank.word, m.bank.read_putBytes_ne hbytes hne, ← h.word b hb, Bank.word]

theorem StandsFor.putBytes (h : m.StandsFor cells) {start count : Nat} {bytes : List UInt8}
    (hbytes : bytes.length = count * m.kind.byteWidth) (hfits : start + count ≤ m.capacity) :
    (m.putBytes start bytes).StandsFor (overlay cells start (m.kind.decodeWords bytes)) := by
  induction count generalizing m cells start bytes with
  | zero =>
    obtain rfl := List.eq_nil_of_length_eq_zero (hbytes.trans (Nat.zero_mul _))
    have hnone : m.kind.decodeWords [] = [] := by simp [Kind.decodeWords, chunks]
    rw [hnone, overlay_nil]
    exact h
  | succ count ih =>
    rw [Nat.succ_mul] at hbytes
    obtain ⟨first, rest, rfl, hfirst⟩ : ∃ first rest, bytes = first ++ rest ∧
        first.length = m.kind.byteWidth := by
      refine ⟨_, _, (List.take_append_drop m.kind.byteWidth bytes).symm, ?_⟩
      rw [List.length_take]
      omega
    rw [List.length_append] at hbytes
    rw [m.putBytes_append start hfirst, Kind.decodeWords_append hfirst, overlay_cons]
    have hrest : rest.length = count * m.kind.byteWidth := by omega
    have hnext : start + 1 + count ≤ m.capacity := by omega
    exact ih (h.putWord (by omega) hfirst) hrest hnext

variable {call : MemoryCall} {u : Update Memory Answer}

theorem fits_of_load {start count : Nat} {bytes : List UInt8}
    (hbytes : bytes.length = count * m.kind.byteWidth) {v : Update Memory Nat}
    (h : m.load start bytes = .ok v) : start + count ≤ m.capacity := by
  rw [load_eq hbytes] at h
  split at h
  · assumption
  · cases h

theorem fits_of_apply (hwhole : call.Whole m.kind) (h : call.apply m = .ok u) :
    call.fits m.kind m.capacity := by
  cases call with
  | write a w =>
    obtain ⟨v, hv, -⟩ := Check.map_eq_ok.mp h
    obtain ⟨b, hb, -⟩ := Check.map_eq_ok.mp hv
    exact decide_eq_true (Address.check_eq_ok.mp hb).2
  | writeRaw a bytes =>
    obtain ⟨v, hv, -⟩ := Check.map_eq_ok.mp h
    rw [writeRaw] at hv
    split at hv
    · cases hv
    · rename_i hlength
      simp only [Check.bind_eq_ok] at hv
      obtain ⟨b, hb, -⟩ := hv
      exact decide_eq_true ⟨(Address.check_eq_ok.mp hb).2, Decidable.not_not.mp hlength⟩
  | load start bytes =>
    obtain ⟨v, hv, -⟩ := Check.map_eq_ok.mp h
    exact decide_eq_true (fits_of_load (Nat.div_mul_cancel hwhole).symm hv)
  | loadWords start ws =>
    obtain ⟨v, hv, -⟩ := Check.map_eq_ok.mp h
    exact decide_eq_true (fits_of_load (m.kind.length_encodeWords ws) hv)
  | fill start stop w =>
    obtain ⟨v, hv, -⟩ := Check.map_eq_ok.mp h
    rw [fill] at hv
    split at hv
    · exact decide_eq_true (Or.inl ‹_›)
    · split at hv
      · cases hv
      · exact decide_eq_true (Or.inr (Nat.not_lt.mp ‹_›))
  | clear | observe tag => rfl

theorem fill_ok (m : Memory) {start stop : Nat} (hlt : start < stop) (hstop : stop ≤ m.capacity)
    (w : Word) :
    ∃ v, m.fill start stop w = .ok v ∧
      v.store = m.putBytes start (m.kind.encodeWords (List.replicate (stop - start) w)) := by
  rw [fill, if_neg (by omega), if_neg (by omega)]
  exact ⟨_, rfl, rfl⟩

theorem StandsFor.apply (h : m.StandsFor cells) (hwhole : call.Whole m.kind)
    (hfits : call.fits m.kind m.capacity) :
    ∃ u, call.apply m = .ok u ∧ u.store.StandsFor (call.assign m.kind cells) := by
  cases call with
  | write a w =>
    have ha : a < m.capacity := of_decide_eq_true hfits
    have hcheck : m.check a = .ok a := Address.check_eq_ok.mpr ⟨rfl, ha⟩
    have hwritten : m.write a w = .ok (m.update a w) := Check.map_eq_ok.mpr ⟨a, hcheck, rfl⟩
    have hput := h.putWord ha (m.kind.length_encode w)
    rw [Kind.ofPattern_encode, overlay_singleton] at hput
    exact ⟨_, Check.map_eq_ok.mpr ⟨_, hwritten, rfl⟩, hput⟩
  | writeRaw a bytes =>
    obtain ⟨ha, hbytes⟩ : a < m.capacity ∧ bytes.length = m.kind.byteWidth :=
      of_decide_eq_true hfits
    have hcheck : m.check a = .ok a := Address.check_eq_ok.mpr ⟨rfl, ha⟩
    have hwritten := writeRaw_eq_map h.wellFormed hbytes a
    rw [hcheck] at hwritten
    have hput := h.putWord ha hbytes
    rw [overlay_singleton] at hput
    exact ⟨_, Check.map_eq_ok.mpr ⟨_, hwritten, rfl⟩, hput⟩
  | load start bytes =>
    have hfits : start + bytes.length / m.kind.byteWidth ≤ m.capacity := of_decide_eq_true hfits
    have hbytes := (Nat.div_mul_cancel hwhole).symm
    have hloaded := (load_eq hbytes).trans (if_pos hfits)
    exact ⟨_, Check.map_eq_ok.mpr ⟨_, hloaded, rfl⟩, h.putBytes hbytes hfits⟩
  | loadWords start ws =>
    have hfits : start + ws.length ≤ m.capacity := of_decide_eq_true hfits
    have hbytes := m.kind.length_encodeWords ws
    have hloaded := (load_eq hbytes).trans (if_pos hfits)
    have hput := h.putBytes hbytes hfits
    rw [Kind.decodeWords_encodeWords] at hput
    exact ⟨_, Check.map_eq_ok.mpr ⟨_, hloaded, rfl⟩, hput⟩
  | fill start stop w =>
    have hfits : stop ≤ start ∨ stop ≤ m.capacity := of_decide_eq_true hfits
    by_cases hnone : stop ≤ start
    · have hfilled : m.fill start stop w = .ok ⟨(), m, []⟩ := if_pos hnone
      have hsame : (MemoryCall.fill start stop w).assign m.kind cells = cells :=
        funext fun i => if_neg (by omega)
      exact ⟨_, Check.map_eq_ok.mpr ⟨_, hfilled, rfl⟩, hsame.symm ▸ h⟩
    · obtain ⟨v, hfilled, hstore⟩ := m.fill_ok (Nat.not_le.mp hnone) (by omega) w
      have hcount : start + (List.replicate (stop - start) w).length ≤ m.capacity := by
        rw [List.length_replicate]
        omega
      have hput := h.putBytes (m.kind.length_encodeWords _) hcount
      rw [Kind.decodeWords_encodeWords, List.map_replicate, overlay_replicate,
        Nat.add_sub_cancel' (Nat.le_of_not_le hnone), ← hstore] at hput
      exact ⟨_, Check.map_eq_ok.mpr ⟨_, hfilled, rfl⟩, hput⟩
  | clear =>
    have hcleared : m.clear.WellFormed := m.bank.size_clear.trans h.wellFormed
    exact ⟨_, rfl, .zeroed hcleared (by simp [clear, Bank.clear])⟩
  | observe tag => exact ⟨_, rfl, h.wellFormed, h.word⟩

theorem succeeds_iff (h : m.StandsFor cells) (hwhole : call.Whole m.kind) :
    (∃ answer, (m.serve call).1 = .ok answer) ↔ call.Admitted m.kind m.capacity := by
  rw [MemoryCall.admitted_iff_fits, serve]
  constructor
  · rintro ⟨answer, hanswer⟩
    cases happly : call.apply m with
    | ok u => exact fits_of_apply hwhole happly
    | error fault =>
      rw [happly] at hanswer
      cases hanswer
  · intro hfits
    obtain ⟨u, hu, -⟩ := h.apply hwhole hfits
    rw [hu]
    exact ⟨u.answer, rfl⟩

theorem StandsFor.serve (h : m.StandsFor cells) (hwhole : call.Whole m.kind) :
    (m.serve call).2.1.StandsFor (call.step m.kind m.capacity cells) := by
  rw [MemoryCall.step, Memory.serve]
  by_cases hadmitted : call.Admitted m.kind m.capacity
  · obtain ⟨u, hu, hstore⟩ := h.apply hwhole (MemoryCall.admitted_iff_fits.mp hadmitted)
    rw [if_pos hadmitted, hu]
    exact hstore
  · rw [if_neg hadmitted]
    cases happly : call.apply m with
    | ok u => exact absurd (MemoryCall.admitted_iff_fits.mpr (fits_of_apply hwhole happly)) hadmitted
    | error fault => exact h

theorem StandsFor.session (h : m.StandsFor cells) {calls : List MemoryCall}
    (hwhole : ∀ call ∈ calls, call.Whole m.kind) :
    (session Memory.serve m calls).1.StandsFor
      (calls.foldl (MemoryCall.step m.kind m.capacity) cells) := by
  induction calls generalizing m cells with
  | nil => exact h
  | cons call calls ih =>
    have hs := m.serve_shape call
    have hnext := h.serve (hwhole call List.mem_cons_self)
    rw [← kind_of_shape hs] at hwhole
    have hrest := ih hnext fun c hc => hwhole c (List.mem_cons_of_mem call hc)
    rw [kind_of_shape hs, capacity_of_shape hs] at hrest
    exact hrest

theorem create_standsFor (k : Kind) (capacity : Nat) :
    (create k capacity).StandsFor fun _ => Word.zero false :=
  .zeroed (create_wellFormed k capacity) (by simp [create, Bank.zeroed])

end Memory

theorem Processor.serve_memory_eq (p : Processor) (call : MemoryCall) :
    p.serve (.memory call) =
      (.core (p.core.memory.serve call).1, { p with core := { p.core with
        memory := (p.core.memory.serve call).2.1
        log := p.core.log ++ (p.core.memory.serve call).2.2 } }) := by
  have hserve : p.serve (.memory call) = (.core (p.onCore (Core.onMemory call.apply)).1,
      (p.onCore (Core.onMemory call.apply)).2) := rfl
  rw [hserve, onCore, Core.onMemory, Memory.serve]
  cases call.apply p.core.memory with
  | ok u => rfl
  | error fault =>
    have hlog : p.core.log ++ ([] : List Event) = p.core.log := by simp
    simp only [settle, hlog]

theorem Processor.serve_memory (p : Processor) (call : MemoryCall) :
    (p.serve (.memory call)).1 = .core (p.core.memory.serve call).1 ∧
      (p.serve (.memory call)).2.core.memory = (p.core.memory.serve call).2.1 := by
  rw [p.serve_memory_eq call]
  exact ⟨rfl, rfl⟩

/-- After any session with a new memory, words are read that the same calls store in an array of
zeros, and there is a fault beyond the capacity. A call succeeds if every address that it touches
is there, the bytes of a single word have its width and a load of nothing starts no further than
the end. A processor that has the memory is served the same. If there can be a buffer for so many
words, it is the memory that is made, and every step of every call is possible. -/
theorem memory_refines_array (k : Kind) (capacity : Nat) {calls : List MemoryCall}
    (hwhole : ∀ call ∈ calls, call.Whole k) :
    let m := (session Memory.serve (Memory.create k capacity) calls).1
    (m.kind = k ∧ m.capacity = capacity) ∧
    m.ReadsAs (calls.foldl (MemoryCall.step k capacity) fun _ => Word.zero false) ∧
    (∀ call : MemoryCall, call.Whole k →
      ((∃ answer, (m.serve call).1 = .ok answer) ↔ call.Admitted k capacity)) ∧
    (∀ p : Processor, p.core.memory = m → ∀ call : MemoryCall,
      (p.serve (.memory call)).1 = .core (m.serve call).1 ∧
        (p.serve (.memory call)).2.core.memory = (m.serve call).2.1) ∧
    ∀ made, Memory.create? k capacity = some made →
      made = Memory.create k capacity ∧ ∀ call, m.call? call = some (call.apply m) := by
  intro m
  have hs : m.shape = (Memory.create k capacity).shape := Memory.session_shape _ calls
  have hkind : m.kind = k := Memory.kind_of_shape hs
  have hcapacity : m.capacity = capacity := Memory.capacity_of_shape hs
  have hstands := (Memory.create_standsFor k capacity).session hwhole
  refine ⟨⟨hkind, hcapacity⟩, hstands.readsAs, fun call hcall => ?_, fun p hp call => ?_,
    fun made hmade => ?_⟩
  · rw [← hkind] at hcall
    have hiff := Memory.succeeds_iff hstands hcall
    rwa [hkind, hcapacity] at hiff
  · rw [← hp]
    exact p.serve_memory call
  · obtain ⟨rfl, ha⟩ := Memory.create?_eq_some.mp hmade
    exact ⟨rfl, (Memory.intact_of_shape (Memory.create_wellFormed k capacity) ha hs).calls⟩

theorem refused_fill_changes_nothing :
    let calls : List MemoryCall :=
      [.loadWords 1 [Word.ofNat 70000, Word.ofInt (-1)], .fill 2 9 (Word.ofNat 7),
        .load 2 [0, 1, 0xff, 0xfe], .write 0 (Word.ofNat 5)]
    let m := (session Memory.serve (Memory.create .int16 4) calls).1
    (∀ call ∈ calls, call.Whole .int16) ∧
      m.words 0 4 = .ok [Word.ofNat 5, Word.ofNat 4464, Word.ofNat 1, Word.ofInt (-2)] ∧
      m.read 4 = .error (Address.fault 4 4) ∧
      (∃ answer, (m.serve (.load 4 [])).1 = .ok answer) ∧
      (¬ ∃ answer, (m.serve (.load 5 [])).1 = .ok answer) ∧
      Memory.create? .int16 4 = some (Memory.create .int16 4) ∧
      ∀ call, m.call? call = some (call.apply m) := by
  intro calls m
  have hwhole : ∀ call ∈ calls, call.Whole .int16 := by
    simp [calls, MemoryCall.Whole, Kind.byteWidth]
  have hcells : (List.range' 0 (4 - 0)).map
      (calls.foldl (MemoryCall.step .int16 4) fun _ => Word.zero false) =
      [Word.ofNat 5, Word.ofNat 4464, Word.ofNat 1, Word.ofInt (-2)] := by
    decide +kernel
  have hmade : Memory.create? .int16 4 = some (Memory.create .int16 4) := rfl
  obtain ⟨⟨-, hcapacity⟩, hreads, hsucceeds, -, hpossible⟩ := memory_refines_array .int16 4 hwhole
  refine ⟨hwhole, ?_, ?_, ?_, ?_, hmade, (hpossible _ hmade).2⟩
  · rw [hreads.words, if_pos (by omega), hcells]
  · rw [hreads.read, if_neg (by omega), hcapacity]
  · exact (hsucceeds _ (Nat.dvd_zero _)).mpr (by decide)
  · exact mt (hsucceeds _ (Nat.dvd_zero _)).mp (by decide)

end WordMachine
