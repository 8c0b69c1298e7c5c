import WordMachine.Proofs.Integers
import WordMachine.Proofs.Reachable

/-!
# Images

Words loaded back to back are read back coerced, each at its address, and stay there as long as
nothing is written from the first to the last. An instruction pointer that counts exactly passes
them in order.
-/

set_option autoImplicit false

namespace WordMachine

namespace Memory

variable {m d : Memory}

theorem read_of_bytes (hs : d.shape = m.shape) {a : Nat}
    (h : ∀ k, a * m.kind.byteWidth ≤ k → k < (a + 1) * m.kind.byteWidth →
      d.bytes[k]? = m.bytes[k]?) : d.read a = m.read a := by
  have hspan := Bank.span_of_bytes (kind_of_shape hs) (congrArg (·.bytes) hs) h
  have hbank : d.bank.read a = m.bank.read a := by
    show d.kind.decode _ = m.kind.decode _
    rw [hspan, kind_of_shape hs]
  simp only [read, check, capacity_of_shape hs, Address.check]
  split
  · exact hbank
  · rfl

/-- The words are there one after the other from an address on. -/
def Holds (m : Memory) : Nat → List Word → Prop
  | _, [] => True
  | a, w :: ws => m.read a = .ok w ∧ m.Holds (a + 1) ws

theorem holds_append {a : Nat} (ws vs : List Word) :
    m.Holds a (ws ++ vs) ↔ m.Holds a ws ∧ m.Holds (a + ws.length) vs := by
  induction ws generalizing a with
  | nil => simp [Holds]
  | cons w ws ih =>
    have hplace : a + 1 + ws.length = a + (w :: ws).length := by
      rw [List.length_cons]
      omega
    rw [List.cons_append, Holds, Holds, ih, hplace, and_assoc]

theorem Holds.of_bytes {a : Nat} {ws : List Word} (hm : m.Holds a ws) (hs : d.shape = m.shape)
    (h : ∀ k, a * m.kind.byteWidth ≤ k → k < (a + ws.length) * m.kind.byteWidth →
      d.bytes[k]? = m.bytes[k]?) : d.Holds a ws := by
  induction ws generalizing a with
  | nil => trivial
  | cons w ws ih =>
    have hlast : (a + 1) * m.kind.byteWidth ≤ (a + (w :: ws).length) * m.kind.byteWidth :=
      Nat.mul_le_mul_right _ (by rw [List.length_cons]; omega)
    have hrest : a + 1 + ws.length = a + (w :: ws).length := by
      rw [List.length_cons]
      omega
    refine ⟨?_, ih hm.2 fun k hlow hhigh => ?_⟩
    · rw [read_of_bytes hs fun k hlow hhigh => h k hlow (by omega), hm.1]
    · rw [Nat.succ_mul] at hlow
      exact h k (by omega) (hrest ▸ hhigh)

theorem putBytes_append (m : Memory) (a : Nat) {first : List UInt8}
    (h : first.length = m.kind.byteWidth) (rest : List UInt8) :
    m.putBytes a (first ++ rest) = (m.putBytes a first).putBytes (a + 1) rest :=
  congrArg (fun bank => { m with bank := bank }) (m.bank.putBytes_append a h rest)

theorem putBytes_cons (m : Memory) (a : Nat) (w : Word) (ws : List Word) :
    m.putBytes a (m.kind.encodeWords (w :: ws)) =
      (m.put a w).putBytes (a + 1) (m.kind.encodeWords ws) := by
  rw [Kind.encodeWords, List.flatMap_cons]
  exact m.putBytes_append a (m.kind.length_encode w) _

theorem read_put (hm : m.WellFormed) {a : Nat} (ha : a < m.capacity) (w : Word) :
    (m.put a w).read a = .ok (m.kind.coerce w) := by
  have hcheck : (m.put a w).check a = .ok a := Address.check_eq_ok.mpr ⟨rfl, ha⟩
  rw [read, hcheck]
  exact m.bank.read_put a w (m.bank.word_lies_in ha hm)

theorem read_put_ne (m : Memory) {a b : Nat} (w : Word) (hne : b ≠ a) :
    (m.put a w).read b = m.read b := by
  show (m.check b >>= fun b => (m.bank.put a w).read b) = (m.check b >>= fun b => m.bank.read b)
  cases hb : m.check b with
  | error fault => rfl
  | ok b' =>
    obtain ⟨rfl, -⟩ := Address.check_eq_ok.mp hb
    exact m.bank.read_put_ne w hne

theorem putBytes_holds (hm : m.WellFormed) {a : Nat} {ws : List Word}
    (hfit : a + ws.length ≤ m.capacity) :
    (m.putBytes a (m.kind.encodeWords ws)).Holds a (ws.map m.kind.coerce) := by
  induction ws generalizing m a with
  | nil => trivial
  | cons w ws ih =>
    rw [List.length_cons] at hfit
    have hs : (m.put a w).shape = m.shape := m.shape_put a w
    have hwell : (m.put a w).WellFormed := (m.bank.size_put a w).trans hm
    rw [putBytes_cons]
    refine ⟨?_, ih hwell (by rw [capacity_of_shape hs]; omega)⟩
    have hlater : ((m.put a w).putBytes (a + 1) (m.kind.encodeWords ws)).read a =
        (m.put a w).read a :=
      read_of_bytes (shape_putBytes _ _ _) fun k _ hhigh =>
        Bytes.splice_frame _ _ _ _ (Or.inl hhigh)
    rw [hlater, read_put hm (by omega)]

theorem afterBytes_mul (start count : Nat) {width : Nat} (hwidth : 0 < width) :
    Address.afterBytes start (count * width) width = start + count := by
  rw [Address.afterBytes, Nat.add_sub_assoc (by omega), Nat.mul_comm, Nat.mul_add_div hwidth,
    Nat.div_eq_of_lt (by omega), Nat.add_zero]

theorem load_eq {start count : Nat} {bytes : List UInt8}
    (hbytes : bytes.length = count * m.kind.byteWidth) :
    m.load start bytes =
      if start + count ≤ m.capacity then
        .ok ⟨start + count, m.putBytes start bytes,
          (m.putBytes start bytes).report start (start + count)⟩
      else .error (Address.fault start m.capacity) := by
  rw [load, hbytes, afterBytes_mul start count m.kind.byteWidth_pos]

theorem loadWords_ok {a : Nat} {ws : List Word} (hfit : a + ws.length ≤ m.capacity) :
    ∃ u, m.loadWords a ws = .ok u ∧ u.answer = a + ws.length ∧
      u.store = m.putBytes a (m.kind.encodeWords ws) := by
  rw [loadWords, load_eq (m.kind.length_encodeWords ws), if_pos hfit]
  exact ⟨_, rfl, rfl, rfl⟩

end Memory

namespace Core

variable {c : Core} {a stop : Nat}

theorem pointer_counts (hip : c.registers.ip = Word.ofNat a)
    (hexact : ∀ n, a ≤ n → n ≤ stop → c.kind.Exact n) {n : Nat} (hn : a + n ≤ stop) :
    c.pointer n = Word.ofNat (a + n) := by
  induction n with
  | zero => exact hip
  | succ n ih =>
    rw [pointer, ih (by omega), advance, Word.add_one (hexact _ (by omega) (by omega)).integer]
    exact (hexact _ (by omega) hn).stored

theorem pointer_stays {w : Word} (hip : c.registers.ip = w)
    (hstays : c.kind.coerce (w.add (Word.ofNat 1)) = w) (n : Nat) : c.pointer n = w := by
  induction n with
  | zero => exact hip
  | succ n ih => rw [pointer, ih, advance, hstays]

theorem streams_of_holds (hip : c.registers.ip = Word.ofNat a)
    (hexact : ∀ n, a ≤ n → n ≤ stop → c.kind.Exact n) (hstop : stop ≤ c.memory.capacity)
    (hcapacity : c.memory.capacity < Address.limit) {n : Nat} {ws : List Word}
    (hn : a + n + ws.length ≤ stop) (hholds : c.memory.Holds (a + n) ws) : c.Streams n ws := by
  induction ws generalizing n with
  | nil => trivial
  | cons w ws ih =>
    rw [List.length_cons] at hn
    refine ⟨?_, ih (by omega) hholds.2⟩
    have haddress : c.memory.addressOf (Word.ofNat (a + n)) = .ok (a + n) :=
      Address.ofWord_ofNat (hexact _ (by omega) (by omega)) (hexact _ (by omega) (by omega))
        (by omega) hcapacity
    rw [pointer_counts hip hexact (by omega), readMemory, haddress]
    exact hholds.1

end Core

theorem Processor.serve_loadWords {model : Model} {p : Processor} (hp : p.Sound model) {start : Nat}
    {ws : List Word} (hfit : start + ws.length ≤ p.core.memory.capacity)
    (hstored : ws.map p.core.kind.coerce = ws) :
    (p.serve (.memory (.loadWords start ws))).2.core.registers = p.core.registers ∧
      (p.serve (.memory (.loadWords start ws))).2.core.memory.Holds start ws := by
  obtain ⟨u, hu, -, hstore⟩ := Memory.loadWords_ok hfit
  have hloaded : (p.serve (.memory (.loadWords start ws))).2.core =
      { p.core with memory := u.store, log := p.core.log ++ u.events } := by
    show (p.onCore (Core.onMemory _)).2.core = _
    rw [onCore_snd, Core.onMemory]
    simp only [MemoryCall.apply, hu, Except.map, Work.final]
    rfl
  have hholds := Memory.putBytes_holds hp.core.memory hfit
  rw [hp.kinds, hstored, ← hp.kinds, ← hstore] at hholds
  rw [hloaded]
  exact ⟨rfl, hholds⟩

end WordMachine
