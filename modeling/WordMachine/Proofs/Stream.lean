import WordMachine.Proofs.Sequencing
import WordMachine.Proofs.Store

/-!
# The instruction stream

Fetching reads memory at the instruction pointer and moves the pointer on, coerced each time. What
a number of fetches reads and where it leaves the core is told from the core it began with.
-/

set_option autoImplicit false

namespace WordMachine.Core

variable {c d : Core}

def advance (c : Core) (w : Word) : Word := c.kind.coerce (w.add (Word.ofNat 1))

def pointer (c : Core) : Nat → Word
  | 0 => c.registers.ip
  | n + 1 => c.advance (c.pointer n)

def fetchWrites (c : Core) (n : Nat) : List Write :=
  (List.range n).map fun k => .register c.registers.ipIndex ((c.pointer k).add (Word.ofNat 1))

def advanced (c : Core) (n : Nat) : Core := c.storeAll (c.fetchWrites n)

/-- Memory holds the words at the instruction pointer after `n` fetches, after `n + 1`, and so on. -/
def Streams (c : Core) : Nat → List Word → Prop
  | _, [] => True
  | n, w :: ws => c.readMemory (c.pointer n) = .ok w ∧ c.Streams (n + 1) ws

instance decidableStreams (c : Core) : (n : Nat) → (ws : List Word) → Decidable (c.Streams n ws)
  | _, [] => isTrue trivial
  | n, w :: ws =>
    have := c.decidableStreams (n + 1) ws
    inferInstanceAs (Decidable (c.readMemory (c.pointer n) = .ok w ∧ c.Streams (n + 1) ws))

def fetchMany : Nat → Action (List Word)
  | 0 => pure []
  | n + 1 => do
    let w ← fetch
    let ws ← fetchMany n
    return w :: ws

theorem fetchMany_cons {e : Core} {n : Nat} {w : Word} {ws : List Word} (h : fetch c = .ok w d)
    (hs : fetchMany n d = .ok ws e) : fetchMany (n + 1) c = .ok (w :: ws) e := by
  simp only [fetchMany, Work.bind_eq_ok, Work.pure_eq_ok]
  exact ⟨w, d, h, ws, e, hs, rfl, rfl⟩

theorem fetchMany_stops {n : Nat} {fault : Fault} (h : fetch c = .error fault d) :
    fetchMany (n + 1) c = .error fault d := by
  simp only [fetchMany, Work.bind_eq_error]
  exact Or.inl h

theorem fetchMany_stops_later {e : Core} {n : Nat} {w : Word} {fault : Fault}
    (h : fetch c = .ok w d) (hs : fetchMany n d = .error fault e) :
    fetchMany (n + 1) c = .error fault e := by
  simp only [fetchMany, Work.bind_eq_error]
  exact Or.inr ⟨w, d, h, Or.inl hs⟩

theorem readMemory_of_memory (h : d.memory = c.memory) (w : Word) :
    d.readMemory w = c.readMemory w := by
  rw [readMemory, h, ← readMemory]

theorem mem_fetchWrites {n : Nat} {w : Write} (h : w ∈ c.fetchWrites n) :
    w.index? = some c.registers.ipIndex ∧ w.address? = none := by
  obtain ⟨k, -, rfl⟩ := List.mem_map.mp h
  exact ⟨rfl, rfl⟩

theorem advanced_succ (c : Core) (n : Nat) :
    c.advanced (n + 1) =
      (c.advanced n).store (.register c.registers.ipIndex ((c.pointer n).add (Word.ofNat 1))) := by
  rw [advanced, fetchWrites, List.range_succ, List.map_append, storeAll_append]
  rfl

theorem advanced_shape (c : Core) (n : Nat) : (c.advanced n).shape = c.shape := c.storeAll_shape _

theorem advanced_memory (c : Core) (n : Nat) : (c.advanced n).memory = c.memory :=
  c.storeAll_memory _ fun _ h => (mem_fetchWrites h).2

theorem advanced_cell (c : Core) (n : Nat) {i : Nat} (hi : i ≠ c.registers.ipIndex) :
    (c.advanced n).registers.cell i = c.registers.cell i := by
  apply c.storeAll_cell
  intro w hw he
  rw [(mem_fetchWrites hw).1] at he
  exact hi (Option.some.inj he).symm

theorem readNamed_advanced (hc : c.registers.WellFormed) {n : String} (hn : n ≠ instructionPointer)
    (k : Nat) : (c.advanced k).readNamed n = c.readNamed n :=
  readNamed_of_cell (c.advanced_shape k) fun _ hi =>
    c.advanced_cell k (Registers.place_ne_ip hc hn hi)

theorem ip_store (hc : c.registers.WellFormed) (w : Word) :
    (c.store (.register c.registers.ipIndex w)).registers.ip = c.kind.coerce w :=
  c.registers.word_put hc hc.ipIndex_lt w

theorem advanced_ip (hc : c.registers.WellFormed) (n : Nat) :
    (c.advanced n).registers.ip = c.pointer n := by
  induction n with
  | zero => rfl
  | succ n _ =>
    have hs := c.advanced_shape n
    rw [advanced_succ, ← ipIndex_of_shape hs, ip_store (registers_of_shape hs hc)]
    exact congrArg (fun k : Kind => k.coerce _) (kind_of_shape hs)

theorem perform_eq_ok {α : Type} {effect : Core → Except Fault (Effect α)} {a : α} :
    perform effect c = .ok a d ↔
      ∃ writes, effect c = .ok ⟨a, writes⟩ ∧ d = c.storeAll writes := by
  rw [perform]
  constructor
  · intro h
    split at h <;> cases h
    exact ⟨_, ‹_›, rfl⟩
  · rintro ⟨writes, he, rfl⟩
    rw [he]

theorem perform_eq_error {α : Type} {effect : Core → Except Fault (Effect α)} {fault : Fault} :
    perform effect c = .error fault d ↔ effect c = .error fault ∧ d = c := by
  rw [perform]
  constructor
  · intro h
    split at h <;> cases h
    exact ⟨‹_›, rfl⟩
  · rintro ⟨he, rfl⟩
    rw [he]

theorem fetch_eq_ok (hc : c.registers.WellFormed) {n : Nat} {w : Word} :
    fetch (c.advanced n) = .ok w d ↔
      c.readMemory (c.pointer n) = .ok w ∧ d = c.advanced (n + 1) := by
  rw [fetch, perform_eq_ok]
  simp only [Check.bind_eq_ok, Check.pure_eq_ok, Effect.mk.injEq, advanced_ip hc,
    readMemory_of_memory (c.advanced_memory n), ipIndex_of_shape (c.advanced_shape n)]
  constructor
  · rintro ⟨writes, ⟨v, hv, rfl, rfl⟩, rfl⟩
    exact ⟨hv, (c.advanced_succ n).symm⟩
  · rintro ⟨hw, rfl⟩
    exact ⟨_, ⟨w, hw, rfl, rfl⟩, c.advanced_succ n⟩

theorem fetch_eq_error (hc : c.registers.WellFormed) {n : Nat} {fault : Fault} :
    fetch (c.advanced n) = .error fault d ↔
      c.readMemory (c.pointer n) = .error fault ∧ d = c.advanced n := by
  rw [fetch, perform_eq_error]
  simp only [Check.bind_eq_error, advanced_ip hc, readMemory_of_memory (c.advanced_memory n)]
  constructor
  · rintro ⟨h | ⟨a, -, h⟩, hd⟩
    · exact ⟨h, hd⟩
    · cases h
  · rintro ⟨h, hd⟩
    exact ⟨Or.inl h, hd⟩

theorem fetchMany_eq_ok (hc : c.registers.WellFormed) {n m : Nat} {ws : List Word} :
    fetchMany n (c.advanced m) = .ok ws d ↔
      ws.length = n ∧ c.Streams m ws ∧ d = c.advanced (m + n) := by
  induction n generalizing m ws with
  | zero =>
    rw [fetchMany, Work.pure_eq_ok]
    constructor
    · rintro ⟨rfl, rfl⟩
      exact ⟨rfl, trivial, rfl⟩
    · rintro ⟨hl, -, rfl⟩
      exact ⟨(List.eq_nil_of_length_eq_zero hl).symm, rfl⟩
  | succ n ih =>
    have hsucc : m + 1 + n = m + (n + 1) := by omega
    simp only [fetchMany, Work.bind_eq_ok, Work.pure_eq_ok]
    constructor
    · rintro ⟨w, _, hw, vs, _, hvs, rfl, rfl⟩
      obtain ⟨hr, rfl⟩ := (fetch_eq_ok hc).mp hw
      obtain ⟨hl, hs, rfl⟩ := ih.mp hvs
      exact ⟨by rw [List.length_cons, hl], ⟨hr, hs⟩, by rw [hsucc]⟩
    · rintro ⟨hl, hs, rfl⟩
      cases ws with
      | nil => cases hl
      | cons w vs =>
        exact ⟨w, c.advanced (m + 1), (fetch_eq_ok hc).mpr ⟨hs.1, rfl⟩, vs, _,
          ih.mpr ⟨Nat.succ.inj hl, hs.2, by rw [hsucc]⟩, rfl, rfl⟩

theorem fetchMany_error (hc : c.registers.WellFormed) {n m : Nat} {fault : Fault}
    (h : fetchMany n (c.advanced m) = .error fault d) :
    ∃ ws : List Word, ws.length < n ∧ c.Streams m ws ∧
      c.readMemory (c.pointer (m + ws.length)) = .error fault ∧
      d = c.advanced (m + ws.length) := by
  induction n generalizing m with
  | zero => exact absurd h Work.pure_ne_error
  | succ n ih =>
    simp only [fetchMany, Work.bind_eq_error] at h
    rcases h with hf | ⟨w, _, hw, hrest⟩
    · obtain ⟨hr, rfl⟩ := (fetch_eq_error hc).mp hf
      exact ⟨[], Nat.succ_pos n, trivial, hr, rfl⟩
    · obtain ⟨hr, rfl⟩ := (fetch_eq_ok hc).mp hw
      rcases hrest with hf | ⟨_, _, -, hf⟩
      · obtain ⟨ws, hl, hs, hfail, rfl⟩ := ih hf
        have hlen : m + 1 + ws.length = m + (w :: ws).length := by
          rw [List.length_cons]
          omega
        rw [hlen] at hfail
        exact ⟨w :: ws, Nat.succ_lt_succ hl, ⟨hr, hs⟩, hfail, by rw [hlen]⟩
      · exact absurd hf Work.pure_ne_error

end WordMachine.Core
