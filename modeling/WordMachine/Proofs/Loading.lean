import Mathlib.Algebra.Order.Floor.Div
import WordMachine.Proofs.WordArray

/-!
# Loads of bytes

Bytes are loaded all or not at all. They may end within a word, of which the rest stays as it was.
A start that is past the end is refused before an offset is calculated from it, so no start is so
great that its load lands somewhere else.
-/

set_option autoImplicit false

namespace WordMachine

theorem Address.afterBytes_eq (start length width : Nat) :
    afterBytes start length width = start + length ⌈/⌉ width := by
  rw [afterBytes, Nat.ceilDiv_eq_add_pred_div]

namespace Memory

variable {m : Memory} {start stop : Nat} {bytes : List UInt8}

/-- Bytes lie from a word address on in a memory that is otherwise as it was before. -/
structure Loaded (before : Memory) (start : Nat) (bytes : List UInt8) (after : Memory) : Prop where
  shape : after.shape = before.shape
  observer : after.observer = before.observer
  within : ∀ k < bytes.length, after.bytes[start * before.kind.byteWidth + k]? = bytes[k]?
  outside : ∀ i, i < start * before.kind.byteWidth ∨
    start * before.kind.byteWidth + bytes.length ≤ i → after.bytes[i]? = before.bytes[i]?

/-- The observer, if there is one, is told once, of the words from `start` up to `stop` as they now
are. -/
def Notifies (after : Memory) (start stop : Nat) (events : List Event) : Prop :=
  match after.observer with
  | some tag => events = [.memory tag start stop (after.bank.span start (after.reach start stop))]
  | none => events = []

theorem report_notifies (m : Memory) (start stop : Nat) :
    m.Notifies start stop (m.report start stop) := by
  rw [Notifies, report]
  cases m.observer <;> rfl

theorem putBytes_loaded (hm : m.WellFormed)
    (hstop : Address.afterBytes start bytes.length m.kind.byteWidth ≤ m.capacity) :
    m.Loaded start bytes (m.putBytes start bytes) where
  shape := m.shape_putBytes start bytes
  observer := rfl
  within k hk := Bytes.splice_get _ _ _ k hk (bytes_lie_in hm _ _ hstop)
  outside i hi := Bytes.splice_frame _ _ _ i hi

theorem serve_load (m : Memory) (start : Nat) (bytes : List UInt8) :
    m.serve (.load start bytes) =
      let stop := start + bytes.length ⌈/⌉ m.kind.byteWidth
      if stop ≤ m.capacity then
        (.ok (.address stop), m.putBytes start bytes, (m.putBytes start bytes).report start stop)
      else (.error (.outOfBounds (Word.ofNat start) m.capacity), m, []) := by
  rw [← Address.afterBytes_eq]
  simp only [serve, MemoryCall.apply, load]
  split <;> rfl

/-- A load succeeds when the words that its bytes take, the last perhaps in part, are all there. Then
it answers the address after them, the bytes are in place, all others are as they were, and there
was one notice of the words. A load that fails names the capacity, changes nothing and tells nobody.
Sums and products of machine words come to the same, and a processor is served as its memory is. -/
theorem bytes_are_loaded_or_refused (hm : m.WellFormed) (start : Nat) (bytes : List UInt8) :
    let stop := start + bytes.length ⌈/⌉ m.kind.byteWidth
    let served := m.serve (.load start bytes)
    ((∃ a, served.1 = .ok a) ↔ stop ≤ m.capacity) ∧
    (stop ≤ m.capacity → served.1 = .ok (.address stop) ∧ m.Loaded start bytes served.2.1 ∧
      served.2.1.Notifies start stop served.2.2) ∧
    (m.capacity < stop → served =
      (.error (.outOfBounds (Word.ofNat start) m.capacity), m, [])) ∧
    (m.Allocated → m.load? start bytes = some (m.load start bytes)) ∧
    ∀ p : Processor, p.core.memory = m → p.serve (.memory (.load start bytes)) =
      (.core served.1, { p with core := { p.core with
        memory := served.2.1
        log := p.core.log ++ served.2.2 } }) := by
  intro stop served
  have hserved : served = if stop ≤ m.capacity then
      (.ok (.address stop), m.putBytes start bytes, (m.putBytes start bytes).report start stop)
    else (.error (.outOfBounds (Word.ofNat start) m.capacity), m, []) := m.serve_load start bytes
  have hrest : (m.Allocated → m.load? start bytes = some (m.load start bytes)) ∧
      ∀ p : Processor, p.core.memory = m → p.serve (.memory (.load start bytes)) =
        (.core served.1, { p with core := { p.core with
          memory := served.2.1
          log := p.core.log ++ served.2.2 } }) :=
    ⟨fun ha => load?_eq hm ha start bytes, by rintro p rfl; exact p.serve_memory_eq _⟩
  by_cases hstop : stop ≤ m.capacity
  · rw [if_pos hstop] at hserved
    have hfits : Address.afterBytes start bytes.length m.kind.byteWidth ≤ m.capacity := by
      rwa [Address.afterBytes_eq]
    refine ⟨⟨fun _ => hstop, fun _ => ⟨_, congrArg Prod.fst hserved⟩⟩, fun _ => ?_,
      fun h => absurd hstop (Nat.not_le.mpr h), hrest⟩
    rw [hserved]
    exact ⟨rfl, putBytes_loaded hm hfits, report_notifies _ _ _⟩
  · rw [if_neg hstop] at hserved
    refine ⟨⟨fun h => ?_, fun h => absurd h hstop⟩, fun h => absurd h hstop, fun _ => hserved, hrest⟩
    obtain ⟨a, ha⟩ := h
    rw [hserved] at ha
    cases ha

theorem partial_word_is_loaded :
    let m := (create .int16 4).observe "log"
    let after := (m.serve (.load 1 [1, 2, 3])).2.1
    m.WellFormed ∧ m.Allocated ∧ m.Loaded 1 [1, 2, 3] after ∧
      after.bytes = #[0, 0, 1, 2, 3, 0, 0, 0] ∧ after.observer = some "log" ∧
      after.Notifies 1 3 (m.serve (.load 1 [1, 2, 3])).2.2 ∧
      (m.serve (.load 4 [])).1 = .ok (.address 4) ∧
      m.serve (.load (2 ^ 64 - 1) [7]) =
        (.error (.outOfBounds (Word.ofNat (2 ^ 64 - 1)) 4), m, []) ∧
      m.load? (2 ^ 64 - 1) [7] = some (m.load (2 ^ 64 - 1) [7]) := by
  intro m after
  have hm : m.WellFormed := Memory.create_wellFormed .int16 4
  have ha : m.Allocated := by
    show (Bank.zeroed .int16 4).bytes.size < 2 ^ 63
    rw [Bank.size_zeroed]
    decide
  have hthree : 1 + ([1, 2, 3] : List UInt8).length ⌈/⌉ m.kind.byteWidth = 3 := by decide
  have hfour : 4 + ([] : List UInt8).length ⌈/⌉ m.kind.byteWidth = 4 := by decide
  obtain ⟨-, hloaded, -⟩ := bytes_are_loaded_or_refused hm 1 [1, 2, 3]
  obtain ⟨-, hnothing, -⟩ := bytes_are_loaded_or_refused hm 4 []
  obtain ⟨-, -, hrefused, hchecked, -⟩ := bytes_are_loaded_or_refused hm (2 ^ 64 - 1) [7]
  obtain ⟨-, hplaced, hnotice⟩ := hloaded (hthree.trans_le (by decide))
  rw [hthree] at hnotice
  rw [hfour] at hnothing
  exact ⟨hm, ha, hplaced, by decide +kernel, hplaced.observer, hnotice, (hnothing (by decide)).1,
    hrefused (by decide), hchecked ha⟩

end Memory

end WordMachine
