import Mathlib.Data.Rat.Floor
import WordMachine.Proofs.Image
import WordMachine.Proofs.Settled
import WordMachine.Proofs.Truncation

/-!
# Walks through memory

A fetch reads the word that the instruction pointer lies in and moves the pointer on by one. As long
as the kind stores the integers that the pointer passes, fetches read memory word by word up to its
end, and no further.
-/

set_option autoImplicit false

namespace WordMachine

namespace Address

variable {a capacity : Nat}

theorem lt_of_within {w : Word} (hw : w.Within a) (h : (a : Int) < bound capacity) : a < capacity :=
  ofWord_lt (ofWord_eq_ok.mpr ⟨Word.within_iff.mp hw, h⟩)

end Address

namespace Core

variable {c : Core} {a stop : Nat} {v w : Word}

theorem readMemory_eq_ok :
    c.readMemory w = .ok v ↔ ∃ a : Nat, w.Within a ∧ (a : Int) < Address.bound c.memory.capacity ∧
      c.memory.read a = .ok v := by
  rw [readMemory, Check.bind_eq_ok]
  constructor
  · rintro ⟨a, ha, hread⟩
    obtain ⟨hfloor, hbound⟩ := Address.ofWord_eq_ok.mp ha
    exact ⟨a, Word.within_iff.mpr hfloor, hbound, hread⟩
  · rintro ⟨a, ha, hbound, hread⟩
    exact ⟨a, Address.ofWord_eq_ok.mpr ⟨Word.within_iff.mp ha, hbound⟩, hread⟩

theorem readMemory_within (hm : c.memory.WellFormed) (hw : w.Within a) :
    (∃ v, c.readMemory w = .ok v) ↔ (a : Int) < Address.bound c.memory.capacity := by
  constructor
  · rintro ⟨v, hv⟩
    obtain ⟨b, hb, hbound, -⟩ := readMemory_eq_ok.mp hv
    rwa [Word.within_unique hw hb]
  · intro hbound
    have hread := hm.read_eq_ok (Address.lt_of_within hw hbound)
    exact ⟨_, readMemory_eq_ok.mpr ⟨a, hw, hbound, hread⟩⟩

theorem ip_lt (hc : c.registers.WellFormed) (hk : c.kind.isInteger)
    (hip : c.registers.ip.Within a) : a < 2 ^ 33 := by
  have hstored : c.kind.coerce c.registers.ip = c.registers.ip :=
    Registers.coerce_word hc hc.ipIndex_lt
  have hsmall := Kind.natAbs_residue (c.kind.pattern_lt c.registers.ip)
  have hbits : 2 ^ c.kind.bits ≤ 2 ^ 32 :=
    Nat.pow_le_pow_right (by decide) (Kind.bits_integer hk)
  rw [Kind.coerce_eq, Kind.ofPattern_integer hk] at hstored
  generalize c.kind.residue (c.kind.pattern c.registers.ip) = z at hstored hsmall
  have hinteger : c.registers.ip.integer? = some z := hstored ▸ Word.integer?_ofInt (by omega)
  have hfloor := (Word.within_iff.mp hip).symm.trans (Word.floor_of_integer? hinteger)
  have hz : (a : Int) = z := Option.some.inj hfloor
  omega

theorem pointer_succ (hip : c.registers.ip.integer? = some (a : Int))
    (hexact : ∀ n, a ≤ n → n ≤ stop → c.kind.Exact n) {n : Nat} (hn : a + n + 1 ≤ stop) :
    c.pointer (n + 1) = Word.ofNat (a + n + 1) := by
  induction n with
  | zero =>
    have hone : (Word.ofNat 1).integer? = some 1 := by decide +kernel
    have hnext : c.registers.ip.add (Word.ofNat 1) = Word.ofNat (a + 1) := by
      rw [Word.add_of_integers hip hone (Or.inr (by decide)), ← Int.natCast_succ,
        Word.ofInt_natCast]
    show c.kind.coerce (c.registers.ip.add (Word.ofNat 1)) = _
    rw [hnext]
    exact (hexact _ (by omega) hn).stored
  | succ n ih =>
    rw [pointer, ih (by omega), advance, Word.add_one (hexact _ (by omega) (by omega)).integer]
    exact (hexact _ (by omega) hn).stored

theorem pointer_integer? (hip : c.registers.ip.integer? = some (a : Int))
    (hexact : ∀ n, a ≤ n → n ≤ stop → c.kind.Exact n) {n : Nat} (hn : a + n ≤ stop) :
    (c.pointer n).integer? = some ((a + n : Nat) : Int) := by
  cases n with
  | zero => exact hip
  | succ n =>
    rw [pointer_succ hip hexact hn]
    exact (hexact _ (by omega) hn).integer

end Core

namespace Processor

variable {p : Processor}

def walked (p : Processor) (n : Nat) : Processor := { p with core := p.core.advanced n }

theorem walked_zero (p : Processor) : p.walked 0 = p := rfl

/-- What fetches leave as it was: everything but the instruction pointer and the log. -/
structure Walks (before after : Processor) : Prop where
  variant : after.variant = before.variant
  switches : after.switches = before.switches
  state : after.state = before.state
  shape : after.core.shape = before.core.shape
  memory : after.core.memory = before.core.memory
  registers : ∀ i, i ≠ before.core.registers.ipIndex →
    after.core.registers.cell i = before.core.registers.cell i

theorem walks_walked (p : Processor) (n : Nat) : p.Walks (p.walked n) where
  variant := rfl
  switches := rfl
  state := rfl
  shape := p.core.advanced_shape n
  memory := p.core.advanced_memory n
  registers _ hi := p.core.advanced_cell n hi

section

variable (hc : p.core.registers.WellFormed)
include hc

theorem fetch_walked {n : Nat} {w : Word} (h : p.core.readMemory (p.core.pointer n) = .ok w) :
    (p.walked n).fetch = (.ok w, p.walked (n + 1)) := by
  have hfetch : Core.fetch (p.walked n).core = .ok w (p.core.advanced (n + 1)) :=
    (Core.fetch_eq_ok hc).mpr ⟨h, rfl⟩
  rw [fetch, onCore, hfetch]
  rfl

theorem fetch_stopped {n : Nat} {fault : Fault}
    (h : p.core.readMemory (p.core.pointer n) = .error fault) :
    (p.walked n).fetch = (.error fault, p.walked n) := by
  have hfetch : Core.fetch (p.walked n).core = .error fault (p.core.advanced n) :=
    (Core.fetch_eq_error hc).mpr ⟨h, rfl⟩
  rw [fetch, onCore, hfetch]
  rfl

theorem fetch_ok {w : Word} (h : p.core.readMemory p.core.registers.ip = .ok w) :
    p.fetch = (.ok w, p.walked 1) := by
  have hfetch := fetch_walked hc (n := 0) h
  rwa [walked_zero] at hfetch

theorem fetch_error {fault : Fault}
    (h : p.core.readMemory p.core.registers.ip = .error fault) : p.fetch = (.error fault, p) := by
  have hfetch := fetch_stopped hc (n := 0) h
  rwa [walked_zero] at hfetch

theorem walk (words : Nat → Word) {n : Nat}
    (h : ∀ k < n, p.core.readMemory (p.core.pointer k) = .ok (words k)) :
    p.after (List.replicate n .fetch) = p.walked n ∧
      p.replies (List.replicate n .fetch) =
        (List.range n).map fun k => .core (.ok (.word (words k))) := by
  induction n with
  | zero => exact ⟨rfl, rfl⟩
  | succ n ih =>
    obtain ⟨hafter, hreplies⟩ := ih fun k hk => h k (Nat.lt_succ_of_lt hk)
    have hserve : (p.walked n).serve .fetch =
        (.core (.ok (.word (words n))), p.walked (n + 1)) := by
      simp only [serve, fetch_walked hc (h n (Nat.lt_succ_self n))]
      rfl
    rw [List.replicate_succ', after_append, replies_append, hafter, hreplies, List.range_succ,
      List.map_append]
    constructor
    · exact congrArg Prod.snd hserve
    · exact congrArg (_ ++ [·]) (congrArg Prod.fst hserve)

end

/-- A fetch that succeeds has read the word that the instruction pointer lies in, moved the pointer
on by one as it is stored, and left everything else alone. -/
structure Fetches (before : Processor) (w : Word) (after : Processor) : Prop where
  walks : before.Walks after
  ip : after.core.registers.ip =
    before.core.kind.coerce (before.core.registers.ip.add (Word.ofNat 1))
  read : ∃ a < before.core.memory.capacity, before.core.registers.ip.Within a ∧
    before.core.memory.read a = .ok w

theorem fetch_cases (hp : p.core.WellFormed) :
    (∃ w, p.fetch.1 = .ok w ∧ p.Fetches w p.fetch.2) ∨
      p.fetch = (.error (.outOfBounds p.core.registers.ip p.core.memory.capacity), p) := by
  cases h : p.core.readMemory p.core.registers.ip with
  | ok w =>
    have hfetch := fetch_ok hp.registers h
    obtain ⟨a, ha, hbound, hread⟩ := Core.readMemory_eq_ok.mp h
    rw [hfetch]
    exact Or.inl ⟨w, rfl, p.walks_walked 1, p.core.advanced_ip hp.registers 1, a,
      Address.lt_of_within ha hbound, ha, hread⟩
  | error fault =>
    obtain rfl := Core.readMemory_error hp.memory h
    exact Or.inr (fetch_error hp.registers h)

theorem fetch_succeeds_iff (hp : p.core.WellFormed) :
    (∃ w, p.fetch.1 = .ok w) ↔ ∃ a : Nat, p.core.registers.ip.Within a ∧
      (a : Int) < Address.bound p.core.memory.capacity := by
  constructor
  · rintro ⟨w, hw⟩
    cases h : p.core.readMemory p.core.registers.ip with
    | ok v =>
      obtain ⟨a, ha, hbound, -⟩ := Core.readMemory_eq_ok.mp h
      exact ⟨a, ha, hbound⟩
    | error fault =>
      rw [fetch_error hp.registers h] at hw
      cases hw
  · rintro ⟨a, ha, hbound⟩
    obtain ⟨w, hw⟩ := (Core.readMemory_within hp.memory ha).mpr hbound
    exact ⟨w, congrArg Prod.fst (fetch_ok hp.registers hw)⟩

theorem readMemory_pointer (hp : p.core.WellFormed)
    (hcapacity : p.core.memory.capacity < Address.limit) {k n : Nat}
    (hip : p.core.registers.ip.integer? = some (k : Int)) (hfits : k + n ≤ p.core.memory.capacity)
    (hexact : ∀ j, k ≤ j → j ≤ k + n → p.core.kind.Exact j) {j : Nat} (hj : j < n) :
    p.core.readMemory (p.core.pointer j) = .ok (p.core.memory.bank.word (k + j)) := by
  have hpointer := Core.pointer_integer? hip hexact (n := j) (by omega)
  have hnext := (hexact (k + j + 1) (by omega) (by omega)).integer
  have haddress : p.core.memory.addressOf (p.core.pointer j) = .ok (k + j) :=
    Address.ofWord_of_integer? hpointer hnext (by omega) hcapacity
  rw [Core.readMemory, haddress]
  exact hp.memory.read_eq_ok (by omega)

theorem readMemory_end {c : Core} (hm : c.memory.WellFormed) {w : Word}
    (hw : w.integer? = some (c.memory.capacity : Int)) :
    c.readMemory w = .error (.outOfBounds w c.memory.capacity) := by
  cases h : c.readMemory w with
  | error fault => rw [Core.readMemory_error hm h]
  | ok v =>
    obtain ⟨a, ha, hbound, -⟩ := Core.readMemory_eq_ok.mp h
    have hlt := Address.lt_of_within ha hbound
    have hsame := (Word.within_iff.mp ha).symm.trans (Word.floor_of_integer? hw)
    have hcapacity : (a : Int) = c.memory.capacity := Option.some.inj hsame
    omega

/-- A fetch succeeds just when the instruction pointer lies in an address, which up to `2 ^ 53` words
and for integer kinds is any below the capacity; past that the capacity is rounded for the
comparison. It answers the word there and moves the pointer on by one; one that fails changes
nothing. From an integer on, fetches answer the words in order for as long as the kind stores the
integers that are passed, and at the end of memory the next one fails. -/
theorem fetch_walks_memory (hp : p.core.WellFormed)
    (hcapacity : p.core.memory.capacity < Address.limit) :
    ((∃ w, p.fetch.1 = .ok w ∧ p.Fetches w p.fetch.2) ∨
      p.fetch = (.error (.outOfBounds p.core.registers.ip p.core.memory.capacity), p)) ∧
    ((∃ w, p.fetch.1 = .ok w) ↔ ∃ a : Nat, p.core.registers.ip.Within a ∧
      (a : Int) < Address.bound p.core.memory.capacity) ∧
    (p.core.memory.capacity ≤ 2 ^ 53 ∨ p.core.kind.isInteger →
      ((∃ w, p.fetch.1 = .ok w) ↔
        ∃ a < p.core.memory.capacity, p.core.registers.ip.Within a)) ∧
    ∀ k n : Nat, p.core.registers.ip.integer? = some (k : Int) →
      k + n ≤ p.core.memory.capacity → (∀ j, k ≤ j → j ≤ k + n → p.core.kind.Exact j) →
      let q := p.after (List.replicate n .fetch)
      (∀ a, k ≤ a → a < k + n → ∃ w, p.core.memory.read a = .ok w) ∧
      p.replies (List.replicate n .fetch) =
        (List.range' k n).map (fun a => .core ((p.core.memory.read a).map .word)) ∧
      q.core.registers.ip.integer? = some ((k + n : Nat) : Int) ∧ p.Walks q ∧
      (k + n = p.core.memory.capacity →
        q.fetch = (.error (.outOfBounds q.core.registers.ip p.core.memory.capacity), q)) := by
  refine ⟨fetch_cases hp, fetch_succeeds_iff hp, fun hexact => ?_, fun k n hip hfits hexact => ?_⟩
  · rw [fetch_succeeds_iff hp]
    constructor
    · rintro ⟨a, ha, hbound⟩
      exact ⟨a, Address.lt_of_within ha hbound, ha⟩
    · rintro ⟨a, hlt, ha⟩
      refine ⟨a, ha, ?_⟩
      rcases hexact with hsmall | hk
      · rw [Address.bound_eq_self hsmall]
        exact Int.ofNat_lt.mpr hlt
      · have hsmall := Core.ip_lt hp.registers hk ha
        have hunit : a + 1 = (a + 1) * 2 ^ 0 := by rw [Nat.pow_zero, Nat.mul_one]
        exact Address.lt_bound (by omega) hunit hlt hcapacity
  · have hread : ∀ a, k ≤ a → a < k + n →
        p.core.memory.read a = .ok (p.core.memory.bank.word a) := fun a _ ha =>
      hp.memory.read_eq_ok (by omega)
    obtain ⟨hafter, hreplies⟩ := walk hp.registers (fun j => p.core.memory.bank.word (k + j))
      fun j hj => readMemory_pointer hp hcapacity hip hfits hexact hj
    have hpointer := Core.pointer_integer? hip hexact (Nat.le_refl (k + n))
    have hend : (p.walked n).core.registers.ip = p.core.pointer n := p.core.advanced_ip hp.registers n
    intro q
    have hq : q = p.walked n := hafter
    refine ⟨fun a hle hlt => ⟨_, hread a hle hlt⟩, ?_, ?_, hq ▸ p.walks_walked n, fun hlast => ?_⟩
    · rw [hreplies, List.range'_eq_map_range, List.map_map]
      refine List.map_congr_left fun j hj => ?_
      rw [Function.comp_apply, hread (k + j) (by omega) (by have := List.mem_range.mp hj; omega)]
      rfl
    · rw [hq, hend, hpointer]
    · rw [hlast] at hpointer
      rw [hq, hend]
      exact fetch_stopped hp.registers (readMemory_end hp.memory hpointer)

theorem three_words_are_fetched :
    ∃ new, create (.ofModel .extended) ⟨some .float32, 4, some ["x"]⟩ = .ok new ∧
      let p := new.after [.memory (.loadWords 0 ([7, 8, 9, 10].map Word.ofNat)),
        .registers (.setIp (Word.ofNat 1))]
      let q := p.after (List.replicate 3 .fetch)
      let half := p.after [.registers (.setIp ((Word.ofNat 3).div (Word.ofNat 2)))]
      p.core.WellFormed ∧ p.core.memory.capacity < Address.limit ∧
        p.core.registers.ip.integer? = some 1 ∧ (∀ j, 1 ≤ j → j ≤ 4 → p.core.kind.Exact j) ∧
        p.replies (List.replicate 3 .fetch) =
          [.core (.ok (.word (Word.ofNat 8))), .core (.ok (.word (Word.ofNat 9))),
            .core (.ok (.word (Word.ofNat 10)))] ∧
        p.Walks q ∧ q.core.registers.ip.integer? = some 4 ∧
        q.fetch = (.error (.outOfBounds q.core.registers.ip 4), q) ∧
        half.fetch.1 = .ok (Word.ofNat 8) ∧ half.Fetches (Word.ofNat 8) half.fetch.2 := by
  let loaded : List HostCall := [.memory (.loadWords 0 ([7, 8, 9, 10].map Word.ofNat)),
    .registers (.setIp (Word.ofNat 1))]
  let halfway : List HostCall := [.registers (.setIp ((Word.ofNat 3).div (Word.ofNat 2)))]
  have hruns : (create (.ofModel .extended) ⟨some .float32, 4, some ["x"]⟩).map (fun new =>
      let p := new.after loaded
      ((p.core.memory.capacity, p.core.kind, p.core.registers.ip.integer?),
        (List.range' 1 3).map p.core.memory.read,
        ((p.after halfway).core.memory.capacity, (p.after halfway).fetch.1))) =
      .ok ((4, .float32, some 1), [8, 9, 10].map (fun n => .ok (Word.ofNat n)), 4,
        .ok (Word.ofNat 8)) := by
    decide +kernel
  obtain ⟨new, hnew, hruns⟩ := Check.map_eq_ok.mp hruns
  obtain ⟨hbegun, hruns⟩ := Prod.mk.inj hruns
  obtain ⟨hcapacity, hbegun⟩ := Prod.mk.inj hbegun
  obtain ⟨hkind, hip⟩ := Prod.mk.inj hbegun
  obtain ⟨hwords, hhalf⟩ := Prod.mk.inj hruns
  obtain ⟨hhalfCapacity, hread⟩ := Prod.mk.inj hhalf
  have hp : (new.after loaded).Reachable .extended := ⟨_, new, loaded, hnew, rfl⟩
  have hq : ((new.after loaded).after halfway).Reachable .extended :=
    ⟨_, new, loaded ++ halfway, hnew, (new.after_append loaded halfway).symm⟩
  have hlimit : (new.after loaded).core.memory.capacity < Address.limit := by
    rw [hcapacity]
    decide
  have hexact : ∀ j, 1 ≤ j → j ≤ 4 → (new.after loaded).core.kind.Exact j := by
    rw [hkind]
    intro j hlow hhigh
    have hsmall : ∀ j < 5, Kind.float32.Exact j := by decide +kernel
    exact hsmall j (by omega)
  obtain ⟨-, -, -, hwalk⟩ := fetch_walks_memory hp.sound.core hlimit
  obtain ⟨-, hreplies, hend, hwalks, hlast⟩ := hwalk 1 3 hip (by omega) hexact
  have hhalfLimit : ((new.after loaded).after halfway).core.memory.capacity < Address.limit := by
    rw [hhalfCapacity]
    decide
  obtain ⟨hfetch, -⟩ := fetch_walks_memory hq.sound.core hhalfLimit
  refine ⟨new, hnew, hp.sound.core, hlimit, hip, hexact, ?_, hwalks, hend, ?_, hread, ?_⟩
  · have hmap := congrArg (List.map fun x : Except Fault Word => Reply.core (x.map .word)) hwords
    rw [List.map_map] at hmap
    exact hreplies.trans hmap
  · rw [hcapacity] at hlast
    exact hlast rfl
  · rcases hfetch with ⟨w, hw, hfetches⟩ | hfails
    · obtain rfl : w = Word.ofNat 8 := Except.ok.inj (hw.symm.trans hread)
      exact hfetches
    · cases hread.symm.trans (congrArg Prod.fst hfails)

/-- A capacity one above `2 ^ 53` is compared as `2 ^ 53`, so its last word is not fetched. -/
theorem last_word_past_rounded_capacity :
    ∃ new, create (.ofModel .extended) ⟨some .float32, 2 ^ 53 + 1, some []⟩ = .ok new ∧
      let p := new.after [.registers (.setIp (Word.ofNat (2 ^ 53)))]
      p.Reachable .extended ∧ p.core.WellFormed ∧ p.core.memory.capacity = 2 ^ 53 + 1 ∧
        p.core.registers.ip.Within (2 ^ 53) ∧
        p.fetch.1 = .error (.outOfBounds (Word.ofNat (2 ^ 53)) (2 ^ 53 + 1)) := by
  let session : List HostCall := [.registers (.setIp (Word.ofNat (2 ^ 53)))]
  have hruns : (create (.ofModel .extended) ⟨some .float32, 2 ^ 53 + 1, some []⟩).map (fun new =>
      let p := new.after session
      decide (p.core.memory.capacity = 2 ^ 53 + 1 ∧ p.core.registers.ip.Within (2 ^ 53) ∧
        p.fetch.1 = .error (.outOfBounds (Word.ofNat (2 ^ 53)) (2 ^ 53 + 1)))) = .ok true := by
    decide +kernel
  obtain ⟨new, hnew, hruns⟩ := Check.map_eq_ok.mp hruns
  obtain ⟨hcapacity, hip, hfetch⟩ := of_decide_eq_true hruns
  have hp : (new.after session).Reachable .extended := ⟨_, new, session, hnew, rfl⟩
  exact ⟨new, hnew, hp, hp.sound.core, hcapacity, hip, hfetch⟩

end Processor

end WordMachine
