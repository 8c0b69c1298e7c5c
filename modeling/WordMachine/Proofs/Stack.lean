import WordMachine.Proofs.Execution
import WordMachine.Proofs.Image

/-!
# The memory stack

A stack that begins at a place holds up to that many words, and pushes and pops of the core do with
memory and the stack pointer what those of a list do. A push on a full stack is refused, and so is a
pop of an empty one at the top of memory; either leaves the core as it was.
-/

set_option autoImplicit false

namespace WordMachine

inductive StackCall where
  | push (w : Word)
  | pop
  deriving DecidableEq, Repr

/-- The words pushed and not yet popped, the last one first, and the most there ever were. -/
structure Stack where
  words : List Word := []
  deepest : Nat := 0

namespace Stack

def next (room : Nat) (s : Stack) : StackCall → Stack
  | .push w =>
    if s.words.length < room then ⟨w :: s.words, max s.deepest (s.words.length + 1)⟩ else s
  | .pop => ⟨s.words.tail, s.deepest⟩

def after (room : Nat) (s : Stack) (calls : List StackCall) : Stack := calls.foldl (next room) s

def Permits (room : Nat) : Stack → List StackCall → Prop
  | _, [] => True
  | s, call :: calls => (call = .pop → s.words ≠ []) ∧ Permits room (s.next room call) calls

theorem permits_pushes (room : Nat) (s : Stack) (ws : List Word) :
    s.Permits room (ws.map .push) := by
  induction ws generalizing s with
  | nil => trivial
  | cons w ws ih => exact ⟨StackCall.noConfusion, ih _⟩

theorem words_after_pushes (room : Nat) (s : Stack) (ws : List Word)
    (h : s.words.length + ws.length ≤ room) :
    (s.after room (ws.map .push)).words = ws.reverse ++ s.words := by
  induction ws generalizing s with
  | nil => rfl
  | cons w ws ih =>
    rw [List.length_cons] at h
    have hnext : (s.next room (.push w)).words = w :: s.words := by
      rw [next, if_pos (by omega)]
    have hrest := ih (s.next room (.push w)) (by rw [hnext, List.length_cons]; omega)
    rw [List.reverse_cons, List.append_assoc, List.singleton_append, ← hnext]
    exact hrest

end Stack

namespace Core

variable {c d : Core}

def stackCall : StackCall → Action Word
  | .push w => push w
  | .pop => pop

def afterStack (c : Core) (calls : List StackCall) : Core :=
  calls.foldl (fun c call => Work.final (stackCall call c)) c

def StackAt (c : Core) (n : Nat) : Prop :=
  ∃ top, c.readNamed stackPointer = .ok top ∧ top.integer? = some (n : Int)

instance decidableStackAt (c : Core) (n : Nat) : Decidable (c.StackAt n) :=
  match h : c.readNamed stackPointer with
  | .ok top => decidable_of_iff (top.integer? = some (n : Int)) (by simp [StackAt, h])
  | .error _ => isFalse (by simp [StackAt, h])

/-- What a stack that begins at a place needs: memory below it, and a kind that stores the places of
the stack as they are. -/
structure HasRoom (c : Core) (room : Nat) : Prop where
  wellFormed : c.WellFormed
  kinds : c.memory.kind = c.kind
  fits : room ≤ c.memory.capacity
  addressable : c.memory.capacity < Address.limit
  exact : ∀ n ≤ room, c.kind.Exact n

theorem HasRoom.of_shape {room : Nat} (h : c.HasRoom room) (hs : d.shape = c.shape) :
    d.HasRoom room := by
  have hkind : d.kind = c.kind := kind_of_shape hs
  have hmemory : d.memory.shape = c.memory.shape := congrArg (·.2) hs
  have hcapacity : d.memory.capacity = c.memory.capacity := Memory.capacity_of_shape hmemory
  exact {
    wellFormed := h.wellFormed.of_shape hs
    kinds := by rw [Memory.kind_of_shape hmemory, h.kinds, hkind]
    fits := hcapacity ▸ h.fits
    addressable := hcapacity ▸ h.addressable
    exact := hkind ▸ h.exact }

structure Moved (c d : Core) (n : Nat) : Prop where
  shape : d.shape = c.shape
  pointer : d.StackAt n
  memory : d.memory = c.memory
  registers : ∀ i, c.registers.place? (.name stackPointer) ≠ some i →
    d.registers.cell i = c.registers.cell i

theorem Moved.trans {e : Core} {n m : Nat} (h : c.Moved d n) (h' : d.Moved e m) : c.Moved e m where
  shape := h'.shape.trans h.shape
  pointer := h'.pointer
  memory := h'.memory.trans h.memory
  registers := fun i hi =>
    (h'.registers i (by rwa [place_of_shape h.shape])).trans (h.registers i hi)

section

variable {n : Nat}

theorem moved_store (hc : c.registers.WellFormed) (hn : c.kind.Exact n) {sp : Nat}
    (hsp : c.registers.place? (.name stackPointer) = some sp) :
    c.Moved (c.store (.register sp (Word.ofNat n))) n where
  shape := c.store_shape _
  pointer := ⟨_, (readNamed_store hc hsp _).trans (congrArg Except.ok hn.stored), hn.integer⟩
  memory := c.store_register_memory _ _
  registers := fun _ hi => c.registers.cell_put_ne _ fun he => hi (he ▸ hsp)

theorem StackAt.of_cell (h : c.StackAt n) (hs : d.shape = c.shape)
    (hcell : ∀ i, c.registers.place? (.name stackPointer) = some i →
      d.registers.cell i = c.registers.cell i) : d.StackAt n := by
  obtain ⟨top, htop, hinteger⟩ := h
  exact ⟨top, (readNamed_of_cell hs hcell).trans htop, hinteger⟩

theorem StackAt.advanced (hc : c.registers.WellFormed) (h : c.StackAt n) (k : Nat) :
    (c.advanced k).StackAt n := by
  obtain ⟨top, htop, hinteger⟩ := h
  exact ⟨top, (readNamed_advanced hc (by decide) k).trans htop, hinteger⟩

theorem StackAt.store_ip (hc : c.registers.WellFormed) (h : c.StackAt n) (w : Word) :
    (c.store (.register c.registers.ipIndex w)).StackAt n :=
  h.of_cell (c.store_shape _) fun _ hi =>
    c.registers.cell_put_ne w (Registers.place_ne_ip hc (by decide) hi)

theorem pushEffect_at (h : c.StackAt (n + 1)) (hn : (Word.ofNat n).integer? = some (n : Int))
    (hnext : (Word.ofNat (n + 1)).integer? = some ((n + 1 : Nat) : Int))
    (hlt : n < c.memory.capacity) (hcapacity : c.memory.capacity < Address.limit) (w : Word) :
    ∃ sp, c.registers.place? (.name stackPointer) = some sp ∧
      c.pushEffect w = .ok ⟨c.kind.coerce (Word.ofNat n),
        [.memory n w, .register sp (Word.ofNat n)]⟩ := by
  obtain ⟨top, htop, hinteger⟩ := h
  obtain ⟨sp, hsp, -⟩ := Registers.read_eq_ok.mp htop
  have hdown : top.sub (Word.ofNat 1) = Word.ofNat n := by
    rw [Word.sub_one hinteger, Int.natCast_succ, Int.add_sub_cancel, Word.ofInt_natCast]
  have haddress : c.memory.addressOf (Word.ofNat n) = .ok n :=
    Address.ofWord_of_integer? hn hnext hlt hcapacity
  have hresolve : c.registers.resolve (.name stackPointer) = .ok sp :=
    Registers.resolve_eq_ok.mpr hsp
  have hstored : c.writeEffect (Word.ofNat n) w = .ok ⟨(), [.memory n w]⟩ :=
    writeEffect_eq_ok.mpr ⟨n, haddress, rfl⟩
  refine ⟨sp, hsp, ?_⟩
  simp only [pushEffect, Check.bind_eq_ok, htop, hdown, hstored, hresolve, Check.pure_eq_ok,
    Except.ok.injEq, exists_eq_left', List.singleton_append]

theorem push_at (h : c.StackAt (n + 1)) (hn : (Word.ofNat n).integer? = some (n : Int))
    (hnext : (Word.ofNat (n + 1)).integer? = some ((n + 1 : Nat) : Int))
    (hlt : n < c.memory.capacity) (hcapacity : c.memory.capacity < Address.limit) (w : Word) :
    ∃ sp, c.registers.place? (.name stackPointer) = some sp ∧
      push w c = .ok (c.kind.coerce (Word.ofNat n))
        (c.storeAll [.memory n w, .register sp (Word.ofNat n)]) := by
  obtain ⟨sp, hsp, heffect⟩ := pushEffect_at h hn hnext hlt hcapacity w
  exact ⟨sp, hsp, perform_eq_ok.mpr ⟨_, heffect, rfl⟩⟩

theorem HasRoom.pushEffect {room : Nat} (hroom : c.HasRoom room) (hlt : n < room)
    (h : c.StackAt (n + 1)) (w : Word) :
    c.kind.Exact n ∧ n < c.memory.capacity ∧
      ∃ sp, c.registers.place? (.name stackPointer) = some sp ∧
        c.pushEffect w = .ok ⟨Word.ofNat n, [.memory n w, .register sp (Word.ofNat n)]⟩ := by
  have hexact := hroom.exact n (Nat.le_of_lt hlt)
  have hfits : n < c.memory.capacity := Nat.lt_of_lt_of_le hlt hroom.fits
  obtain ⟨sp, hsp, heffect⟩ :=
    pushEffect_at h hexact.integer (hroom.exact (n + 1) hlt).integer hfits hroom.addressable w
  rw [hexact.stored] at heffect
  exact ⟨hexact, hfits, sp, hsp, heffect⟩

theorem push_at_zero (h : c.StackAt 0) (w : Word) :
    push w c = .error (.outOfBounds (Word.ofInt (-1)) c.memory.capacity) c := by
  obtain ⟨top, htop, hinteger⟩ := h
  have hdown : top.sub (Word.ofNat 1) = Word.ofInt (-1) := Word.sub_one hinteger
  have hminus : (Word.ofInt (-1)).integer? = some (-1) := by decide +kernel
  have haddress : c.memory.addressOf (Word.ofInt (-1)) =
      .error (.outOfBounds (Word.ofInt (-1)) c.memory.capacity) :=
    Address.ofWord_refused hminus (Or.inl (by decide))
  refine perform_eq_error.mpr ⟨?_, rfl⟩
  simp only [pushEffect, writeEffect, htop, hdown, haddress, bind, Except.bind]

theorem pop_at {room : Nat} (hroom : c.HasRoom room) (hlt : n < room) (h : c.StackAt n) {w : Word}
    (hw : c.memory.read n = .ok w) : ∃ d, pop c = .ok w d ∧ c.Moved d (n + 1) := by
  obtain ⟨top, htop, hinteger⟩ := h
  obtain ⟨sp, hsp, -⟩ := Registers.read_eq_ok.mp htop
  have hexact := hroom.exact (n + 1) hlt
  have hone : (Word.ofNat 1).integer? = some 1 := by decide +kernel
  have hup : top.add (Word.ofNat 1) = Word.ofNat (n + 1) := by
    rw [Word.add_of_integers hinteger hone (Or.inr (by decide)), ← Int.natCast_succ,
      Word.ofInt_natCast]
  have haddress : c.memory.addressOf top = .ok n :=
    Address.ofWord_of_integer? hinteger hexact.integer (Nat.lt_of_lt_of_le hlt hroom.fits)
      hroom.addressable
  have hread : c.readMemory top = .ok w := by
    rw [readMemory, haddress]
    exact hw
  exact ⟨_, pop_eq_ok.mpr ⟨top, sp, htop, hread, hsp, by rw [hup]⟩,
    moved_store hroom.wellFormed.registers hexact hsp⟩

theorem pop_at_capacity (hexact : c.kind.Exact c.memory.capacity)
    (h : c.StackAt c.memory.capacity) :
    ∃ top, pop c = .error (.outOfBounds top c.memory.capacity) c := by
  obtain ⟨top, htop, hinteger⟩ := h
  have hbound : Address.bound c.memory.capacity = c.memory.capacity := by
    rw [Address.bound, hexact.integer]
    rfl
  have haddress : c.memory.addressOf top = .error (.outOfBounds top c.memory.capacity) :=
    Address.ofWord_refused hinteger (Or.inr (Int.le_of_eq hbound))
  refine ⟨top, perform_eq_error.mpr ⟨?_, rfl⟩⟩
  simp only [popEffect, readMemory, htop, haddress, bind, Except.bind]

end

/-- A core that began with an empty stack at a place, and carries a stack in the memory below. -/
structure Carries (before : Core) (room : Nat) (s : Stack) (after : Core) : Prop where
  shape : after.shape = before.shape
  depth : s.words.length ≤ s.deepest
  within : s.deepest ≤ room
  pointer : after.StackAt (room - s.words.length)
  holds : after.memory.Holds (room - s.words.length) (s.words.map before.kind.coerce)
  registers : ∀ i, before.registers.place? (.name stackPointer) ≠ some i →
    after.registers.cell i = before.registers.cell i
  memory : ∀ k, k < (room - s.deepest) * before.memory.kind.byteWidth ∨
      room * before.memory.kind.byteWidth ≤ k →
    after.memory.bytes[k]? = before.memory.bytes[k]?

namespace Carries

variable {room : Nat} {s : Stack}

theorem empty (h : c.StackAt room) : Carries c room {} c where
  shape := rfl
  depth := Nat.le_refl _
  within := Nat.zero_le _
  pointer := h
  holds := trivial
  registers := fun _ _ => rfl
  memory := fun _ _ => rfl

theorem push (h : Carries c room s d) (hroom : c.HasRoom room) (hlt : s.words.length < room)
    (w : Word) :
    ∃ e, Core.push w d = .ok (Word.ofNat (room - s.words.length - 1)) e ∧
      Carries c room (s.next room (.push w)) e := by
  have hdroom := hroom.of_shape h.shape
  obtain ⟨n, hn⟩ : ∃ n, room - s.words.length - 1 = n := ⟨_, rfl⟩
  have hplace : room - s.words.length = n + 1 := by omega
  have hnext : s.next room (.push w) = ⟨w :: s.words, max s.deepest (s.words.length + 1)⟩ := by
    rw [Stack.next, if_pos hlt]
  have htop := h.pointer
  have hrest := h.holds
  rw [hplace] at htop hrest
  obtain ⟨hexact, hfits, sp, hsp, heffect⟩ := hdroom.pushEffect (by omega) htop w
  let written := d.store (.memory n w)
  have hmoved : written.Moved (written.store (.register sp (Word.ofNat n))) n :=
    moved_store (c := written) hdroom.wellFormed.registers hexact hsp
  have hkind : d.memory.kind = c.memory.kind := congrArg (·.2.kind) h.shape
  have hbytes : ∀ k, k < n * d.memory.kind.byteWidth ∨ (n + 1) * d.memory.kind.byteWidth ≤ k →
      (d.memory.put n w).bytes[k]? = d.memory.bytes[k]? := d.memory.bank.bytes_put_frame n w
  have hlength : room - (s.words.length + 1) = n := by omega
  rw [hn, hnext]
  refine ⟨_, perform_eq_ok.mpr ⟨_, heffect, rfl⟩,
    hmoved.shape.trans ((d.store_shape _).trans h.shape), ?_, ?_, ?_, ?_, ?_, ?_⟩
  · exact Nat.le_max_right _ _
  · exact Nat.max_le.mpr ⟨h.within, hlt⟩
  · rw [List.length_cons, hlength]
    exact hmoved.pointer
  · have hread := Memory.read_put hdroom.wellFormed.memory hfits w
    rw [hkind, hroom.kinds] at hread
    rw [List.length_cons, hlength, List.map_cons]
    exact ⟨hread, hrest.of_bytes (d.memory.shape_put n w) fun k hlow _ => hbytes k (Or.inr hlow)⟩
  · intro i hi
    rw [← h.registers i hi]
    exact hmoved.registers i (by rwa [← place_of_shape h.shape] at hi)
  · intro k hk
    change k < (room - max s.deepest (s.words.length + 1)) * c.memory.kind.byteWidth ∨
      room * c.memory.kind.byteWidth ≤ k at hk
    have hlow : (room - max s.deepest (s.words.length + 1)) * c.memory.kind.byteWidth ≤
        n * c.memory.kind.byteWidth := Nat.mul_le_mul_right _ (by omega)
    have hless : (room - max s.deepest (s.words.length + 1)) * c.memory.kind.byteWidth ≤
        (room - s.deepest) * c.memory.kind.byteWidth := Nat.mul_le_mul_right _ (by omega)
    have hhigh : (n + 1) * c.memory.kind.byteWidth ≤ room * c.memory.kind.byteWidth :=
      Nat.mul_le_mul_right _ (by omega)
    rw [← h.memory k (by omega)]
    exact hbytes k (by rw [hkind]; omega)

theorem push_refused (h : Carries c room s d) (hfull : s.words.length = room) (w : Word) :
    Core.push w d = .error (.outOfBounds (Word.ofInt (-1)) d.memory.capacity) d := by
  have htop := h.pointer
  rw [hfull, Nat.sub_self] at htop
  exact push_at_zero htop w

theorem pop (h : Carries c room s d) (hroom : c.HasRoom room) {w : Word} {ws : List Word}
    (hs : s.words = w :: ws) :
    ∃ e, Core.pop d = .ok (c.kind.coerce w) e ∧ Carries c room (s.next room .pop) e := by
  have hdepth := h.depth
  have hwithin := h.within
  have htop := h.pointer
  have hholds := h.holds
  rw [hs, List.length_cons] at hdepth htop hholds
  have hplace : room - (ws.length + 1) + 1 = room - ws.length := by omega
  obtain ⟨e, hpop, hmoved⟩ := pop_at (hroom.of_shape h.shape) (by omega) htop hholds.1
  have hnext : s.next room .pop = ⟨ws, s.deepest⟩ := by rw [Stack.next, hs, List.tail_cons]
  rw [hnext]
  refine ⟨e, hpop, hmoved.shape.trans h.shape, Nat.le_of_succ_le hdepth, hwithin, ?_, ?_, ?_, ?_⟩
  · exact hplace ▸ hmoved.pointer
  · rw [hmoved.memory]
    exact hplace ▸ hholds.2
  · intro i hi
    rw [← h.registers i hi]
    exact hmoved.registers i (by rwa [← place_of_shape h.shape] at hi)
  · rw [hmoved.memory]
    exact h.memory

theorem pop_refused (h : Carries c room s d) (hroom : c.HasRoom room)
    (htop : room = c.memory.capacity) (hempty : s.words = []) :
    ∃ top, Core.pop d = .error (.outOfBounds top d.memory.capacity) d := by
  have hdroom := hroom.of_shape h.shape
  have hcapacity : d.memory.capacity = c.memory.capacity := congrArg (·.2.capacity) h.shape
  have hpointer := h.pointer
  rw [hempty, List.length_nil, Nat.sub_zero, htop, ← hcapacity] at hpointer
  exact pop_at_capacity (hdroom.exact _ (by omega)) hpointer

theorem next (h : Carries c room s d) (hroom : c.HasRoom room) (call : StackCall)
    (hcall : call = .pop → s.words ≠ []) :
    Carries c room (s.next room call) (Work.final (stackCall call d)) := by
  cases call with
  | push w =>
    by_cases hlt : s.words.length < room
    · obtain ⟨e, hpush, hcarries⟩ := h.push hroom hlt w
      rwa [stackCall, hpush]
    · have hfull : s.words.length = room := by
        have := h.depth
        have := h.within
        omega
      rw [stackCall, h.push_refused hfull w, Stack.next, if_neg hlt]
      exact h
  | pop =>
    obtain ⟨w, ws, hs⟩ := List.exists_cons_of_ne_nil (hcall rfl)
    obtain ⟨e, hpop, hcarries⟩ := h.pop hroom hs
    rwa [stackCall, hpop]

theorem after (h : Carries c room s d) (hroom : c.HasRoom room) {calls : List StackCall}
    (hcalls : s.Permits room calls) :
    Carries c room (s.after room calls) (d.afterStack calls) := by
  induction calls generalizing s d with
  | nil => exact h
  | cons call calls ih => exact ih (h.next hroom call hcalls.1) hcalls.2

end Carries

/-- The core carries the stack that a list would be after the same calls, and every further call
does with it what it should. -/
theorem stack_refines {room : Nat} (hroom : c.HasRoom room) (hempty : c.StackAt room)
    {calls : List StackCall} (hcalls : Stack.Permits room {} calls) :
    let s := Stack.after room {} calls
    let d := c.afterStack calls
    Carries c room s d ∧
      (s.words.length < room → ∀ w, ∃ e,
        push w d = .ok (Word.ofNat (room - s.words.length - 1)) e ∧
          Carries c room (s.next room (.push w)) e) ∧
      (s.words.length = room → ∀ w,
        push w d = .error (.outOfBounds (Word.ofInt (-1)) d.memory.capacity) d) ∧
      (∀ w ws, s.words = w :: ws → ∃ e, pop d = .ok (c.kind.coerce w) e ∧
        Carries c room (s.next room .pop) e) ∧
      (s.words = [] → room = c.memory.capacity →
        ∃ top, pop d = .error (.outOfBounds top d.memory.capacity) d) := by
  intro s d
  have h : Carries c room s d := (Carries.empty hempty).after hroom hcalls
  exact ⟨h, fun hlt w => h.push hroom hlt w, fun hfull w => h.push_refused hfull w,
    fun w ws hs => h.pop hroom hs, fun hs htop => h.pop_refused hroom htop hs⟩

theorem two_words_are_popped :
    let c := store ⟨⟨["ip", "sp"], Bank.zeroed .uint8 2, 0, none⟩, Memory.create .uint8 4, #[]⟩
      (.register 1 (Word.ofNat 4))
    let calls := [.push (Word.ofNat 7), .push (Word.ofNat 300), .pop]
    c.HasRoom 4 ∧ c.StackAt 4 ∧ Stack.Permits 4 {} calls ∧
      (∃ e, pop (c.afterStack (calls.take 2)) = .ok (Word.ofNat 44) e) ∧
      ∃ e, pop (c.afterStack calls) = .ok (Word.ofNat 7) e := by
  intro c calls
  let blank : Core := ⟨⟨["ip", "sp"], Bank.zeroed .uint8 2, 0, none⟩, Memory.create .uint8 4, #[]⟩
  have hnew : Registers.create .uint8 ["ip", "sp"] = .ok blank.registers := by rfl
  have hblank : blank.WellFormed :=
    ⟨Registers.create_wellFormed hnew, Memory.create_wellFormed .uint8 4⟩
  have hroom : c.HasRoom 4 :=
    ⟨hblank.of_shape (store_shape _ _), rfl, Nat.le_refl 4, by decide, by decide +kernel⟩
  have hempty : c.StackAt 4 := ⟨Word.ofNat 4, by decide +kernel, by decide +kernel⟩
  have htwo : Stack.Permits 4 {} (calls.take 2) := by simp [calls, Stack.Permits]
  have hcalls : Stack.Permits 4 {} calls := by simp [calls, Stack.Permits, Stack.next]
  have hfirst := (stack_refines hroom hempty htwo).2.2.2.1 (Word.ofNat 300) [Word.ofNat 7] rfl
  have hsecond := (stack_refines hroom hempty hcalls).2.2.2.1 (Word.ofNat 7) [] rfl
  have hlarge : Kind.uint8.coerce (Word.ofNat 300) = Word.ofNat 44 := by decide +kernel
  have hsmall : Kind.uint8.coerce (Word.ofNat 7) = Word.ofNat 7 := by decide +kernel
  obtain ⟨e, hfirst, -⟩ := hfirst
  obtain ⟨f, hsecond, -⟩ := hsecond
  exact ⟨hroom, hempty, hcalls, ⟨e, hfirst.trans (congrArg (EStateM.Result.ok · e) hlarge)⟩,
    f, hsecond.trans (congrArg (EStateM.Result.ok · f) hsmall)⟩

end Core

end WordMachine
