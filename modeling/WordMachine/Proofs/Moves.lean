import WordMachine.Proofs.Calculation
import WordMachine.Proofs.RoundTrip

/-!
# Moves of words

A move decodes the word at one location and encodes it again at another. The bytes it leaves are
those it found once its operands were fetched, be the locations the instruction pointer, the stack
pointer or the register that points; so a word that is moved on and on stays what it was. Only at
the instruction pointer it does not stay, since the next instruction moves that on.
-/

set_option autoImplicit false

namespace WordMachine

inductive Location where
  | register (index : Nat)
  | memory (address : Nat)
  deriving DecidableEq, Repr

namespace Location

def place : Location → Nat
  | register i => i
  | memory a => a

def write : Location → Word → Write
  | register i, w => .register i w
  | memory a, w => .memory a w

end Location

def Write.location : Write → Location
  | .register i _ => .register i
  | .memory a _ => .memory a

namespace Core

variable {c d : Core} {l m : Location}

def bankAt (c : Core) : Location → Bank
  | .register _ => c.registers.bank
  | .memory _ => c.memory.bank

def bytesAt (c : Core) (l : Location) : List UInt8 :=
  ((c.bankAt l).span l.place (l.place + 1)).toList

def wordAt (c : Core) (l : Location) : Word := (c.bankAt l).word l.place

structure Has (c : Core) (l : Location) : Prop where
  kind : (c.bankAt l).kind = c.kind
  fits : (l.place + 1) * (c.bankAt l).kind.byteWidth ≤ (c.bankAt l).bytes.size

theorem has_register (hc : c.registers.WellFormed) {s : Selector} {i : Nat}
    (h : c.registers.place? s = some i) : c.Has (.register i) :=
  ⟨rfl, c.registers.bank.word_lies_in (Registers.place_lt h) hc.size_bytes⟩

theorem has_memory (hm : c.memory.WellFormed) (hkinds : c.memory.kind = c.kind) {w : Word} {a : Nat}
    (h : c.memory.addressOf w = .ok a) : c.Has (.memory a) :=
  ⟨hkinds, c.memory.bank.word_lies_in (Address.ofWord_lt h) hm⟩

theorem Has.of_shape (hs : d.shape = c.shape) (h : c.Has l) : d.Has l := by
  have hkind : d.kind = c.kind := kind_of_shape hs
  have hbank : (d.bankAt l).kind = (c.bankAt l).kind := by
    cases l with
    | register i => exact hkind
    | memory a => exact congrArg (·.2.kind) hs
  have hsize : (d.bankAt l).bytes.size = (c.bankAt l).bytes.size := by
    cases l with
    | register i => exact congrArg (·.1.bytes) hs
    | memory a => exact congrArg (·.2.bytes) hs
  constructor
  · rw [hbank, h.kind, hkind]
  · rw [hbank, hsize]
    exact h.fits

theorem length_bytesAt (h : c.Has l) : (c.bytesAt l).length = c.kind.byteWidth := by
  rw [← h.kind]
  exact (c.bankAt l).length_span l.place h.fits

theorem wordAt_eq (h : c.Has l) : c.wordAt l = c.kind.ofPattern (Bytes.toNat (c.bytesAt l)) := by
  have hread := (c.bankAt l).read_eq_ok l.place h.fits
  rw [Bank.read, Kind.decode_eq_ok ((c.bankAt l).length_span l.place h.fits), h.kind] at hread
  exact (Except.ok.inj hread).symm

theorem bytesAt_store_ne (c : Core) {w : Write} (h : w.location ≠ l) :
    (c.store w).bytesAt l = c.bytesAt l := by
  cases w with
  | register i v =>
    cases l with
    | register j =>
      have hne : j ≠ i := fun hij => h (congrArg Location.register hij.symm)
      exact congrArg Array.toList (c.registers.bank.span_put_ne v hne)
    | memory a => rfl
  | memory a v =>
    cases l with
    | register j => rfl
    | memory b =>
      have hne : b ≠ a := fun hba => h (congrArg Location.memory hba.symm)
      exact congrArg Array.toList (c.memory.bank.span_put_ne v hne)

theorem bytesAt_storeAll_ne (c : Core) {writes : List Write} (h : ∀ w ∈ writes, w.location ≠ l) :
    (c.storeAll writes).bytesAt l = c.bytesAt l := by
  induction writes generalizing c with
  | nil => rfl
  | cons w writes ih =>
    have hrest := ih (c.store w) fun v hv => h v (List.mem_cons_of_mem w hv)
    exact hrest.trans (c.bytesAt_store_ne (h w List.mem_cons_self))

theorem bytesAt_store (h : c.Has l) (w : Word) :
    (c.store (l.write w)).bytesAt l = c.kind.encode w := by
  rw [← h.kind]
  have hspan := (c.bankAt l).span_putBytes l.place ((c.bankAt l).kind.length_encode w) h.fits
  cases l with
  | register i => exact hspan
  | memory a => exact hspan

theorem bytesAt_advanced (c : Core) (n : Nat) (h : l ≠ .register c.registers.ipIndex) :
    (c.advanced n).bytesAt l = c.bytesAt l := by
  refine c.bytesAt_storeAll_ne fun w hw => ?_
  obtain ⟨k, -, rfl⟩ := List.mem_map.mp hw
  exact fun hip => h hip.symm

def Delivers (d : Core) (source target : Location) (writes : List Write) : Prop :=
  ∃ before after, writes = before ++ target.write (d.wordAt source) :: after ∧
    ∀ w ∈ after, w.location ≠ target

theorem Delivers.bytes {writes : List Write} (h : d.Delivers l m writes) (hm : d.Has m) :
    (d.storeAll writes).bytesAt m = d.kind.encode (d.wordAt l) := by
  obtain ⟨before, after, rfl, hafter⟩ := h
  have hs := d.storeAll_shape before
  have hkind : (d.storeAll before).kind = d.kind := kind_of_shape hs
  rw [storeAll_append]
  refine ((d.storeAll before).store (m.write (d.wordAt l))).bytesAt_storeAll_ne hafter |>.trans ?_
  rw [bytesAt_store (hm.of_shape hs), hkind]

end Core

/-- A word is copied byte by byte. In the narrow float kind a pattern of no number need not be, but
comes as another such pattern. -/
structure Copies (k : Kind) (source target : List UInt8) : Prop where
  whole : source.length = k.byteWidth
  same : ¬ k.Loses source → target = source
  lost : k.Loses source → k.Loses target

namespace Copies

variable {k : Kind} {a b c : List UInt8}

theorem trans (hab : Copies k a b) (hbc : Copies k b c) : Copies k a c where
  whole := hab.whole
  same := by
    intro hkeeps
    have hb := hab.same hkeeps
    rw [hbc.same (hb ▸ hkeeps), hb]
  lost := fun h => hbc.lost (hab.lost h)

theorem encode (h : a.length = k.byteWidth) :
    Copies k a (k.encode (k.ofPattern (Bytes.toNat a))) where
  whole := h
  same := Kind.encode_ofPattern h
  lost := fun hloses => (Kind.encode_of_loses h hloses).2

end Copies

/-- Where a move finds its word or puts it: the register that an operand picks, memory at the address
in that register or at the operand, the operand itself, which stands in memory, and memory at or
below the top of the stack. -/
inductive Spot where
  | register (operand : Nat)
  | through (operand : Nat)
  | address (operand : Nat)
  | stream (operand : Nat)
  | top
  | belowTop
  deriving DecidableEq, Repr

def Instruction.moves : List (String × Spot × Spot) := [
  ("MOV_REG_REG", .register 1, .register 0),
  ("MOV_REGPTR_REG", .register 1, .through 0),
  ("MOV_REG_REGPTR", .through 1, .register 0),
  ("MOV_CONST_REG", .stream 1, .register 0),
  ("MOV_ADDR_REG", .address 1, .register 0),
  ("MOV_REG_ADDR", .register 1, .address 0),
  ("PUSH_CONST", .stream 0, .belowTop),
  ("PUSH_REG", .register 0, .belowTop),
  ("POP", .top, .register 0),
  ("LDR", .address 1, .register 0)]

def Instruction.move? (row : Instruction) : Option (Spot × Spot) := moves.lookup row.name

def OneOperand.move? : OneOperand → Option (Spot × Spot)
  | .push .constant => some (.stream 0, .belowTop)
  | .push .register => some (.register 0, .belowTop)
  | .pop => some (.top, .register 0)
  | _ => none

def TwoOperand.move? : TwoOperand → Option (Spot × Spot)
  | .move => some (.register 1, .register 0)
  | .storeThrough => some (.register 1, .through 0)
  | .loadThrough => some (.through 1, .register 0)
  | .moveConstant => some (.stream 1, .register 0)
  | .load | .copyIn => some (.address 1, .register 0)
  | .copyOut => some (.register 1, .address 0)
  | _ => none

def Operation.move? : Operation → Option (Spot × Spot)
  | .one op => op.move?
  | .two op => op.move?
  | _ => none

/-- The names of the rows tell which operations are moves. -/
theorem Model.move?_eq {model : Model} {row : Instruction} (h : row ∈ model.instructions) :
    row.move? = row.operation.move? := by
  revert row
  cases model <;> decide +kernel

/-- A word on its way, with how many words are fetched before it is. -/
structure Transfer where
  source : Location
  target : Location
  words : Nat
  deriving DecidableEq, Repr

namespace Core

variable {c d : Core}

def memoryAt? (c : Core) (w : Word) : Option Location := (c.memory.addressOf w).toOption.map .memory

def locate? (c : Core) (ws : List Word) (s : Spot) : Option Location :=
  let fetched := c.advanced (1 + ws.length)
  match s with
  | .register i => do
    let w ← ws[i]?
    (fetched.registers.place? (.index w)).map .register
  | .through i => do
    let w ← ws[i]?
    let pointer ← (fetched.readRegister w).toOption
    fetched.memoryAt? pointer
  | .address i => do
    let w ← ws[i]?
    fetched.memoryAt? w
  | .stream i => fetched.memoryAt? (c.pointer (1 + i))
  | .top => do
    let top ← (fetched.readNamed stackPointer).toOption
    fetched.memoryAt? top
  | .belowTop => do
    let top ← (fetched.readNamed stackPointer).toOption
    fetched.memoryAt? (top.sub (Word.ofNat 1))

def transfer? (model : Model) (c : Core) : Option Transfer := do
  let opcode ← (c.readMemory c.registers.ip).toOption
  let row ← model.instructions.lookup? opcode
  let (source, target) ← row.move?
  let ws ← c.operands? 1 row.arguments.length
  return ⟨← c.locate? ws source, ← c.locate? ws target, 1 + ws.length⟩

def Conveys (c : Core) (ws : List Word) (move : Spot × Spot) (writes : List Write) : Prop :=
  ∃ source target, c.locate? ws move.1 = some source ∧ c.locate? ws move.2 = some target ∧
    (c.advanced (1 + ws.length)).Delivers source target writes

theorem transfer?_eq_some {model : Model} {opcode : Word} {row : Instruction} {ws : List Word}
    {move : Spot × Spot} {source target : Location}
    (hrow : model.instructions.lookup? opcode = some row) (hstreams : c.Streams 0 (opcode :: ws))
    (hlength : ws.length = row.arguments.length) (hmove : row.move? = some move)
    (hsource : c.locate? ws move.1 = some source) (htarget : c.locate? ws move.2 = some target) :
    c.transfer? model = some ⟨source, target, 1 + ws.length⟩ := by
  have hopcode : (c.readMemory c.registers.ip).toOption = some opcode :=
    toOption_eq_some.mpr hstreams.1
  have hws : c.operands? 1 row.arguments.length = some ws :=
    operands?_eq_some.mpr ⟨hstreams.2, hlength⟩
  simp [transfer?, hopcode, hrow, hmove, hws, hsource, htarget]

theorem transfer?_row {model : Model} {t : Transfer} (h : c.transfer? model = some t) :
    ∃ opcode row move, c.readMemory c.registers.ip = .ok opcode ∧
      model.instructions.lookup? opcode = some row ∧ row.move? = some move := by
  simp only [transfer?, Option.bind_eq_bind, Option.bind_eq_some_iff, toOption_eq_some] at h
  obtain ⟨opcode, hopcode, row, hrow, move, hmove, -⟩ := h
  exact ⟨opcode, row, move, hopcode, hrow, hmove⟩

theorem Delivers.single {source target : Location} {writes : List Write}
    (h : writes = [target.write (d.wordAt source)]) : d.Delivers source target writes :=
  ⟨[], [], h, by simp⟩

theorem addressOf_located {w : Word} {a : Nat} (h : d.memory.addressOf w = .ok a) :
    d.memoryAt? w = some (.memory a) := by
  simp [memoryAt?, toOption_eq_some.mpr h]

theorem readMemory_located (hm : d.memory.WellFormed) {w v : Word} (h : d.readMemory w = .ok v) :
    ∃ a, d.memoryAt? w = some (.memory a) ∧ d.wordAt (.memory a) = v := by
  obtain ⟨a, ha, h⟩ := Check.bind_eq_ok.mp h
  rw [hm.read_eq_ok (Address.ofWord_lt ha)] at h
  exact ⟨a, addressOf_located ha, Except.ok.inj h⟩

theorem pushEffect_conveys (ws : List Word) {value : Word} {e : Effect Word}
    (h : (c.advanced (1 + ws.length)).pushEffect value = .ok e) {s : Spot} {source : Location}
    (hsource : c.locate? ws s = some source)
    (hword : (c.advanced (1 + ws.length)).wordAt source = value) :
    c.Conveys ws (s, .belowTop) e.writes := by
  subst hword
  obtain ⟨top, htop, h⟩ := Check.bind_eq_ok.mp h
  obtain ⟨stored, hstored, h⟩ := Check.bind_eq_ok.mp h
  obtain ⟨a, ha, rfl⟩ := writeEffect_eq_ok.mp hstored
  obtain ⟨sp, -, h⟩ := Check.bind_eq_ok.mp h
  have htarget : c.locate? ws .belowTop = some (.memory a) := by
    simp [locate?, toOption_eq_some.mpr htop, addressOf_located ha]
  cases h
  exact ⟨source, .memory a, hsource, htarget, [], [.register sp _], rfl, by simp [Write.location]⟩

theorem popEffect_located (ws : List Word) (hm : (c.advanced (1 + ws.length)).memory.WellFormed)
    {e : Effect Word} (h : (c.advanced (1 + ws.length)).popEffect = .ok e) :
    ∃ a, c.locate? ws .top = some (.memory a) ∧
      (c.advanced (1 + ws.length)).wordAt (.memory a) = e.answer := by
  obtain ⟨top, htop, h⟩ := Check.bind_eq_ok.mp h
  obtain ⟨v, hv, h⟩ := Check.bind_eq_ok.mp h
  obtain ⟨sp, -, h⟩ := Check.bind_eq_ok.mp h
  obtain ⟨a, ha, hword⟩ := readMemory_located hm hv
  cases h
  exact ⟨a, by simp [locate?, toOption_eq_some.mpr htop, ha], hword⟩

section

variable (hc : c.WellFormed)
include hc

theorem locate?_has (hkinds : c.memory.kind = c.kind) {ws : List Word} {s : Spot} {l : Location}
    (h : c.locate? ws s = some l) : (c.advanced (1 + ws.length)).Has l := by
  have hs := c.advanced_shape (1 + ws.length)
  have hwell := hc.of_shape hs
  have hkind : (c.advanced (1 + ws.length)).memory.kind = (c.advanced (1 + ws.length)).kind := by
    rw [c.advanced_memory, hkinds]
    exact (kind_of_shape hs).symm
  have hmemory : ∀ w, (c.advanced (1 + ws.length)).memoryAt? w = some l →
      (c.advanced (1 + ws.length)).Has l := by
    intro w hw
    obtain ⟨a, ha, rfl⟩ := Option.map_eq_some_iff.mp hw
    exact has_memory hwell.memory hkind (toOption_eq_some.mp ha)
  cases s with
  | register i =>
    obtain ⟨w, -, h⟩ := Option.bind_eq_some_iff.mp h
    obtain ⟨r, hr, rfl⟩ := Option.map_eq_some_iff.mp h
    exact has_register hwell.registers hr
  | through i =>
    obtain ⟨w, -, h⟩ := Option.bind_eq_some_iff.mp h
    obtain ⟨pointer, -, h⟩ := Option.bind_eq_some_iff.mp h
    exact hmemory pointer h
  | address i =>
    obtain ⟨w, -, h⟩ := Option.bind_eq_some_iff.mp h
    exact hmemory w h
  | stream i => exact hmemory _ h
  | top =>
    obtain ⟨top, -, h⟩ := Option.bind_eq_some_iff.mp h
    exact hmemory top h
  | belowTop =>
    obtain ⟨top, -, h⟩ := Option.bind_eq_some_iff.mp h
    exact hmemory _ h

theorem stream_located (ws : List Word) {i : Nat} {w : Word}
    (h : c.readMemory (c.pointer (1 + i)) = .ok w) :
    ∃ a, c.locate? ws (.stream i) = some (.memory a) ∧
      (c.advanced (1 + ws.length)).wordAt (.memory a) = w := by
  have hread := (readMemory_of_memory (c.advanced_memory (1 + ws.length)) _).trans h
  exact readMemory_located (memory_of_shape (c.advanced_shape _) hc.memory) hread

end

end Core

theorem OneOperand.effect_conveys {c : Core} (hc : c.WellFormed) {op : OneOperand} {w : Word}
    {e : Effect String} (hw : c.readMemory (c.pointer 1) = .ok w)
    (h : op.effect w (c.advanced 2) = .ok e) {move : Spot × Spot} (hm : op.move? = some move) :
    c.Conveys [w] move e.writes := by
  have hmemory := Core.memory_of_shape (c.advanced_shape 2) hc.memory
  cases op with
  | push o =>
    obtain ⟨value, hvalue, h⟩ := Check.bind_eq_ok.mp h
    obtain ⟨pushed, hpushed, h⟩ := Check.bind_eq_ok.mp h
    cases h
    cases o with
    | constant =>
      cases hm
      cases hvalue
      obtain ⟨a, ha, hword⟩ := Core.stream_located hc [w] (i := 0) hw
      exact Core.pushEffect_conveys [w] hpushed ha hword
    | register =>
      cases hm
      obtain ⟨i, hi, hword⟩ := Registers.read_eq_ok.mp hvalue
      have hsource : c.locate? [w] (.register 0) = some (.register i) := by simp [Core.locate?, hi]
      exact Core.pushEffect_conveys [w] hpushed hsource hword
  | pop =>
    cases hm
    obtain ⟨i, hi, h⟩ := Check.bind_eq_ok.mp h
    obtain ⟨popped, hpopped, h⟩ := Check.bind_eq_ok.mp h
    cases h
    obtain ⟨a, ha, hword⟩ := Core.popEffect_located [w] hmemory hpopped
    have htarget : c.locate? [w] (.register 0) = some (.register i) := by
      simp [Core.locate?, Registers.resolve_eq_ok.mp hi]
    -- the word popped is written last, so it stays also where it is popped into the stack pointer
    exact ⟨.memory a, .register i, ha, htarget, popped.writes, [], by rw [hword]; rfl, by simp⟩
  | squareRoot o | increment | decrement | complement | jump condition o | call o => cases hm

theorem TwoOperand.effect_conveys {c : Core} (hc : c.WellFormed) {op : TwoOperand} {v w : Word}
    {e : Effect String} (hw : c.readMemory (c.pointer 2) = .ok w)
    (h : op.effect v w (c.advanced 3) = .ok e) {move : Spot × Spot} (hm : op.move? = some move) :
    c.Conveys [v, w] move e.writes := by
  have hmemory := Core.memory_of_shape (c.advanced_shape 3) hc.memory
  cases op with
  | move =>
    cases hm
    obtain ⟨value, hvalue, h⟩ := Check.bind_eq_ok.mp h
    obtain ⟨j, hj, rfl⟩ := Registers.read_eq_ok.mp hvalue
    obtain ⟨i, hi, hwrites⟩ := Core.assign_eq_ok h
    exact ⟨.register j, .register i, by simp [Core.locate?, hj], by simp [Core.locate?, hi],
      .single hwrites⟩
  | storeThrough =>
    cases hm
    obtain ⟨address, haddress, h⟩ := Check.bind_eq_ok.mp h
    obtain ⟨value, hvalue, h⟩ := Check.bind_eq_ok.mp h
    obtain ⟨stored, hstored, h⟩ := Check.bind_eq_ok.mp h
    obtain ⟨a, ha, rfl⟩ := Core.writeEffect_eq_ok.mp hstored
    obtain ⟨j, hj, rfl⟩ := Registers.read_eq_ok.mp hvalue
    cases h
    refine ⟨.register j, .memory a, by simp [Core.locate?, hj], ?_, .single rfl⟩
    simp [Core.locate?, Core.toOption_eq_some.mpr haddress, Core.addressOf_located ha]
  | loadThrough =>
    cases hm
    obtain ⟨address, haddress, h⟩ := Check.bind_eq_ok.mp h
    obtain ⟨value, hvalue, h⟩ := Check.bind_eq_ok.mp h
    obtain ⟨a, ha, rfl⟩ := Core.readMemory_located hmemory hvalue
    obtain ⟨i, hi, hwrites⟩ := Core.assign_eq_ok h
    refine ⟨.memory a, .register i, ?_, by simp [Core.locate?, hi], .single hwrites⟩
    simp [Core.locate?, Core.toOption_eq_some.mpr haddress, ha]
  | moveConstant =>
    cases hm
    obtain ⟨a, ha, hword⟩ := Core.stream_located hc [v, w] (i := 1) hw
    obtain ⟨i, hi, hwrites⟩ := Core.assign_eq_ok h
    rw [← hword] at hwrites
    exact ⟨.memory a, .register i, ha, by simp [Core.locate?, hi], .single hwrites⟩
  | load | copyIn =>
    cases hm
    obtain ⟨value, hvalue, h⟩ := Check.bind_eq_ok.mp h
    obtain ⟨a, ha, rfl⟩ := Core.readMemory_located hmemory hvalue
    obtain ⟨i, hi, hwrites⟩ := Core.assign_eq_ok h
    exact ⟨.memory a, .register i, by simp [Core.locate?, ha], by simp [Core.locate?, hi],
      .single hwrites⟩
  | copyOut =>
    cases hm
    obtain ⟨value, hvalue, h⟩ := Check.bind_eq_ok.mp h
    obtain ⟨stored, hstored, h⟩ := Check.bind_eq_ok.mp h
    obtain ⟨a, ha, rfl⟩ := Core.writeEffect_eq_ok.mp hstored
    obtain ⟨j, hj, rfl⟩ := Registers.read_eq_ok.mp hvalue
    cases h
    refine ⟨.register j, .memory a, by simp [Core.locate?, hj], ?_, .single rfl⟩
    simp [Core.locate?, Core.addressOf_located ha]
  | arithmetic op o | bitwise op o | compare o => cases hm

theorem Operation.body_conveys {op : Operation} {ws : List Word} {c d : Core} {text : String}
    (hc : c.WellFormed) (hstreams : c.Streams 1 ws) (hlength : ws.length = op.arguments.length)
    (h : op.body ws (c.advanced (1 + ws.length)) = .ok text d) {move : Spot × Spot}
    (hm : op.move? = some move) :
    ∃ writes, d = (c.advanced (1 + ws.length)).storeAll writes ∧ c.Conveys ws move writes := by
  cases op with
  | one op =>
    obtain ⟨w, rfl⟩ := List.length_eq_one_iff.mp hlength
    obtain ⟨writes, he, hd⟩ := Core.perform_eq_ok.mp h
    exact ⟨writes, hd, op.effect_conveys hc hstreams.1 he hm⟩
  | two op =>
    obtain ⟨v, w, rfl⟩ : ∃ v w, ws = [v, w] := ⟨_, _, List.eq_getElem_of_length_eq_two ws hlength⟩
    obtain ⟨writes, he, hd⟩ := Core.perform_eq_ok.mp h
    exact ⟨writes, hd, op.effect_conveys hc hstreams.2.1 he hm⟩
  | idle | stop remark | ret => cases hm

namespace Processor

variable {model : Model} {p q : Processor}

/-- The next cycle succeeds, and it makes the transfer. -/
def Moves (model : Model) (p : Processor) (t : Transfer) : Prop :=
  p.Succeeds ∧ p.core.transfer? model = some t

instance decidableMoves (model : Model) (p : Processor) (t : Transfer) : Decidable (p.Moves model t) :=
  inferInstanceAs (Decidable (_ ∧ _))

def found (p : Processor) (t : Transfer) : List UInt8 := (p.core.advanced t.words).bytesAt t.source

theorem cycle_transfers (hp : p.Sound model) (h : p.Succeeds) {opcode : Word} {row : Instruction}
    {move : Spot × Spot} (hopcode : p.core.readMemory p.core.registers.ip = .ok opcode)
    (hrow : model.instructions.lookup? opcode = some row) (hmove : row.move? = some move) :
    ∃ t, p.Moves model t ∧
      Copies p.core.kind (p.found t) (p.cycle.2.core.bytesAt t.target) := by
  obtain ⟨continues, hresult⟩ := id h
  obtain ⟨ws, hstreams, hlength, text, hbody⟩ := cycle_body hp hresult hopcode hrow
  have hoperation := (Model.move?_eq (Model.mem_of_lookup hrow)).symm.trans hmove
  obtain ⟨writes, hd, source, target, hsource, htarget, hdelivers⟩ :=
    Operation.body_conveys hp.core hstreams.2 hlength hbody hoperation
  rw [← Model.arguments_of_lookup hrow] at hlength
  have htransfer := Core.transfer?_eq_some hrow hstreams hlength hmove hsource htarget
  have hhas := Core.locate?_has hp.core hp.kinds hsource
  have hkind : (p.core.advanced (1 + ws.length)).kind = p.core.kind :=
    Core.kind_of_shape (p.core.advanced_shape _)
  refine ⟨_, ⟨h, htransfer⟩, ?_⟩
  rw [hd, hdelivers.bytes (Core.locate?_has hp.core hp.kinds htarget), Core.wordAt_eq hhas, hkind]
  exact .encode ((Core.length_bytesAt hhas).trans (congrArg Kind.byteWidth hkind))

theorem Moves.copies {t : Transfer} (hp : p.Sound model) (h : p.Moves model t) :
    Copies p.core.kind (p.found t) (p.cycle.2.core.bytesAt t.target) := by
  obtain ⟨opcode, row, move, hopcode, hrow, hmove⟩ := Core.transfer?_row h.2
  obtain ⟨t', ht', hcopies⟩ := cycle_transfers hp h.1 hopcode hrow hmove
  obtain rfl : t' = t := Option.some.inj (ht'.2.symm.trans h.2)
  exact hcopies

/-- A word is moved on and on by the next cycles, or left alone by them. The locations are those that
it is moved on from. -/
inductive Relays (model : Model) : Processor → Location → List Location → Processor → Location → Prop
  where
  | arrived (p : Processor) (l : Location) : Relays model p l [] p l
  | moved {p q : Processor} {l m last : Location} {n : Nat} {via : List Location} :
    p.Moves model ⟨l, m, n⟩ → Relays model p.cycle.2 m via q last → Relays model p l (l :: via) q last
  | left {p q : Processor} {l last : Location} {via : List Location} :
    p.cycle.2.core.bytesAt l = p.core.bytesAt l → Relays model p.cycle.2 l via q last →
    Relays model p l via q last

theorem Relays.copies {l last : Location} {via : List Location} (h : Relays model p l via q last)
    (hp : p.Sound model) (hvia : .register p.core.registers.ipIndex ∉ via) {bytes : List UInt8}
    (hcopies : Copies p.core.kind bytes (p.core.bytesAt l)) :
    Copies p.core.kind bytes (q.core.bytesAt last) := by
  induction h with
  | arrived p l => exact hcopies
  | @moved p q l m last n via hmoves _ ih =>
    have hkind := cycle_kind hp
    rw [List.mem_cons, not_or] at hvia
    have hfound : p.found ⟨l, m, n⟩ = p.core.bytesAt l :=
      p.core.bytesAt_advanced n fun hl => hvia.1 hl.symm
    have hstep := hmoves.copies hp
    rw [hfound] at hstep
    rw [← hkind]
    refine ih (cycle_sound hp) ((cycle_ipIndex hp).symm ▸ hvia.2) ?_
    rw [hkind]
    exact hcopies.trans hstep
  | @left p q l last via hleft _ ih =>
    have hkind := cycle_kind hp
    rw [← hkind]
    refine ih (cycle_sound hp) ((cycle_ipIndex hp).symm ▸ hvia) ?_
    rw [hkind, hleft]
    exact hcopies

/-- A successful cycle on the row of a move makes a transfer. What it finds once its operands are
fetched it leaves byte for byte at the other location, but for patterns of no number in the narrow
float kind; and so does every sequence of moves, also with other cycles in between that leave the
word alone, in which the word is nowhere moved on from the instruction pointer. -/
theorem moves_copy_words (hp : p.Reachable model) :
    (∀ opcode row, p.core.readMemory p.core.registers.ip = .ok opcode →
      model.instructions.lookup? opcode = some row → row.move?.isSome → p.Succeeds →
      ∃ t, p.Moves model t) ∧
    ∀ t, p.Moves model t →
      Copies p.core.kind (p.found t) (p.cycle.2.core.bytesAt t.target) ∧
      ∀ via q last, Relays model p.cycle.2 t.target via q last →
        .register p.core.registers.ipIndex ∉ via →
        Copies p.core.kind (p.found t) (q.core.bytesAt last) := by
  have hs := hp.sound
  refine ⟨fun opcode row hopcode hrow hmove h => ?_, fun t ht => ⟨ht.copies hs, ?_⟩⟩
  · obtain ⟨move, hmove⟩ := Option.isSome_iff_exists.mp hmove
    obtain ⟨t, ht, -⟩ := cycle_transfers hs h hopcode hrow hmove
    exact ⟨t, ht⟩
  · intro via q last hrelays hvia
    have hkind := cycle_kind hs
    have hcopies := ht.copies hs
    rw [← hkind] at hcopies ⊢
    exact hrelays.copies (cycle_sound hs) ((cycle_ipIndex hs).symm ▸ hvia) hcopies

theorem word_is_moved_through_stack :
    ∃ new, create (.ofModel .extended) ⟨some .int16, 16, some ["x", "y"]⟩ = .ok new ∧
      let p := new.after [
        .memory (.loadWords 0 ([0x61, 0, 0x31, 0, 1, 0x62, 4, 0x10, 1, 4].map Word.ofNat)),
        .registers (.write (.name "x") (Word.ofNat 300))]
      p.Reachable .extended ∧ p.Moves .extended ⟨.register 0, .memory 15, 2⟩ ∧
        Relays .extended p.cycle.2 (.memory 15) [.memory 15, .register 4] (p.afterCycles 4)
          (.register 1) ∧
        .register p.core.registers.ipIndex ∉ [Location.memory 15, .register 4] ∧
        Copies .int16 [1, 44] ((p.afterCycles 4).core.bytesAt (.register 1)) := by
  let session : List HostCall := [
    .memory (.loadWords 0 ([0x61, 0, 0x31, 0, 1, 0x62, 4, 0x10, 1, 4].map Word.ofNat)),
    .registers (.write (.name "x") (Word.ofNat 300))]
  have hruns : (create (.ofModel .extended) ⟨some .int16, 16, some ["x", "y"]⟩).map (fun new =>
      let p := new.after session
      decide (p.core.kind = .int16 ∧ p.core.registers.ipIndex = 2 ∧
        p.Moves .extended ⟨.register 0, .memory 15, 2⟩ ∧
        p.found ⟨.register 0, .memory 15, 2⟩ = [1, 44] ∧
        (p.afterCycles 2).core.bytesAt (.memory 15) = (p.afterCycles 1).core.bytesAt (.memory 15) ∧
        (p.afterCycles 2).Moves .extended ⟨.memory 15, .register 4, 2⟩ ∧
        (p.afterCycles 3).Moves .extended ⟨.register 4, .register 1, 3⟩)) = .ok true := by
    decide +kernel
  obtain ⟨new, hnew, hruns⟩ := Check.map_eq_ok.mp hruns
  obtain ⟨hkind, hip, hpush, hfound, hsum, hpop, hmove⟩ := of_decide_eq_true hruns
  have hp : (new.after session).Reachable .extended := ⟨_, new, session, hnew, rfl⟩
  have hrelays : Relays .extended (new.after session).cycle.2 (.memory 15)
      [.memory 15, .register 4] ((new.after session).afterCycles 4) (.register 1) :=
    .left hsum (.moved hpop (.moved hmove (.arrived _ _)))
  have hvia : .register (new.after session).core.registers.ipIndex ∉
      [Location.memory 15, .register 4] := by
    rw [hip]
    decide
  have hcopies := ((moves_copy_words hp).2 _ hpush).2 _ _ _ hrelays hvia
  rw [hkind, hfound] at hcopies
  exact ⟨new, hnew, hp, hpush, hrelays, hvia, hcopies⟩

/-- A word moved on from the instruction pointer is where the fetches of that move left the pointer,
three words behind what was moved there. -/
theorem word_at_pointer_is_moved_on :
    ∃ new, create (.ofModel .extended) ⟨some .int16, 16, some ["x", "y"]⟩ = .ok new ∧
      let p := new.after [
        .memory (.loadWords 0 ([0x10, 2, 0, 0, 0x10, 1, 2].map Word.ofNat)),
        .registers (.write (.name "x") (Word.ofNat 4))]
      let q := p.afterCycles 2
      let t : Transfer := ⟨.register 0, .register 2, 3⟩
      p.Reachable .extended ∧ p.core.registers.ipIndex = 2 ∧ p.Moves .extended t ∧
        Relays .extended p.cycle.2 (.register 2) [.register 2] q (.register 1) ∧
        p.found t = [0, 4] ∧ p.cycle.2.core.bytesAt (.register 2) = [0, 4] ∧
        q.core.bytesAt (.register 1) = [0, 7] ∧
        ¬ Copies p.core.kind (p.found t) (q.core.bytesAt (.register 1)) := by
  let session : List HostCall := [
    .memory (.loadWords 0 ([0x10, 2, 0, 0, 0x10, 1, 2].map Word.ofNat)),
    .registers (.write (.name "x") (Word.ofNat 4))]
  have hruns : (create (.ofModel .extended) ⟨some .int16, 16, some ["x", "y"]⟩).map (fun new =>
      let p := new.after session
      decide (p.core.kind = .int16 ∧ p.core.registers.ipIndex = 2 ∧
        p.Moves .extended ⟨.register 0, .register 2, 3⟩ ∧
        (p.afterCycles 1).Moves .extended ⟨.register 2, .register 1, 3⟩ ∧
        p.found ⟨.register 0, .register 2, 3⟩ = [0, 4] ∧
        (p.afterCycles 1).core.bytesAt (.register 2) = [0, 4] ∧
        (p.afterCycles 2).core.bytesAt (.register 1) = [0, 7])) = .ok true := by
    decide +kernel
  obtain ⟨new, hnew, hruns⟩ := Check.map_eq_ok.mp hruns
  obtain ⟨hkind, hip, hfirst, hsecond, hfound, hpointer, hlast⟩ := of_decide_eq_true hruns
  have hp : (new.after session).Reachable .extended := ⟨_, new, session, hnew, rfl⟩
  refine ⟨new, hnew, hp, hip, hfirst, .moved hsecond (.arrived _ _), hfound, hpointer, hlast, ?_⟩
  intro hcopies
  rw [hkind, hfound, hlast] at hcopies
  cases hcopies.same fun hloses => nomatch hloses.1

end Processor

end WordMachine
