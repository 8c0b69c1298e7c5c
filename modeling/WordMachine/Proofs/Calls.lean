import WordMachine.Proofs.Coercion
import WordMachine.Proofs.Failure
import WordMachine.Proofs.Stack
import WordMachine.Proofs.Success

/-!
# Calls and returns

A call pushes the address after it on top of the arguments and their count; a return takes all of
these off again. So a return that finds the two words of its call goes on behind that call, with the
stack as it was before the arguments, however many calls have come and gone in between.
-/

set_option autoImplicit false

namespace WordMachine

/-- A call that is not yet returned from: where on the stack its argument count is, the count, and
where execution goes on after the return. -/
structure Frame where
  place : Nat
  count : Nat
  back : Word
  deriving DecidableEq, Repr

def Frame.base (f : Frame) : Nat := f.place + 1 + f.count

theorem integer?_droppedWords {count : Word} {n : Nat} (h : count.integer? = some (n : Int)) :
    (droppedWords count).integer? = some (n : Int) := by
  have hzero : (Word.zero false).integer? = some 0 := by decide +kernel
  have htruncate := Word.integer?_truncate (Word.truncate?_of_integer? h)
  rw [droppedWords, Word.compare?_of_integers htruncate hzero]
  cases n with
  | zero => exact hzero
  | succ n =>
    have hgt : compare ((n + 1 : Nat) : Int) 0 = .gt := by
      have hpos : (0 : Int) < (n + 1 : Nat) := by omega
      simp only [compare, compareOfLessAndEq, if_neg (Int.not_lt.mpr (Int.le_of_lt hpos)),
        if_neg (Int.ne_of_gt hpos)]
    rw [hgt, if_pos rfl, htruncate]

theorem Model.call_row {row : Instruction} (h : row ∈ Model.extended.instructions)
    (hcall : row.mnemonic = "CALL") :
    row.name = "CALL_CONST" ∧ row.operation = .one (.call .constant) ∨
      row.name = "CALL_REG" ∧ row.operation = .one (.call .register) := by
  revert row
  decide +kernel

namespace Core

variable {c d : Core} {f : Frame}

def CountsAt (c : Core) (a n : Nat) : Prop :=
  ∃ w, c.memory.read a = .ok w ∧ w.integer? = some (n : Int)

instance decidableCountsAt (c : Core) (a n : Nat) : Decidable (c.CountsAt a n) :=
  match h : c.memory.read a with
  | .ok w => decidable_of_iff (w.integer? = some (n : Int)) (by simp [CountsAt, h])
  | .error _ => isFalse (by simp [CountsAt, h])

theorem CountsAt.of_read {a n : Nat} (h : c.CountsAt a n)
    (hread : d.memory.read a = c.memory.read a) : d.CountsAt a n := by
  obtain ⟨w, hw, hn⟩ := h
  exact ⟨w, hread.trans hw, hn⟩

/-- The arguments of a call have been pushed, and their count last. -/
structure Pushed (c : Core) (f : Frame) : Prop where
  room : c.HasRoom f.base
  positive : 0 < f.place
  pointer : c.StackAt f.place
  count : c.CountsAt f.place f.count

/-- Memory holds at the instruction pointer a call that goes on at a word: its operand, or the word
of the register that its operand picks when both words are fetched. -/
def CallsTo (c : Core) (target : Word) : Prop :=
  ∃ opcode row w, Model.extended.instructions.lookup? opcode = some row ∧
    c.Streams 0 [opcode, w] ∧
    (row.name = "CALL_CONST" ∧ target = w ∨
      row.name = "CALL_REG" ∧ (c.advanced 2).readRegister w = .ok target)

structure Linked (c : Core) (f : Frame) : Prop where
  room : c.HasRoom f.base
  positive : 0 < f.place
  stored : c.kind.coerce f.back = f.back
  link : c.memory.read (f.place - 1) = .ok f.back
  count : c.CountsAt f.place f.count

def Keeps (c d : Core) (f : Frame) : Prop :=
  d.memory.read (f.place - 1) = c.memory.read (f.place - 1) ∧
    d.memory.read f.place = c.memory.read f.place

instance decidableKeeps (c d : Core) (f : Frame) : Decidable (c.Keeps d f) :=
  inferInstanceAs (Decidable (_ ∧ _))

def mnemonic? (c : Core) : Option String :=
  match c.readMemory c.registers.ip with
  | .ok opcode => (Model.extended.instructions.lookup? opcode).map (·.mnemonic)
  | .error _ => none

theorem mnemonic?_eq_some {m : String} :
    c.mnemonic? = some m ↔ ∃ opcode row, c.readMemory c.registers.ip = .ok opcode ∧
      Model.extended.instructions.lookup? opcode = some row ∧ row.mnemonic = m := by
  unfold mnemonic?
  cases c.readMemory c.registers.ip with
  | ok opcode =>
    simp only [Option.map_eq_some_iff, Except.ok.injEq, exists_and_left, exists_eq_left']
  | error fault => simp only [reduceCtorEq, false_and, exists_false]

structure Returned (c d : Core) (f : Frame) : Prop where
  pointer : d.registers.ip = f.back
  stack : d.StackAt f.base
  memory : d.memory = c.memory
  registers : ∀ i, i ≠ c.registers.ipIndex → c.registers.place? (.name stackPointer) ≠ some i →
    d.registers.cell i = c.registers.cell i

theorem Linked.keeps (h : c.Linked f) (hs : d.shape = c.shape) (hkeeps : c.Keeps d f) :
    d.Linked f where
  room := h.room.of_shape hs
  positive := h.positive
  stored := by
    have hkind : d.kind = c.kind := kind_of_shape hs
    rw [hkind, h.stored]
  link := hkeeps.1.trans h.link
  count := h.count.of_read hkeeps.2

theorem pushed_of_pushes {room : Nat} (hroom : c.HasRoom room) (hempty : c.StackAt room)
    (ws : List Word) (hlt : ws.length + 1 < room) (back : Word) :
    (c.afterStack ((ws ++ [Word.ofNat ws.length]).map .push)).Pushed
      ⟨room - (ws.length + 1), ws.length, back⟩ := by
  have hcarries := (Carries.empty hempty).after hroom
    (Stack.permits_pushes room {} (ws ++ [Word.ofNat ws.length]))
  have hwords := Stack.words_after_pushes room {} (ws ++ [Word.ofNat ws.length])
    (by simp only [List.length_append, List.length_nil, List.length_singleton]; omega)
  rw [List.reverse_append, List.append_nil, List.reverse_singleton, List.singleton_append] at hwords
  have hpointer := hcarries.pointer
  have hholds := hcarries.holds
  rw [hwords, List.length_cons, List.length_reverse] at hpointer hholds
  have hbase : room - (ws.length + 1) + 1 + ws.length = room := by omega
  have hcount := hroom.exact ws.length (by omega)
  constructor
  · rw [Frame.base, hbase]
    exact hroom.of_shape hcarries.shape
  · show 0 < room - (ws.length + 1)
    omega
  · exact hpointer
  · refine ⟨_, hholds.1, ?_⟩
    rw [hcount.stored, hcount.integer]

theorem pointer_two {k : Nat} (hip : c.registers.ip.integer? = some (k : Int))
    (hnext : c.kind.Exact (k + 1)) (hafter : c.kind.Exact (k + 2)) :
    c.pointer 2 = Word.ofNat (k + 2) := by
  have hone : (Word.ofNat 1).integer? = some 1 := by decide +kernel
  have hstep : ∀ {w : Word} {n : Nat}, w.integer? = some (n : Int) → c.kind.Exact (n + 1) →
      c.advance w = Word.ofNat (n + 1) := by
    intro w n hw hn
    rw [advance, Word.add_of_integers hw hone (Or.inr (by decide)), ← Int.natCast_succ,
      Word.ofInt_natCast, hn.stored]
  have hfirst : c.pointer 1 = Word.ofNat (k + 1) := hstep hip hnext
  rw [pointer, hfirst]
  exact hstep hnext.integer hafter

theorem returnFromCall_at (h : c.Linked f) (hpointer : c.StackAt (f.place - 1)) :
    ∃ text d, returnFromCall c = .ok text d ∧ c.Returned d f := by
  obtain ⟨count, hcount, hinteger⟩ := h.count
  have hplace : f.place - 1 + 1 = f.place := Nat.sub_add_cancel h.positive
  have hbase : f.place + 1 ≤ f.base := Nat.le_add_right _ _
  obtain ⟨c₁, hfirst, hmoved₁⟩ := pop_at h.room (by omega) hpointer h.link
  rw [hplace] at hmoved₁
  rw [← hmoved₁.memory] at hcount
  have hroom₁ := h.room.of_shape hmoved₁.shape
  obtain ⟨c₂, hsecond, hmoved₂⟩ := pop_at hroom₁ hbase hmoved₁.pointer hcount
  have hroom₂ := hroom₁.of_shape hmoved₂.shape
  have hexact := hroom₂.exact f.base (Nat.le_refl _)
  obtain ⟨top, htop, htopInteger⟩ := hmoved₂.pointer
  obtain ⟨sp, hsp, -⟩ := Registers.read_eq_ok.mp htop
  have hsum : top.add (droppedWords count) = Word.ofNat f.base := by
    rw [Word.add_of_integers htopInteger (integer?_droppedWords hinteger) (Or.inl (by omega)),
      ← Int.natCast_add, Word.ofInt_natCast]
    rfl
  let c₃ := c₂.store (.register sp (Word.ofNat f.base))
  have hmoved : c.Moved c₃ f.base :=
    (hmoved₁.trans hmoved₂).trans (moved_store hroom₂.wellFormed.registers hexact hsp)
  have hc₃ := registers_of_shape hmoved.shape h.room.wellFormed.registers
  have hstores : c₂.storeAll [.register sp (top.add (droppedWords count)),
      .register c₂.registers.ipIndex f.back] =
        c₃.store (.register c₃.registers.ipIndex f.back) := by
    rw [hsum, ipIndex_of_shape (c₂.store_shape _)]
    rfl
  have hreturn : ∃ text, returnFromCall c =
      .ok text (c₃.store (.register c₃.registers.ipIndex f.back)) := by
    rw [← hstores]
    exact ⟨_, Work.bind_eq_ok.mpr ⟨_, c₁, hfirst, Work.bind_eq_ok.mpr ⟨_, c₂, hsecond,
      perform_eq_ok.mpr ⟨_, Check.bind_eq_ok.mpr ⟨top, htop, Check.bind_eq_ok.mpr
        ⟨sp, Registers.resolve_eq_ok.mpr hsp, rfl⟩⟩, rfl⟩⟩⟩⟩
  obtain ⟨text, hreturn⟩ := hreturn
  have hmemory := (c₃.store_register_memory c₃.registers.ipIndex f.back).trans
    hmoved.memory
  refine ⟨text, _, hreturn, ?_, hmoved.pointer.store_ip hc₃ _, hmemory, ?_⟩
  · have hkind : c₃.kind = c.kind := kind_of_shape hmoved.shape
    rw [ip_store hc₃, hkind, h.stored]
  · intro i hip hi
    rw [← hmoved.registers i hi]
    exact c₃.registers.cell_put_ne _ (by rwa [ipIndex_of_shape hmoved.shape])

theorem coerce_value (hc : c.registers.WellFormed) {o : Operand} {w target : Word}
    (hw : c.kind.coerce w = w) (h : o.value c w = .ok target) : c.kind.coerce target = target := by
  cases o with
  | constant => rwa [← Except.ok.inj h]
  | register =>
    obtain ⟨i, hi, rfl⟩ := Registers.read_eq_ok.mp h
    exact Registers.coerce_word hc (Registers.place_lt hi)

theorem coerce_readMemory {w v : Word} (h : c.readMemory w = .ok v) :
    c.memory.kind.coerce v = v := by
  obtain ⟨a, -, ha⟩ := Check.bind_eq_ok.mp h
  exact Memory.coerce_read ha

theorem Pushed.pushEffect (h : c.Pushed f) {n : Nat} (hn : f.place = n + 1) (w : Word) :
    c.kind.Exact n ∧ n < c.memory.capacity ∧
      ∃ sp, c.registers.place? (.name stackPointer) = some sp ∧
        c.pushEffect w = .ok ⟨Word.ofNat n, [.memory n w, .register sp (Word.ofNat n)]⟩ := by
  have hlt : n < f.base := by
    rw [Frame.base, hn]
    omega
  exact h.room.pushEffect hlt (hn ▸ h.pointer) w

theorem call_at (h : c.Pushed f) (hip : c.registers.ip = f.back)
    (hback : c.kind.coerce f.back = f.back) {o : Operand} {w : Word} {text : String}
    (hw : c.kind.coerce w = w) (hcall : perform ((OneOperand.call o).effect w) c = .ok text d) :
    (∃ target, o.value c w = .ok target ∧ d.registers.ip = target) ∧
      d.StackAt (f.place - 1) ∧ d.Linked f ∧
      ∀ a, a ≠ f.place - 1 → d.memory.read a = c.memory.read a := by
  obtain ⟨writes, heffect, rfl⟩ := perform_eq_ok.mp hcall
  obtain ⟨target, htarget, heffect⟩ := Check.bind_eq_ok.mp heffect
  obtain ⟨pushed, hpushed, heffect⟩ := Check.bind_eq_ok.mp heffect
  obtain ⟨n, hn⟩ : ∃ n, f.place = n + 1 := ⟨f.place - 1, (Nat.sub_add_cancel h.positive).symm⟩
  have hc := h.room.wellFormed.registers
  obtain ⟨hexact, hlt, sp, hsp, hpush⟩ := h.pushEffect hn c.registers.ip
  obtain rfl := Except.ok.inj (hpushed.symm.trans hpush)
  cases heffect
  let written := c.store (.memory n c.registers.ip)
  let moved := written.store (.register sp (Word.ofNat n))
  have hmoved : written.Moved moved n := moved_store (c := written) hc hexact hsp
  have hs : moved.shape = c.shape := hmoved.shape.trans (c.store_shape _)
  have hmc := registers_of_shape hs hc
  have hstores : c.storeAll ([.memory n c.registers.ip, .register sp (Word.ofNat n)] ++
      [.register c.registers.ipIndex target]) =
        moved.store (.register moved.registers.ipIndex target) := by
    rw [ipIndex_of_shape hs]
    rfl
  have hmemory : (moved.store (.register moved.registers.ipIndex target)).memory =
      c.memory.put n c.registers.ip :=
    (moved.store_register_memory _ _).trans hmoved.memory
  have hlink : (c.memory.put n c.registers.ip).read n = .ok f.back := by
    rw [Memory.read_put h.room.wellFormed.memory hlt, h.room.kinds, hip, hback]
  obtain ⟨count, hcount, hinteger⟩ := h.count
  have hne : f.place ≠ n := by omega
  rw [hstores, hn, Nat.add_sub_cancel]
  refine ⟨⟨target, htarget, ?_⟩, hmoved.pointer.store_ip hmc _, ?_, ?_⟩
  · have hkind : moved.kind = c.kind := kind_of_shape hs
    rw [ip_store hmc, hkind, coerce_value hc hw htarget]
  · have hshape : (moved.store (.register moved.registers.ipIndex target)).shape = c.shape :=
      (moved.store_shape _).trans hs
    have hkind : (moved.store (.register moved.registers.ipIndex target)).kind = c.kind :=
      kind_of_shape hshape
    refine ⟨h.room.of_shape hshape, h.positive, hkind.symm ▸ hback, ?_, count, ?_, hinteger⟩
    · rw [hmemory, hn, Nat.add_sub_cancel]
      exact hlink
    · rw [hmemory, Memory.read_put_ne _ _ hne]
      exact hcount
  · intro a ha
    rw [hmemory, Memory.read_put_ne _ _ ha]

theorem Pushed.advanced (h : c.Pushed f) (n : Nat) : (c.advanced n).Pushed f where
  room := h.room.of_shape (c.advanced_shape n)
  positive := h.positive
  pointer := h.pointer.advanced h.room.wellFormed.registers n
  count := h.count.of_read (by rw [c.advanced_memory n])

end Core

namespace Processor

variable {p q : Processor} {f : Frame}

/-- A call stands at the instruction pointer, its arguments have been pushed, and it succeeds. -/
structure Calls (p : Processor) (f : Frame) : Prop where
  stack : p.core.Pushed f
  back : p.core.pointer 2 = f.back
  call : p.core.mnemonic? = some "CALL"
  succeeds : ∃ continues, p.cycle.1.result = .ok continues

/-- A return stands at the instruction pointer, with the stack as the call left it. -/
structure Returns (p : Processor) (f : Frame) : Prop where
  stack : p.core.StackAt (f.place - 1)
  ret : p.core.mnemonic? = some "RET"

theorem cycle_of_mnemonic (hp : p.Sound .extended) {m : String} (hm : p.core.mnemonic? = some m)
    {continues : Bool} (h : p.cycle.1.result = .ok continues) :
    ∃ opcode row ws, Model.extended.instructions.lookup? opcode = some row ∧ row.mnemonic = m ∧
      p.core.Streams 0 (opcode :: ws) ∧ ws.length = row.operation.arguments.length ∧
      ∃ text, row.operation.body ws (p.core.advanced (1 + ws.length)) = .ok text p.cycle.2.core := by
  obtain ⟨opcode, row, hopcode, hrow, hmnemonic⟩ := Core.mnemonic?_eq_some.mp hm
  obtain ⟨ws, hws⟩ := cycle_body hp h hopcode hrow
  exact ⟨opcode, row, ws, hrow, hmnemonic, hws⟩

theorem Sound.coerce_fetched {model : Model} (hp : p.Sound model) {v w : Word}
    (h : p.core.readMemory v = .ok w) (n : Nat) : (p.core.advanced n).kind.coerce w = w := by
  have hkind : (p.core.advanced n).kind = p.core.kind := Core.kind_of_shape (p.core.advanced_shape n)
  rw [hkind, ← hp.kinds]
  exact Core.coerce_readMemory h

theorem Calls.called (hp : p.Sound .extended) (h : p.Calls f) :
    (∃ target, p.core.CallsTo target ∧ p.cycle.2.core.registers.ip = target) ∧
      p.cycle.2.core.StackAt (f.place - 1) ∧ p.cycle.2.core.Linked f ∧
      ∀ a, a ≠ f.place - 1 → p.cycle.2.core.memory.read a = p.core.memory.read a := by
  obtain ⟨continues, hresult⟩ := h.succeeds
  obtain ⟨opcode, row, ws, hrow, hmnemonic, hstreams, hlength, text, hbody⟩ :=
    cycle_of_mnemonic hp h.call hresult
  have hcall := Model.call_row (Model.mem_of_lookup hrow) hmnemonic
  obtain ⟨o, hop⟩ : ∃ o, row.operation = .one (.call o) := by
    rcases hcall with ⟨-, hop⟩ | ⟨-, hop⟩ <;> exact ⟨_, hop⟩
  rw [hop] at hlength hbody
  obtain ⟨w, rfl⟩ := List.length_eq_one_iff.mp hlength
  have hs := p.core.advanced_shape 2
  have hkind : (p.core.advanced 2).kind = p.core.kind := Core.kind_of_shape hs
  have hw := hp.coerce_fetched hstreams.2.1 2
  have hip : (p.core.advanced 2).registers.ip = f.back := by
    rw [Core.advanced_ip hp.core.registers, h.back]
  have hback : (p.core.advanced 2).kind.coerce f.back = f.back := by
    rw [hkind, ← h.back]
    exact p.core.kind.coerce_coerce _
  obtain ⟨⟨target, hvalue, htarget⟩, hstack, hlinked, hmemory⟩ :=
    Core.call_at (h.stack.advanced 2) hip hback hw hbody
  rw [p.core.advanced_memory 2] at hmemory
  refine ⟨⟨target, ⟨opcode, row, w, hrow, hstreams, ?_⟩, htarget⟩, hstack, hlinked, hmemory⟩
  rcases hcall with ⟨hname, hop'⟩ | ⟨hname, hop'⟩
  · cases hop.symm.trans hop'
    exact Or.inl ⟨hname, (Except.ok.inj hvalue).symm⟩
  · cases hop.symm.trans hop'
    exact Or.inr ⟨hname, hvalue⟩

theorem Returns.returned (hp : p.Sound .extended) (hlinked : p.core.Linked f) (h : p.Returns f) :
    p.cycle.1.result = .ok true ∧ p.core.Returned p.cycle.2.core f := by
  obtain ⟨opcode, row, hopcode, hrow, hmnemonic⟩ := Core.mnemonic?_eq_some.mp h.ret
  have hop : row.operation = .ret := (Model.ret_iff (Model.mem_of_lookup hrow)).mpr hmnemonic
  have hc := hp.core.registers
  have hs := p.core.advanced_shape 1
  have hmemory := p.core.advanced_memory 1
  have hkeeps : p.core.Keeps (p.core.advanced 1) f := by
    rw [Core.Keeps, hmemory]
    exact ⟨rfl, rfl⟩
  obtain ⟨text, d, hreturn, hd⟩ :=
    Core.returnFromCall_at (hlinked.keeps hs hkeeps) (h.stack.advanced hc 1)
  have hnone : ([] : List Word).length = row.arguments.length := by
    rw [Model.arguments_of_lookup hrow, hop]
    rfl
  have hstreams : p.core.Streams 0 [opcode] := ⟨hopcode, trivial⟩
  have hbody : row.operation.body [] (p.core.advanced 1) = .ok text d := by
    rw [hop]
    exact hreturn
  obtain ⟨hresult, rfl⟩ := cycle_of_body hp hrow hstreams hnone (by rw [hop]; rfl) hbody
  refine ⟨hresult, hd.pointer, hd.stack, hd.memory.trans hmemory, fun i hip hi => ?_⟩
  rw [← p.core.advanced_cell 1 hip]
  exact hd.registers i (by rwa [Core.ipIndex_of_shape hs]) (by rwa [Core.place_of_shape hs])

theorem cycle_pushConstant (hp : p.Sound .extended) {w sp : Word} {d : Core}
    (hstreams : p.core.Streams 0 [Word.ofNat 0x60, w])
    (hpush : Core.push w (p.core.advanced 2) = .ok sp d) :
    p.cycle.1.result = .ok true ∧ p.cycle.2.core = d := by
  have hlookup : (Model.extended.instructions.lookup? (Word.ofNat 0x60)).map (·.operation) =
      some (.one (.push .constant)) := by decide +kernel
  obtain ⟨row, hrow, hop⟩ := Option.map_eq_some_iff.mp hlookup
  obtain ⟨writes, heffect, rfl⟩ := Core.perform_eq_ok.mp hpush
  exact cycle_one hp hrow hop hstreams (Core.perform_eq_ok.mpr ⟨writes,
    Check.bind_eq_ok.mpr ⟨w, rfl, Check.bind_eq_ok.mpr ⟨_, heffect, rfl⟩⟩, rfl⟩)

theorem calls_constant (hp : p.Sound .extended) (hstack : p.core.Pushed f)
    (hback : p.core.pointer 2 = f.back) {w : Word}
    (hstreams : p.core.Streams 0 [Word.ofNat 0x63, w]) : p.Calls f := by
  have hlookup : (Model.extended.instructions.lookup? (Word.ofNat 0x63)).map
      (fun row => (row.mnemonic, row.operation)) = some ("CALL", .one (.call .constant)) := by
    decide +kernel
  obtain ⟨row, hrow, hnames⟩ := Option.map_eq_some_iff.mp hlookup
  obtain ⟨hmnemonic, hop⟩ := Prod.mk.inj hnames
  obtain ⟨n, hn⟩ : ∃ n, f.place = n + 1 :=
    ⟨f.place - 1, (Nat.sub_add_cancel hstack.positive).symm⟩
  obtain ⟨-, -, sp, -, heffect⟩ :=
    (hstack.advanced 2).pushEffect hn (p.core.advanced 2).registers.ip
  have hcycle := cycle_one hp hrow hop hstreams (Core.perform_eq_ok.mpr ⟨_,
    Check.bind_eq_ok.mpr ⟨w, rfl, Check.bind_eq_ok.mpr ⟨_, heffect, rfl⟩⟩, rfl⟩)
  exact ⟨hstack, hback, Core.mnemonic?_eq_some.mpr ⟨_, row, hstreams.1, hrow, hmnemonic⟩, true,
    hcycle.1⟩

/-- Where the pointer does not move, a call reads its opcode as its operand too. -/
theorem calls_in_place (hp : p.Sound .extended) {k : Nat} (hstack : p.core.Pushed f)
    (hback : f.back = Word.ofNat k) (hip : p.core.registers.ip = Word.ofNat k)
    (hstays : p.core.kind.coerce ((Word.ofNat k).add (Word.ofNat 1)) = Word.ofNat k)
    (haddress : p.core.memory.addressOf (Word.ofNat k) = .ok k)
    (hread : p.core.memory.read k = .ok (Word.ofNat 0x63)) : p.Calls f := by
  have hpointer := Core.pointer_stays hip hstays
  have hopcode : ∀ n, p.core.readMemory (p.core.pointer n) = .ok (Word.ofNat 0x63) := by
    intro n
    rw [hpointer, Core.readMemory, haddress]
    exact hread
  exact calls_constant hp hstack ((hpointer 2).trans hback.symm) ⟨hopcode 0, hopcode 1, trivial⟩

theorem pushed_after_push (hp : p.Sound .extended) {a room : Nat} {ws : List Word}
    (hroom : p.core.HasRoom room) (hempty : p.core.StackAt room) (hlt : 1 < room)
    (hip : p.core.registers.ip = Word.ofNat a) (hexact : ∀ n, a ≤ n → n ≤ a + 2 → p.core.kind.Exact n)
    (hholds : p.core.memory.Holds a ([Word.ofNat 0x60, Word.ofNat 0] ++ ws)) (habove : room ≤ a)
    (hfits : a + 2 ≤ p.core.memory.capacity) :
    (∀ back, p.cycle.2.core.Pushed ⟨room - 1, 0, back⟩) ∧
      p.cycle.2.core.registers.ip = Word.ofNat (a + 2) ∧ p.cycle.2.core.memory.Holds (a + 2) ws := by
  let c := p.core.advanced 2
  have hs : c.shape = p.core.shape := p.core.advanced_shape 2
  have hc := Core.registers_of_shape hs hp.core.registers
  have htop := hempty.advanced hp.core.registers 2
  obtain ⟨hpush, hrest⟩ := (Memory.holds_append _ ws).mp hholds
  have hstreams : p.core.Streams 0 [Word.ofNat 0x60, Word.ofNat 0] :=
    Core.streams_of_holds hip hexact hfits hroom.addressable (Nat.le_refl _) hpush
  obtain ⟨d, hpushes, hcarries⟩ := (Core.Carries.empty htop).push (hroom.of_shape hs)
    (Nat.zero_lt_of_lt hlt) (Word.ofNat 0)
  obtain ⟨-, hcore⟩ := cycle_pushConstant hp hstreams hpushes
  have hpushed := Core.pushed_of_pushes (hroom.of_shape hs) htop [] hlt
  have hafter : c.afterStack (([] ++ [Word.ofNat 0]).map .push) = d :=
    congrArg Work.final hpushes
  rw [hcore]
  refine ⟨hafter ▸ hpushed, ?_, ?_⟩
  · have hcell := hcarries.registers c.registers.ipIndex
      fun h => Registers.place_ne_ip hc (by decide) h rfl
    have hword := Registers.word_of_cell (Core.kind_of_shape hcarries.shape) hcell
    rw [Registers.ip, Core.ipIndex_of_shape hcarries.shape, hword, ← Registers.ip,
      Core.advanced_ip hp.core.registers]
    exact Core.pointer_counts hip hexact (Nat.le_refl _)
  · refine hrest.of_bytes (congrArg (·.2) (hcarries.shape.trans hs)) fun k hlow _ => ?_
    have hwidth : room * p.core.memory.kind.byteWidth ≤ (a + 2) * p.core.memory.kind.byteWidth :=
      Nat.mul_le_mul_right _ (by omega)
    have hmemory : c.memory = p.core.memory := p.core.advanced_memory 2
    rw [← hmemory] at hwidth hlow ⊢
    exact hcarries.memory k (Or.inr (Nat.le_trans hwidth hlow))

end Processor

end WordMachine
