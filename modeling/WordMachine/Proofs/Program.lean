import WordMachine.Proofs.Footprint
import WordMachine.Proofs.Image
import WordMachine.Proofs.Record

/-!
# Straight-line programs

A program is a list of rows with their operand words, and its image is their words back to back.
While the cycles of a loaded program go on from each instruction to the next and write outside the
image, every cycle begins at the opcode of its instruction and decodes just that instruction.
-/

set_option autoImplicit false

namespace WordMachine

theorem InstructionSet.ofByte?_of_mem {set : InstructionSet} (h : (set.map (·.opcode)).Nodup)
    {row : Instruction} (hrow : row ∈ set) : set.ofByte? row.opcode = some row := by
  induction set with
  | nil => cases hrow
  | cons first rest ih =>
    rw [List.map_cons, List.nodup_cons] at h
    rcases List.mem_cons.mp hrow with rfl | hrest
    · simp [ofByte?]
    · have hne : first.opcode ≠ row.opcode :=
        fun he => h.1 (he ▸ List.mem_map.mpr ⟨row, hrest, rfl⟩)
      rw [ofByte?, List.find?_cons_of_neg (by simpa using hne)]
      exact ih h.2 hrest

namespace Model

theorem lookup_opcode {model : Model} {row : Instruction} (h : row ∈ model.instructions) :
    model.instructions.lookup? (Word.ofNat row.opcode.toNat) = some row := by
  have hbyte : ∀ row ∈ model.instructions,
      opcodeByte? (Word.ofNat row.opcode.toNat) = some row.opcode := by
    cases model <;> decide +kernel
  rw [InstructionSet.lookup?, hbyte row h]
  exact InstructionSet.ofByte?_of_mem model.instructions_consistent.opcodes h

theorem opcode_stored {model : Model} {row : Instruction} (h : row ∈ model.instructions)
    (kind : Kind) : kind.coerce (Word.ofNat row.opcode.toNat) = Word.ofNat row.opcode.toNat := by
  revert row
  cases model <;> cases kind <;> decide +kernel

end Model

/-- A row of a model with a word for each of its operands, each of which the kind stores. -/
structure Statement (model : Model) (kind : Kind) where
  row : Instruction
  operands : List Word
  listed : row ∈ model.instructions
  complete : operands.length = row.arguments.length
  stored : ∀ w ∈ operands, kind.coerce w = w

namespace Statement

variable {model : Model} {kind : Kind}

def opcode (s : Statement model kind) : Word := Word.ofNat s.row.opcode.toNat

def words (s : Statement model kind) : List Word := s.opcode :: s.operands

def image (program : List (Statement model kind)) : List Word := program.flatMap words

def stop (program : List (Statement model kind)) (start : Nat) : Nat :=
  start + (image program).length

theorem lookup_opcode (s : Statement model kind) :
    model.instructions.lookup? s.opcode = some s.row :=
  Model.lookup_opcode s.listed

theorem length_words (s : Statement model kind) : s.words.length = 1 + s.row.arguments.length := by
  rw [words, List.length_cons, s.complete, Nat.add_comm]

/-- The row of a name with words for its operands, if these are as many and the kind stores them. -/
def named? (name : String) (operands : List Word) : Option (Statement model kind) :=
  match h : model.instructions.find? (·.name = name) with
  | some row =>
    if hfit : operands.length = row.arguments.length ∧ ∀ w ∈ operands, kind.coerce w = w then
      some ⟨row, operands, List.mem_of_find?_eq_some h, hfit.1, hfit.2⟩
    else none
  | none => none

def size : List (Statement model kind) → Nat
  | [] => 0
  | s :: program => 1 + s.row.arguments.length + size program

theorem length_image (program : List (Statement model kind)) :
    (image program).length = size program := by
  induction program with
  | nil => rfl
  | cons s program ih =>
    rw [image, List.flatMap_cons, List.length_append, ← image, ih, length_words, size]

theorem coerce_image (program : List (Statement model kind)) :
    (image program).map kind.coerce = image program := by
  have hid : ∀ w ∈ image program, kind.coerce w = w := by
    intro w hw
    obtain ⟨s, -, hs⟩ := List.mem_flatMap.mp hw
    rcases List.mem_cons.mp hs with rfl | hw
    · exact Model.opcode_stored s.listed kind
    · exact s.stored w hw
  rw [List.map_congr_left hid, List.map_id']

variable {program : List (Statement model kind)} {i : Nat} {s : Statement model kind}

theorem image_take_succ (h : program[i]? = some s) :
    image (program.take (i + 1)) = image (program.take i) ++ s.words := by
  simp [image, List.take_add_one, h]

theorem length_image_take (program : List (Statement model kind)) (i : Nat) :
    (image (program.take i)).length ≤ (image program).length := by
  have hsplit : image program = image (program.take i) ++ image (program.drop i) := by
    rw [image, image, image, ← List.flatMap_append, List.take_append_drop]
  rw [hsplit, List.length_append]
  exact Nat.le_add_right _ _

theorem image_split (h : program[i]? = some s) :
    ∃ rest, image program = image (program.take i) ++ (s.words ++ rest) := by
  refine ⟨image (program.drop (i + 1)), ?_⟩
  rw [← List.append_assoc, ← image_take_succ h]
  simp only [image, ← List.flatMap_append, List.take_append_drop]

end Statement

/-- An instruction goes on to the one behind it and writes to no word from `start` up to `stop`: it
is no call, no return and no jump that is taken, none of the registers it writes is the instruction
pointer, and its slot of memory lies elsewhere. -/
structure Instruction.Passes (row : Instruction) (ws : List Word) (start stop : Nat) (c : Core) :
    Prop where
  flow : ¬ (c.advanced (1 + ws.length)).Leaves row.flow
  registers : ∀ t ∈ row.targets, c.target? ws t ≠ some c.registers.ipIndex
  memory : ∀ slot ∈ row.slot?, ∀ w ∈ (c.advanced (1 + ws.length)).slotWord? ws slot,
    ∀ a ∈ w.floor?, a < start ∨ stop ≤ a

instance Instruction.decidablePasses (row : Instruction) (ws : List Word) (start stop : Nat)
    (c : Core) : Decidable (row.Passes ws start stop c) :=
  decidable_of_iff
    (¬ (c.advanced (1 + ws.length)).Leaves row.flow ∧
      (∀ t ∈ row.targets, c.target? ws t ≠ some c.registers.ipIndex) ∧
      ∀ slot ∈ row.slot?, ∀ w ∈ (c.advanced (1 + ws.length)).slotWord? ws slot,
        ∀ a ∈ w.floor?, a < start ∨ stop ≤ a)
    ⟨fun h => ⟨h.1, h.2.1, h.2.2⟩, fun h => ⟨h.flow, h.registers, h.memory⟩⟩

theorem Instruction.Passes.holds {row : Instruction} {ws image : List Word} {start stop : Nat}
    {c d : Core} (h : row.Passes ws start stop c) (hconfined : Confined row.footprint ws c d)
    (hstop : start + image.length ≤ stop) (hholds : c.memory.Holds start image) :
    d.memory.Holds start image := by
  refine hholds.of_bytes (congrArg Prod.snd hconfined.shape) fun k hlow hhigh => ?_
  apply hconfined.memory
  intro slot hslot w hw a ha
  rcases h.memory slot hslot w hw a ha with hbefore | hbehind
  · have := Nat.mul_le_mul_right c.memory.kind.byteWidth (show a + 1 ≤ start by omega)
    omega
  · have := Nat.mul_le_mul_right c.memory.kind.byteWidth (show start + image.length ≤ a by omega)
    omega

namespace Processor

variable {model : Model} {kind : Kind} {p : Processor}

/-- A cycle that succeeds, and whose instruction passes as it is recorded. -/
def Passes (model : Model) (start stop : Nat) (p : Processor) : Prop :=
  (∃ continues, p.cycle.1.result = .ok continues) ∧
    ∀ row ∈ p.cycle.1.record.opcode.bind model.instructions.lookup?,
      row.Passes p.cycle.1.record.arguments start stop p.core

instance decidablePasses (model : Model) (start stop : Nat) (p : Processor) :
    Decidable (p.Passes model start stop) :=
  inferInstanceAs (Decidable (_ ∧ _))

theorem cycle_decodes (hp : p.Sound model) {opcode : Word} {row : Instruction} {ws : List Word}
    (hrow : model.instructions.lookup? opcode = some row) (hl : ws.length = row.arguments.length)
    (hs : p.core.Streams 0 (opcode :: ws)) :
    p.cycle.1.record.opcode = some opcode ∧ p.cycle.1.record.arguments = ws := by
  have hc := hp.core.registers
  have hopcode : Core.fetch p.core = .ok opcode (p.core.advanced 1) :=
    (Core.fetch_eq_ok hc (n := 0)).mpr ⟨hs.1, rfl⟩
  have hoperands : Core.fetchMany row.operation.arguments.length (p.core.advanced 1) =
      .ok ws (p.core.advanced (1 + row.operation.arguments.length)) := by
    rw [Model.arguments_of_lookup hrow] at hl
    exact (Core.fetchMany_eq_ok hc).mpr ⟨hl, hs.2, rfl⟩
  cases hx : p.variant.execute p.switches opcode ⟨p.core.advanced 1, p.opened opcode⟩ with
  | ok continues x =>
    rw [cycle_succeeds hopcode hx]
    rw [hp.variant, model.execute_ofModel] at hx
    obtain ⟨row', hrow', vs, _, text, hvs, -, arguments, remark, harguments, hrecord⟩ :=
      Context.execute_ok hx
    obtain rfl := Option.some.inj (hrow'.symm.trans hrow)
    cases hvs.symm.trans hoperands
    refine ⟨Context.retired_opcode hrecord, (Context.retired_arguments hrecord).trans ?_⟩
    rcases harguments with rfl | ⟨rfl, rfl⟩ <;> rfl
  | error cause x =>
    rw [cycle_fails hopcode hx]
    rw [hp.variant, model.execute_ofModel] at hx
    -- the row is there and its operands are fetched, so only the body can have failed
    rcases Context.execute_error hx with ⟨hnone, -⟩ | ⟨row', hrow', hcases⟩
    · cases hnone.symm.trans hrow
    · obtain rfl := Option.some.inj (hrow'.symm.trans hrow)
      rcases hcases with ⟨hfail, -⟩ | ⟨vs, _, hvs, -, hrecord⟩
      · cases hfail.symm.trans hoperands
      · cases hvs.symm.trans hoperands
        show x.record.opcode = _ ∧ x.record.arguments = _
        rw [hrecord]
        exact ⟨rfl, rfl⟩

variable {program : List (Statement model kind)} {start i : Nat} {s : Statement model kind}

/-- A processor is about to execute statement `i` of a program whose image is in memory, and can
count through the addresses of that image. -/
structure Stands (program : List (Statement model kind)) (start i : Nat) (p : Processor) :
    Prop where
  sound : p.Sound model
  exact : ∀ n, start ≤ n → n ≤ Statement.stop program start → p.core.kind.Exact n
  fits : Statement.stop program start ≤ p.core.memory.capacity
  addressable : p.core.memory.capacity < Address.limit
  image : p.core.memory.Holds start (Statement.image program)
  pointer :
    p.core.registers.ip = Word.ofNat (start + (Statement.image (program.take i)).length)

namespace Stands

theorem streams (h : p.Stands program start i) (hs : program[i]? = some s) :
    p.core.Streams 0 s.words := by
  obtain ⟨rest, hsplit⟩ := Statement.image_split hs
  have himage := h.image
  have hlength := congrArg List.length hsplit
  rw [hsplit, Memory.holds_append, Memory.holds_append] at himage
  rw [List.length_append, List.length_append] at hlength
  exact Core.streams_of_holds h.pointer (fun n hlow hhigh => h.exact n (by omega) hhigh) h.fits
    h.addressable (by rw [Statement.stop]; omega) himage.2.1

theorem decodes (h : p.Stands program start i) (hs : program[i]? = some s) :
    p.cycle.1.record.opcode = some s.opcode ∧ p.cycle.1.record.arguments = s.operands :=
  cycle_decodes h.sound s.lookup_opcode s.complete (h.streams hs)

theorem confined (h : p.Stands program start i) (hs : program[i]? = some s)
    {continues : Bool} (hok : p.cycle.1.result = .ok continues) :
    Confined s.row.footprint s.operands p.core p.cycle.2.core := by
  have hstreams := h.streams hs
  obtain ⟨ws, hfetched, hl, text, hbody⟩ := cycle_body h.sound hok hstreams.1 s.lookup_opcode
  rw [← Model.arguments_of_lookup s.lookup_opcode] at hl
  obtain rfl : ws = s.operands := hfetched.2.unique (hl.trans s.complete.symm) hstreams.2
  exact Model.body_confined s.listed h.sound.core.registers hbody

theorem step (h : p.Stands program start i) (hs : program[i]? = some s)
    (hpasses : p.Passes model start (Statement.stop program start)) :
    p.cycle.2.Stands program start (i + 1) := by
  obtain ⟨⟨continues, hok⟩, hrow⟩ := hpasses
  obtain ⟨hopcode, harguments⟩ := h.decodes hs
  have hpass : s.row.Passes s.operands start (Statement.stop program start) p.core := by
    rw [← harguments]
    exact hrow s.row (Option.bind_eq_some_iff.mpr ⟨s.opcode, hopcode, s.lookup_opcode⟩)
  have hconfined := h.confined hs hok
  have hkind : p.cycle.2.core.kind = p.core.kind := Core.kind_of_shape hconfined.shape
  have hcapacity : p.cycle.2.core.memory.capacity = p.core.memory.capacity :=
    Memory.capacity_of_shape (congrArg Prod.snd hconfined.shape)
  have hnext : (Statement.image (program.take (i + 1))).length =
      (Statement.image (program.take i)).length + (1 + s.operands.length) := by
    rw [Statement.image_take_succ hs, List.length_append, s.length_words, s.complete]
  have hend : start + (Statement.image (program.take (i + 1))).length ≤
      Statement.stop program start :=
    Nat.add_le_add_left (Statement.length_image_take program (i + 1)) start
  have hpointer : p.cycle.2.core.registers.ip = p.core.pointer (1 + s.operands.length) :=
    hconfined.pointer hpass.flow hpass.registers
  refine ⟨serve_sound h.sound .cycle, hkind ▸ h.exact, hcapacity ▸ h.fits,
    hcapacity ▸ h.addressable, hpass.holds hconfined (Nat.le_refl _) h.image, ?_⟩
  rw [hpointer, hnext, ← Nat.add_assoc]
  exact Core.pointer_counts h.pointer (fun n hlow hhigh => h.exact n (by omega) hhigh) (by omega)

theorem afterCycles (h : p.Stands program start 0) (hi : i ≤ program.length)
    (hpasses : ∀ j < i, (p.afterCycles j).Passes model start (Statement.stop program start)) :
    (p.afterCycles i).Stands program start i := by
  induction i with
  | zero => exact h
  | succ i ih =>
    have hs : program[i]? = some program[i] := List.getElem?_eq_getElem hi
    have hstands := ih (by omega) fun j hj => hpasses j (by omega)
    exact hstands.step hs (hpasses i (by omega))

end Stands

def load (program : List (Statement model kind)) (start : Nat) (p : Processor) : Processor :=
  p.after [.memory (.loadWords start (Statement.image program)),
    .registers (.setIp (Word.ofNat start))]

theorem load_stands (hp : p.Sound model) (hkind : p.core.kind = kind)
    (hfits : Statement.stop program start ≤ p.core.memory.capacity)
    (haddressable : p.core.memory.capacity < Address.limit)
    (hexact : ∀ n, start ≤ n → n ≤ Statement.stop program start → kind.Exact n) :
    (p.load program start).Stands program start 0 := by
  let image := Statement.image program
  let q := (p.serve (.memory (.loadWords start image))).2
  have hstored : image.map p.core.kind.coerce = image := by rw [hkind, Statement.coerce_image]
  obtain ⟨hq, hholds⟩ := serve_loadWords hp hfits hstored
  have hregisters : (p.load program start).core.registers =
      p.core.registers.put p.core.registers.ipIndex (Word.ofNat start) := by
    show q.core.registers.put q.core.registers.ipIndex (Word.ofNat start) = _
    rw [hq]
  have hcapacity : (p.load program start).core.memory.capacity = p.core.memory.capacity :=
    congrArg (·.2.capacity) (after_shape hp.variant _)
  have hip := Core.ip_store hp.core.registers (Word.ofNat start)
  rw [hkind, (hexact start (Nat.le_refl _) (Nat.le_add_right _ _)).stored] at hip
  refine ⟨after_sound hp _, ?_, ?_, ?_, hholds, ?_⟩
  · rw [Core.kind, hregisters]
    exact hkind ▸ hexact
  · rw [hcapacity]
    exact hfits
  · rw [hcapacity]
    exact haddressable
  · rw [hregisters]
    exact hip

/-- As long as the cycles of a loaded program pass, each of them begins at its statement, and its
record holds the opcode and the operands of the statement even if it then fails. -/
theorem straight_line_decodes (hp : p.Reachable model) (hkind : p.core.kind = kind)
    (hfits : Statement.stop program start ≤ p.core.memory.capacity)
    (haddressable : p.core.memory.capacity < Address.limit)
    (hexact : ∀ n, start ≤ n → n ≤ Statement.stop program start → kind.Exact n)
    (hi : i ≤ program.length)
    (hpasses : ∀ j < i,
      ((p.load program start).afterCycles j).Passes model start (Statement.stop program start)) :
    let q := (p.load program start).afterCycles i
    q.core.registers.ip = Word.ofNat (start + Statement.size (program.take i)) ∧
      ∀ s, program[i]? = some s →
        q.cycle.1.record.opcode = some (Word.ofNat s.row.opcode.toNat) ∧
          q.cycle.1.record.arguments = s.operands := by
  intro q
  have hloaded := load_stands hp.sound hkind hfits haddressable hexact
  have hstands : q.Stands program start i := hloaded.afterCycles hi hpasses
  refine ⟨?_, fun s hs => hstands.decodes hs⟩
  rw [hstands.pointer, Statement.length_image]

/-- A push, a jump that is not taken, and the counting up of a register that is not there. -/
def failingLine : List (Statement .extended .uint8) :=
  [("PUSH_CONST", 7), ("JNE_CONST", 0), ("INC", 9)].filterMap fun (name, operand) =>
    Statement.named? name [Word.ofNat operand]

theorem failing_line_decodes :
    ∃ new, create (.ofModel .extended) ⟨some .uint8, 16, some ["x"]⟩ = .ok new ∧
      Statement.stop failingLine 2 = 8 ∧
      (∀ j < 2, ((new.load failingLine 2).afterCycles j).Passes .extended 2 8) ∧
      let q := (new.load failingLine 2).afterCycles 2
      q.cycle.1.result = .error
          ⟨Word.ofNat 6, .execute (Word.ofNat 0x3e), .invalidRegister (.index (Word.ofNat 9))⟩ ∧
        q.core.registers.ip = Word.ofNat 6 ∧ q.cycle.1.record.opcode = some (Word.ofNat 0x3e) ∧
        q.cycle.1.record.arguments = [Word.ofNat 9] := by
  let fault : CycleFault :=
    ⟨Word.ofNat 6, .execute (Word.ofNat 0x3e), .invalidRegister (.index (Word.ofNat 9))⟩
  have hruns : (create (.ofModel .extended) ⟨some .uint8, 16, some ["x"]⟩).map (fun new =>
      let loaded : Processor := new.load failingLine 2
      (new.core.kind, new.core.memory.capacity,
        decide (∀ j : Nat, j < 2 → (loaded.afterCycles j).Passes .extended 2 8),
        (loaded.afterCycles 2).cycle.1.result)) =
      .ok (.uint8, 16, true, .error fault) := by decide +kernel
  obtain ⟨new, hnew, hruns⟩ := Check.map_eq_ok.mp hruns
  obtain ⟨hkind, hruns⟩ := Prod.mk.inj hruns
  obtain ⟨hcapacity, hruns⟩ := Prod.mk.inj hruns
  obtain ⟨hpasses, hresult⟩ := Prod.mk.inj hruns
  have hp : new.Reachable .extended := ⟨_, new, [], hnew, rfl⟩
  have hstop : Statement.stop failingLine 2 = 8 := by decide +kernel
  have hfits : Statement.stop failingLine 2 ≤ new.core.memory.capacity := by
    rw [hstop, hcapacity]
    decide
  have haddressable : new.core.memory.capacity < Address.limit := by
    rw [hcapacity]
    decide
  have hsmall : ∀ n < 9, Kind.uint8.Exact n := by decide +kernel
  have hexact : ∀ n, 2 ≤ n → n ≤ Statement.stop failingLine 2 → Kind.uint8.Exact n := by
    intro n _ hn
    rw [hstop] at hn
    exact hsmall n (by omega)
  have hpasses := of_decide_eq_true hpasses
  have hlast : (failingLine[2]?).map (fun s => (s.opcode, s.operands)) =
      some (Word.ofNat 0x3e, [Word.ofNat 9]) := by decide +kernel
  obtain ⟨last, hlast, hshape⟩ := Option.map_eq_some_iff.mp hlast
  obtain ⟨hword, hoperands⟩ := Prod.mk.inj hshape
  obtain ⟨hip, hrecord⟩ := straight_line_decodes hp hkind hfits haddressable hexact
    (show 2 ≤ failingLine.length by decide +kernel) (by rwa [hstop])
  have hplace : 2 + Statement.size (failingLine.take 2) = 6 := by decide +kernel
  rw [hplace] at hip
  obtain ⟨hopcode, harguments⟩ := hrecord last hlast
  exact ⟨new, hnew, hstop, hpasses, hresult, hip, hopcode.trans (congrArg some hword),
    harguments.trans hoperands⟩

end Processor

end WordMachine
