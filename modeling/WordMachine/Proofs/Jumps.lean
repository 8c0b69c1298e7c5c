import WordMachine.Proofs.Calls
import WordMachine.Proofs.Footprint
import WordMachine.Proofs.Order

/-!
# Comparisons and jumps

A comparison stores its flag in a register of its own, and every kind gives that flag back. While
no instruction writes to the register, a jump looks at the flag and so at the order of the two
words that were compared, however many instructions ago.
-/

set_option autoImplicit false

namespace WordMachine

theorem Flag.ofWord?_coerce (kind : Kind) (f : Flag) : ofWord? (kind.coerce f.toWord) = some f := by
  cases kind <;> cases f <;> decide +kernel

def Condition.mnemonic : Condition → String
  | always => "JMP"
  | equal => "JEQ"
  | notEqual => "JNE"
  | less => "JLT"
  | greater => "JGT"

theorem Condition.holds_unique (f : Option Flag) :
    ∀ a ∈ [equal, less, greater], ∀ b ∈ [equal, less, greater], a.holds f → b.holds f → a = b := by
  rcases f with _ | f
  · decide
  · cases f <;> decide

def Operand.suffix : Operand → String
  | register => "_REG"
  | constant => "_CONST"

namespace Model

theorem compare_row {row : Instruction} (h : row ∈ Model.extended.instructions)
    (hcompare : row.mnemonic = "CMP") :
    ∃ o : Operand, row.name = "CMP_REG" ++ o.suffix ∧ row.operation = .two (.compare o) := by
  have hrows : ∀ row ∈ Model.extended.instructions, row.mnemonic = "CMP" →
      row.name = "CMP_REG" ++ Operand.register.suffix ∧
          row.operation = .two (.compare .register) ∨
        row.name = "CMP_REG" ++ Operand.constant.suffix ∧
          row.operation = .two (.compare .constant) := by
    decide +kernel
  rcases hrows row h hcompare with hrow | hrow
  · exact ⟨.register, hrow⟩
  · exact ⟨.constant, hrow⟩

theorem jump_row {row : Instruction} {condition : Condition}
    (h : row ∈ Model.extended.instructions) (hjump : row.mnemonic = condition.mnemonic) :
    ∃ o : Operand, row.name = condition.mnemonic ++ o.suffix ∧
      row.operation = .one (.jump condition o) := by
  have hrows : ∀ row ∈ Model.extended.instructions, row.mnemonic = condition.mnemonic →
      row.name = condition.mnemonic ++ Operand.register.suffix ∧
          row.operation = .one (.jump condition .register) ∨
        row.name = condition.mnemonic ++ Operand.constant.suffix ∧
          row.operation = .one (.jump condition .constant) := by
    cases condition <;> decide +kernel
  rcases hrows row h hjump with hrow | hrow
  · exact ⟨.register, hrow⟩
  · exact ⟨.constant, hrow⟩

end Model

namespace Core

variable {c : Core}

/-- Memory holds at the instruction pointer a comparison of the word of a register with another
one: that of a register or its operand. Registers are read when all words are fetched. -/
def Compares (c : Core) (a b : Word) : Prop :=
  ∃ opcode row v w, ∃ o : Operand, Model.extended.instructions.lookup? opcode = some row ∧
    row.name = "CMP_REG" ++ o.suffix ∧ c.Streams 0 [opcode, v, w] ∧
    (c.advanced 3).readRegister v = .ok a ∧ o.value (c.advanced 3) w = .ok b

/-- Memory holds at the instruction pointer a jump on a condition to a word. -/
def JumpsTo (c : Core) (condition : Condition) (target : Word) : Prop :=
  ∃ opcode row w, ∃ o : Operand, Model.extended.instructions.lookup? opcode = some row ∧
    row.name = condition.mnemonic ++ o.suffix ∧ c.Streams 0 [opcode, w] ∧
    o.value (c.advanced 2) w = .ok target

/-- The instruction at the instruction pointer writes to the register of a name. -/
def Rewrites (c : Core) (name : String) : Prop :=
  ∃ opcode row ws, Model.extended.instructions.lookup? opcode = some row ∧
    c.Streams 0 (opcode :: ws) ∧ ws.length = row.arguments.length ∧
    ∃ t ∈ row.targets, ∃ i, c.target? ws t = some i ∧ c.registers.place? (.name name) = some i

theorem not_rewrites {opcode : Word} {row : Instruction} {ws : List Word} {name : String}
    (hrow : Model.extended.instructions.lookup? opcode = some row)
    (hstreams : c.Streams 0 (opcode :: ws)) (hl : ws.length = row.arguments.length)
    (h : ∀ t ∈ row.targets, c.target? ws t ≠ c.registers.place? (.name name)) :
    ¬ c.Rewrites name := by
  rintro ⟨opcode', row', ws', hrow', hstreams', hl', t, ht, i, hi, hplace⟩
  obtain rfl : opcode' = opcode := Except.ok.inj (hstreams'.1.symm.trans hstreams.1)
  obtain rfl : row' = row := Option.some.inj (hrow'.symm.trans hrow)
  obtain rfl : ws' = ws := hstreams'.2.unique (hl'.trans hl.symm) hstreams.2
  exact h t ht (hi.trans hplace.symm)

theorem leaves_jump {flag : Word} (h : c.readNamed compareRegister = .ok flag)
    (condition : Condition) :
    c.Leaves (.jump condition) ↔ condition.holds (Flag.ofWord? flag) := by
  simp only [Leaves, h, Except.ok.injEq, exists_eq_left']

end Core

namespace Processor

variable {p : Processor}

def Succeeds (p : Processor) : Prop := ∃ continues, p.cycle.1.result = .ok continues

instance decidableSucceeds (p : Processor) : Decidable p.Succeeds :=
  match h : p.cycle.1.result with
  | .ok continues => isTrue ⟨continues, h⟩
  | .error fault => isFalse (by simp [Succeeds, h])

theorem afterCycles_sound {model : Model} (hp : p.Sound model) (n : Nat) :
    (p.afterCycles n).Sound model := by
  induction n with
  | zero => exact hp
  | succ n ih => exact serve_sound ih .cycle

theorem cycle_compares (hp : p.Sound .extended) (hcompare : p.core.mnemonic? = some "CMP")
    (h : p.Succeeds) :
    ∃ a b, p.core.Compares a b ∧
      p.cycle.2.core.readNamed compareRegister =
        .ok (p.core.kind.coerce (Flag.compare a b).toWord) := by
  obtain ⟨continues, hresult⟩ := h
  obtain ⟨opcode, row, ws, hrow, hmnemonic, hstreams, hlength, text, hbody⟩ :=
    cycle_of_mnemonic hp hcompare hresult
  obtain ⟨o, hname, hop⟩ := Model.compare_row (Model.mem_of_lookup hrow) hmnemonic
  rw [hop] at hlength hbody
  obtain ⟨v, w, rfl⟩ : ∃ v w, ws = [v, w] := ⟨_, _, List.eq_getElem_of_length_eq_two ws hlength⟩
  have hs := p.core.advanced_shape 3
  obtain ⟨writes, heffect, hd⟩ := Core.perform_eq_ok.mp hbody
  obtain ⟨a, ha, heffect⟩ := Check.bind_eq_ok.mp heffect
  obtain ⟨b, hb, heffect⟩ := Check.bind_eq_ok.mp heffect
  obtain ⟨i, hi, hwrites⟩ := Core.assign_eq_ok heffect
  refine ⟨a, b, ⟨opcode, row, v, w, o, hrow, hname, hstreams, ha, hb⟩, ?_⟩
  have hkind : (p.core.advanced 3).kind = p.core.kind := Core.kind_of_shape hs
  rw [hd, ← hkind]
  cases hwrites
  exact Core.readNamed_store (Core.registers_of_shape hs hp.core.registers) hi _

theorem cycle_keeps (hp : p.Sound .extended) (h : p.Succeeds) {n : String}
    (hn : n ≠ instructionPointer) (hno : ¬ p.core.Rewrites n) :
    p.cycle.2.core.readNamed n = p.core.readNamed n := by
  obtain ⟨continues, hresult⟩ := h
  obtain ⟨opcode, row, ws, hrow, hstreams, hready, ⟨text, hbody⟩, -⟩ := cycle_ready hp hresult
  have hconfined := Model.body_confined (Model.mem_of_lookup hrow) hp.core.registers hbody
  refine Core.readNamed_of_cell hconfined.shape fun i hi => ?_
  refine hconfined.registers i (Registers.place_ne_ip hp.core.registers hn hi) fun t ht heq => ?_
  exact hno ⟨opcode, row, ws, hrow, hstreams, hready.operands.1, t, ht, i, heq, hi⟩

theorem afterCycles_keeps (hp : p.Sound .extended) {n : String}
    (hn : n ≠ instructionPointer) {k : Nat}
    (h : ∀ i < k, (p.afterCycles i).Succeeds ∧ ¬ (p.afterCycles i).core.Rewrites n) :
    (p.afterCycles k).core.readNamed n = p.core.readNamed n := by
  induction k with
  | zero => rfl
  | succ k ih =>
    obtain ⟨hsucceeds, hno⟩ := h k (Nat.lt_succ_self k)
    have hstep := cycle_keeps (afterCycles_sound hp k) hsucceeds hn hno
    exact hstep.trans (ih fun i hi => h i (Nat.lt_succ_of_lt hi))

theorem cycle_jumps (hp : p.Sound .extended) {condition : Condition}
    (hjump : p.core.mnemonic? = some condition.mnemonic) (h : p.Succeeds) :
    ∃ target, p.core.JumpsTo condition target ∧
      (p.core.Leaves (.jump condition) → p.cycle.2.core.registers.ip = target) ∧
      (¬ p.core.Leaves (.jump condition) → p.cycle.2.core.registers.ip = p.core.pointer 2) := by
  obtain ⟨continues, hresult⟩ := h
  obtain ⟨opcode, row, ws, hrow, hmnemonic, hstreams, hlength, text, hbody⟩ :=
    cycle_of_mnemonic hp hjump hresult
  obtain ⟨o, hname, hop⟩ := Model.jump_row (Model.mem_of_lookup hrow) hmnemonic
  rw [hop] at hlength hbody
  obtain ⟨w, rfl⟩ := List.length_eq_one_iff.mp hlength
  have hc := Core.registers_of_shape (p.core.advanced_shape 2) hp.core.registers
  obtain ⟨writes, heffect, hd⟩ := Core.perform_eq_ok.mp hbody
  obtain ⟨target, htarget, heffect⟩ := Check.bind_eq_ok.mp heffect
  obtain ⟨flag, hflag, heffect⟩ := Check.bind_eq_ok.mp heffect
  have hbefore : p.core.readNamed compareRegister = .ok flag :=
    (Core.readNamed_advanced hp.core.registers (by decide) 2).symm.trans hflag
  cases heffect
  refine ⟨target, ⟨opcode, row, w, o, hrow, hname, hstreams, htarget⟩, ?_⟩
  rw [Core.leaves_jump hbefore, hd]
  constructor
  · intro hholds
    rw [if_pos hholds]
    have hstored := Core.coerce_value hc (hp.coerce_fetched hstreams.2.1 2) htarget
    exact (Core.ip_store hc target).trans hstored
  · intro hholds
    rw [if_neg hholds]
    exact Core.advanced_ip hp.core.registers 2

/-- A jump after a comparison is taken just when the two words that were compared are in the order
that it asks for, while no instruction in between has written to the compare register. Whatever
that register holds, just one of the jumps on equal and on unequal words would be taken, and at
most one of those on equal, lesser and greater ones. -/
theorem comparison_decides_jumps (hp : p.Reachable .extended) :
    (p.core.mnemonic? = some "CMP" → p.Succeeds →
      ∃ a b, p.core.Compares a b ∧
        ∀ n, (∀ i < n, (p.cycle.2.afterCycles i).Succeeds ∧
            ¬ (p.cycle.2.afterCycles i).core.Rewrites compareRegister) →
          ∀ condition, let q := p.cycle.2.afterCycles n
            q.core.mnemonic? = some condition.mnemonic → q.Succeeds →
            ∃ target, q.core.JumpsTo condition target ∧
              (condition.Orders a b → q.cycle.2.core.registers.ip = target) ∧
              (¬ condition.Orders a b → q.cycle.2.core.registers.ip = q.core.pointer 2)) ∧
    (∀ condition, p.core.mnemonic? = some condition.mnemonic → p.Succeeds →
      ∃ target, p.core.JumpsTo condition target ∧
        (p.core.Leaves (.jump condition) → p.cycle.2.core.registers.ip = target) ∧
        (¬ p.core.Leaves (.jump condition) → p.cycle.2.core.registers.ip = p.core.pointer 2)) ∧
    (p.core.Leaves (.jump .equal) ↔ ¬ p.core.Leaves (.jump .notEqual)) ∧
    ∀ a ∈ [Condition.equal, .less, .greater], ∀ b ∈ [Condition.equal, .less, .greater],
      p.core.Leaves (.jump a) → p.core.Leaves (.jump b) → a = b := by
  have hs := hp.sound
  obtain ⟨i, hi⟩ := Registers.exists_place_of_mem (hs.required compareRegister (by decide))
  have hleaves := Core.leaves_jump (Registers.read_eq_ok.mpr ⟨i, hi, rfl⟩)
  refine ⟨fun hcompare h => ?_, fun condition => cycle_jumps hs, ?_, ?_⟩
  · obtain ⟨a, b, hcompares, hstored⟩ := cycle_compares hs hcompare h
    have hafter := serve_sound hs .cycle
    refine ⟨a, b, hcompares, fun n hkeeps condition hjump hsucceeds => ?_⟩
    have hflag := (afterCycles_keeps hafter (by decide) hkeeps).trans hstored
    have hjumps := cycle_jumps (afterCycles_sound hafter n) hjump hsucceeds
    rwa [Core.leaves_jump hflag, Flag.ofWord?_coerce, Condition.holds_compare] at hjumps
  · rw [hleaves, hleaves, Condition.holds_notEqual, Bool.not_eq_true', Bool.not_eq_false]
  · simp only [hleaves]
    exact Condition.holds_unique _

theorem unordered_words_are_unequal :
    ∃ new, create (.ofModel .extended) ⟨some .float32, 12, some ["x"]⟩ = .ok new ∧
      let p := new.after [.memory (.loadWords 0 [Word.ofNat 0x51, Word.ofNat 0, Word.nan,
        Word.ofNat 0x13, Word.ofNat 0, Word.ofNat 9, Word.ofNat 0x57, Word.ofNat 0])]
      let q := p.cycle.2.afterCycles 1
      p.core.mnemonic? = some "CMP" ∧ p.Succeeds ∧
        (∀ i < 1, (p.cycle.2.afterCycles i).Succeeds ∧
          ¬ (p.cycle.2.afterCycles i).core.Rewrites compareRegister) ∧
        q.core.mnemonic? = some "JNE" ∧ q.Succeeds ∧
        q.cycle.2.core.registers.ip = Word.ofNat 9 ∧
        ∃ a b, p.core.Compares a b ∧ Condition.notEqual.Orders a b := by
  let session : List HostCall := [.memory (.loadWords 0 [Word.ofNat 0x51, Word.ofNat 0, Word.nan,
    Word.ofNat 0x13, Word.ofNat 0, Word.ofNat 9, Word.ofNat 0x57, Word.ofNat 0])]
  have hruns : (create (.ofModel .extended) ⟨some .float32, 12, some ["x"]⟩).map (fun new =>
      let p : Processor := new.after session
      let move : Processor := p.cycle.2
      let q : Processor := move.cycle.2
      (decide (p.core.mnemonic? = some "CMP" ∧ p.Succeeds),
        decide (move.Succeeds ∧
          move.core.Streams 0 [Word.ofNat 0x13, Word.ofNat 0, Word.ofNat 9] ∧
          move.core.target? [Word.ofNat 0, Word.ofNat 9] .first ≠
            move.core.registers.place? (.name compareRegister)),
        decide (q.core.mnemonic? = some "JNE" ∧ q.Succeeds ∧
          q.cycle.2.core.registers.ip = Word.ofNat 9 ∧ q.core.pointer 2 = Word.ofNat 8))) =
      .ok (true, true, true) := by decide +kernel
  obtain ⟨new, hnew, hruns⟩ := Check.map_eq_ok.mp hruns
  obtain ⟨hfirst, hruns⟩ := Prod.mk.inj hruns
  obtain ⟨hsecond, hthird⟩ := Prod.mk.inj hruns
  obtain ⟨hcompare, hcompares⟩ := of_decide_eq_true hfirst
  obtain ⟨hmoves, hstreams, hother⟩ := of_decide_eq_true hsecond
  obtain ⟨hjump, hjumps, hip, hpast⟩ := of_decide_eq_true hthird
  have hlookup : (Model.extended.instructions.lookup? (Word.ofNat 0x13)).map
      (fun row => (row.arguments.length, row.targets)) = some (2, [.first]) := by decide +kernel
  obtain ⟨row, hrow, hrow'⟩ := Option.map_eq_some_iff.mp hlookup
  obtain ⟨hlength, htargets⟩ := Prod.mk.inj hrow'
  have hkeeps : ∀ i < 1, ((new.after session).cycle.2.afterCycles i).Succeeds ∧
      ¬ ((new.after session).cycle.2.afterCycles i).core.Rewrites compareRegister := by
    intro i hi
    obtain rfl : i = 0 := by omega
    refine ⟨hmoves, Core.not_rewrites hrow hstreams hlength.symm fun t ht => ?_⟩
    rw [htargets, List.mem_singleton] at ht
    rw [ht]
    exact hother
  have hp : (new.after session).Reachable .extended := ⟨_, new, session, hnew, rfl⟩
  obtain ⟨a, b, hwords, hdecides⟩ := (comparison_decides_jumps hp).1 hcompare hcompares
  obtain ⟨target, -, -, hno⟩ := hdecides 1 hkeeps .notEqual hjump hjumps
  refine ⟨new, hnew, hcompare, hcompares, hkeeps, hjump, hjumps, hip, a, b, hwords, ?_⟩
  by_contra horders
  have hbehind : Word.ofNat 9 = Word.ofNat 8 := hip.symm.trans ((hno horders).trans hpast)
  exact absurd hbehind (by decide +kernel)

end Processor

end WordMachine
