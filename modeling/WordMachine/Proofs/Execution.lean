import WordMachine.Processor
import WordMachine.Proofs.Stream

/-!
# An instruction in parts

An instruction looks its row up, fetches as many operand words as its operation takes, and then does
the body of the operation, which fetches nothing. Success and failure are told from these parts.
-/

set_option autoImplicit false

namespace WordMachine

/-- What an operation does to the core once its operand words are there. -/
def Operation.body : Operation → List Word → Action String
  | .ret, [] => Core.returnFromCall
  | .one op, [w] => Core.perform (op.effect w)
  | .two op, [first, second] => Core.perform (op.effect first second)
  | _, _ => pure ""

def Operation.goesOn : Operation → Bool
  | .idle | .stop _ => false
  | .ret | .one _ | .two _ => true

namespace Core

variable {c d : Core}

theorem writeEffect_eq_ok {address w : Word} {e : Effect Unit} :
    c.writeEffect address w = .ok e ↔
      ∃ a, c.memory.addressOf address = .ok a ∧ e = ⟨(), [.memory a w]⟩ := by
  rw [writeEffect, Check.bind_eq_ok]
  exact exists_congr fun _ => and_congr_right fun _ => Check.pure_eq_ok.trans eq_comm

theorem writeMemory_eq_ok {address w : Word} :
    writeMemory address w c = .ok () d ↔
      ∃ a, c.memory.addressOf address = .ok a ∧ d = c.store (.memory a w) := by
  rw [writeMemory, perform_eq_ok]
  simp only [writeEffect_eq_ok]
  constructor
  · rintro ⟨writes, ⟨a, ha, he⟩, rfl⟩
    cases he
    exact ⟨a, ha, rfl⟩
  · rintro ⟨a, ha, rfl⟩
    exact ⟨_, ⟨a, ha, rfl⟩, rfl⟩

theorem pop_eq_ok {w : Word} :
    pop c = .ok w d ↔
      ∃ top sp, c.readNamed stackPointer = .ok top ∧ c.readMemory top = .ok w ∧
        c.registers.place? (.name stackPointer) = some sp ∧
        d = c.store (.register sp (top.add (Word.ofNat 1))) := by
  rw [pop, perform_eq_ok]
  simp only [popEffect, Check.bind_eq_ok, Check.pure_eq_ok, Effect.mk.injEq,
    Registers.resolve_eq_ok]
  constructor
  · rintro ⟨_, ⟨top, htop, v, hv, sp, hsp, rfl, rfl⟩, rfl⟩
    exact ⟨top, sp, htop, hv, hsp, rfl⟩
  · rintro ⟨top, sp, htop, hw, hsp, rfl⟩
    exact ⟨_, ⟨top, htop, w, hw, sp, hsp, rfl, rfl⟩, rfl⟩

theorem pop_shape {w : Word} (h : pop c = .ok w d) : d.shape = c.shape := by
  obtain ⟨top, sp, -, -, -, rfl⟩ := pop_eq_ok.mp h
  exact c.store_shape _

/-- A return that fails has done nothing, or has popped the return address and nothing else. -/
theorem returnFromCall_error {fault : Fault} (h : returnFromCall c = .error fault d) :
    d = c ∧ pop c = .error fault c ∨ ∃ w, pop c = .ok w d ∧ pop d = .error fault d := by
  simp only [returnFromCall, Work.bind_eq_error] at h
  rcases h with h | ⟨target, c₁, h₁, h | ⟨count, c₂, h₂, h⟩⟩
  · obtain ⟨-, rfl⟩ := perform_eq_error.mp h
    exact Or.inl ⟨rfl, h⟩
  · obtain ⟨-, rfl⟩ := perform_eq_error.mp h
    exact Or.inr ⟨target, h₁, h⟩
  · -- the stack pointer is there after two pops, so the last step cannot fail
    obtain ⟨top, sp, -, -, hsp, -⟩ := pop_eq_ok.mp h₁
    have hplace : c₂.registers.place? (.name stackPointer) = some sp := by
      rw [place_of_shape ((pop_shape h₂).trans (pop_shape h₁)), hsp]
    obtain ⟨he, -⟩ := perform_eq_error.mp h
    simp only [Check.bind_eq_error, readNamed, Registers.read_eq_error, Registers.resolve_eq_error,
      hplace] at he
    simp [pure, Except.pure] at he

end Core

theorem Operation.body_error {op : Operation} {ws : List Word} {c d : Core} {fault : Fault}
    (h : op.body ws c = .error fault d) :
    d = c ∧ (op = .ret → Core.pop c = .error fault c) ∨
      op = .ret ∧ ∃ w, Core.pop c = .ok w d ∧ Core.pop d = .error fault d := by
  unfold Operation.body at h
  split at h
  · rcases Core.returnFromCall_error h with ⟨hd, hp⟩ | hp
    · exact Or.inl ⟨hd, fun _ => hp⟩
    · exact Or.inr ⟨rfl, hp⟩
  · exact Or.inl ⟨(Core.perform_eq_error.mp h).2, Operation.noConfusion⟩
  · exact Or.inl ⟨(Core.perform_eq_error.mp h).2, Operation.noConfusion⟩
  · exact absurd h Work.pure_ne_error

namespace Context

variable {switches : Switches} {x x' : Context} {fault : Fault}

theorem onCore_eq_ok {α : Type} {action : Action α} {a : α} :
    onCore action x = .ok a x' ↔
      ∃ c, action x.core = .ok a c ∧ x' = { x with core := c } := by
  rw [onCore]
  cases action x.core <;> simp [eq_comm, and_assoc]

theorem onCore_eq_error {α : Type} {action : Action α} :
    onCore action x = .error fault x' ↔
      ∃ c, action x.core = .error fault c ∧ x' = { x with core := c } := by
  rw [onCore]
  cases action x.core <;> simp [eq_comm, and_assoc]

theorem comment_eq_ok {text : String} {u : Unit} :
    comment switches text x = .ok u x' ↔ x' = { x with record := { x.record with
      text := if switches.emitCommentary then some text else x.record.text } } := by
  show EStateM.Result.ok () _ = _ ↔ _
  cases switches.emitCommentary <;> simp [eq_comm (a := x')]

theorem comment_ne_error {text : String} : comment switches text x ≠ .error fault x' :=
  fun h => nomatch h

theorem setArguments_eq_ok {ws : List Word} {u : Unit} :
    setArguments ws x = .ok u x' ↔ x' = { x with record := { x.record with arguments := ws } } := by
  show EStateM.Result.ok () _ = _ ↔ _
  simp [eq_comm]

theorem setArguments_ne_error {ws : List Word} : setArguments ws x ≠ .error fault x' :=
  fun h => nomatch h

theorem run_ok {name : String} {op : Operation} {continues : Bool}
    (h : run switches name op x = .ok continues x') :
    ∃ ws fetched text, Core.fetchMany op.arguments.length x.core = .ok ws fetched ∧
      op.body ws fetched = .ok text x'.core ∧
      ∃ arguments remark, (arguments = ws ∨ ws = [] ∧ arguments = x.record.arguments) ∧
        x'.record = { x.record with
          arguments := arguments
          text := if switches.emitCommentary then some remark else x.record.text } := by
  cases op with
  | idle =>
    simp only [run, Work.bind_eq_ok, Work.pure_eq_ok, comment_eq_ok] at h
    obtain ⟨_, _, rfl, -, rfl⟩ := h
    exact ⟨[], x.core, "", rfl, rfl, _, _, Or.inr ⟨rfl, rfl⟩, rfl⟩
  | stop remark =>
    simp only [run, Work.bind_eq_ok, Work.pure_eq_ok, comment_eq_ok] at h
    obtain ⟨_, _, rfl, -, rfl⟩ := h
    exact ⟨[], x.core, "", rfl, rfl, _, _, Or.inr ⟨rfl, rfl⟩, rfl⟩
  | ret =>
    simp only [run, Work.bind_eq_ok, Work.pure_eq_ok, comment_eq_ok, setArguments_eq_ok,
      onCore_eq_ok] at h
    obtain ⟨_, _, rfl, text, _, ⟨c, hc, rfl⟩, _, _, rfl, -, rfl⟩ := h
    exact ⟨[], x.core, text, rfl, hc, _, _, Or.inl rfl, rfl⟩
  | one op =>
    simp only [run, Work.bind_eq_ok, Work.pure_eq_ok, comment_eq_ok, setArguments_eq_ok,
      onCore_eq_ok] at h
    obtain ⟨w, _, ⟨c, hw, rfl⟩, _, _, rfl, text, _, ⟨d, hd, rfl⟩, _, _, rfl, -, rfl⟩ := h
    exact ⟨[w], c, text, Core.fetchMany_cons hw rfl, hd, _, _, Or.inl rfl, rfl⟩
  | two op =>
    simp only [run, Work.bind_eq_ok, Work.pure_eq_ok, comment_eq_ok, setArguments_eq_ok,
      onCore_eq_ok] at h
    obtain ⟨first, _, ⟨c, hc, rfl⟩, second, _, ⟨d, hd, rfl⟩, _, _, rfl, text, _, ⟨e, he, rfl⟩,
      _, _, rfl, -, rfl⟩ := h
    exact ⟨[first, second], d, text, Core.fetchMany_cons hc (Core.fetchMany_cons hd rfl), he, _, _,
      Or.inl rfl, rfl⟩

theorem run_of_body {name : String} {op : Operation} (hop : op.goesOn) {ws : List Word}
    {c d : Core} {text : String} (hws : Core.fetchMany op.arguments.length x.core = .ok ws c)
    (hbody : op.body ws c = .ok text d) :
    ∃ record, run switches name op x = .ok true ⟨d, record⟩ := by
  have hends : ∀ y : Context, ∃ record,
      (comment switches text >>= fun _ => pure true) { y with core := d } =
        .ok true ⟨d, record⟩ := fun y =>
    ⟨_, Work.bind_eq_ok.mpr ⟨(), _, comment_eq_ok.mpr rfl, Work.pure_eq_ok.mpr ⟨rfl, rfl⟩⟩⟩
  cases op with
  | idle => cases hop
  | stop remark => cases hop
  | ret =>
    obtain ⟨rfl, rfl⟩ := Work.pure_eq_ok.mp hws
    obtain ⟨record, hend⟩ := hends { x with record := { x.record with arguments := [] } }
    exact ⟨record, Work.bind_eq_ok.mpr ⟨(), _, setArguments_eq_ok.mpr rfl,
      Work.bind_eq_ok.mpr ⟨text, _, onCore_eq_ok.mpr ⟨d, hbody, rfl⟩, hend⟩⟩⟩
  | one op =>
    obtain ⟨w, e, hw, hnil⟩ := Work.bind_eq_ok.mp hws
    obtain ⟨_, _, hnone, hcons⟩ := Work.bind_eq_ok.mp hnil
    obtain ⟨rfl, rfl⟩ := Work.pure_eq_ok.mp hnone
    obtain ⟨rfl, rfl⟩ := Work.pure_eq_ok.mp hcons
    obtain ⟨record, hend⟩ := hends ⟨e, { x.record with arguments := [w] }⟩
    exact ⟨record, Work.bind_eq_ok.mpr ⟨w, _, onCore_eq_ok.mpr ⟨e, hw, rfl⟩,
      Work.bind_eq_ok.mpr ⟨(), _, setArguments_eq_ok.mpr rfl,
        Work.bind_eq_ok.mpr ⟨text, _, onCore_eq_ok.mpr ⟨d, hbody, rfl⟩, hend⟩⟩⟩⟩
  | two op =>
    obtain ⟨v, e, hv, hrest⟩ := Work.bind_eq_ok.mp hws
    obtain ⟨_, _, hrest, hcons⟩ := Work.bind_eq_ok.mp hrest
    obtain ⟨w, f, hw, hnil⟩ := Work.bind_eq_ok.mp hrest
    obtain ⟨_, _, hnone, hcons'⟩ := Work.bind_eq_ok.mp hnil
    obtain ⟨rfl, rfl⟩ := Work.pure_eq_ok.mp hnone
    obtain ⟨rfl, rfl⟩ := Work.pure_eq_ok.mp hcons'
    obtain ⟨rfl, rfl⟩ := Work.pure_eq_ok.mp hcons
    obtain ⟨record, hend⟩ := hends ⟨f, { x.record with arguments := [v, w] }⟩
    exact ⟨record, Work.bind_eq_ok.mpr ⟨v, _, onCore_eq_ok.mpr ⟨e, hv, rfl⟩,
      Work.bind_eq_ok.mpr ⟨w, _, onCore_eq_ok.mpr ⟨f, hw, rfl⟩,
        Work.bind_eq_ok.mpr ⟨(), _, setArguments_eq_ok.mpr rfl,
          Work.bind_eq_ok.mpr ⟨text, _, onCore_eq_ok.mpr ⟨d, hbody, rfl⟩, hend⟩⟩⟩⟩⟩

theorem run_error {name : String} {op : Operation}
    (h : run switches name op x = .error fault x') :
    Core.fetchMany op.arguments.length x.core = .error fault x'.core ∧ x'.record = x.record ∨
      ∃ ws fetched, Core.fetchMany op.arguments.length x.core = .ok ws fetched ∧
        op.body ws fetched = .error fault x'.core ∧
        x'.record = { x.record with arguments := ws } := by
  cases op with
  | idle =>
    simp only [run, Work.bind_eq_error, comment_ne_error, Work.pure_ne_error, false_or, and_false,
      exists_false] at h
  | stop remark =>
    simp only [run, Work.bind_eq_error, comment_ne_error, Work.pure_ne_error, false_or, and_false,
      exists_false] at h
  | ret =>
    simp only [run, Work.bind_eq_error, comment_ne_error, Work.pure_ne_error, setArguments_eq_ok,
      setArguments_ne_error, onCore_eq_error, or_false, false_or, and_false, exists_false] at h
    obtain ⟨_, _, rfl, c, hc, rfl⟩ := h
    exact Or.inr ⟨[], x.core, rfl, hc, rfl⟩
  | one op =>
    simp only [run, Work.bind_eq_error, comment_ne_error, Work.pure_ne_error, setArguments_eq_ok,
      setArguments_ne_error, onCore_eq_ok, onCore_eq_error, or_false, false_or, and_false,
      exists_false] at h
    rcases h with ⟨c, hc, rfl⟩ | ⟨w, _, ⟨c, hw, rfl⟩, _, _, rfl, d, hd, rfl⟩
    · exact Or.inl ⟨Core.fetchMany_stops hc, rfl⟩
    · exact Or.inr ⟨[w], c, Core.fetchMany_cons hw rfl, hd, rfl⟩
  | two op =>
    simp only [run, Work.bind_eq_error, comment_ne_error, Work.pure_ne_error, setArguments_eq_ok,
      setArguments_ne_error, onCore_eq_ok, onCore_eq_error, or_false, false_or, and_false,
      exists_false] at h
    rcases h with ⟨c, hc, rfl⟩ | ⟨first, _, ⟨c, hc, rfl⟩, ⟨d, hd, rfl⟩ |
      ⟨second, _, ⟨d, hd, rfl⟩, _, _, rfl, e, he, rfl⟩⟩
    · exact Or.inl ⟨Core.fetchMany_stops hc, rfl⟩
    · exact Or.inl ⟨Core.fetchMany_stops_later hc (Core.fetchMany_stops hd), rfl⟩
    · exact Or.inr ⟨[first, second], d, Core.fetchMany_cons hc (Core.fetchMany_cons hd rfl), he, rfl⟩

def remarked (x : Context) (switches : Switches) (arguments : List Word) (remark : String) : Record :=
  { x.record with
    arguments := arguments
    text := if switches.emitCommentary then some remark else x.record.text }

def retired (set : InstructionSet) (switches : Switches) (opcode : Word) (continues : Bool)
    (c : Core) (r : Record) : Record :=
  { (if switches.emitDetail then fillDetail set opcode ⟨c, r⟩ else r) with terminate := !continues }

theorem retired_plain (set : InstructionSet) (opcode : Word) (continues : Bool) (c : Core)
    (r : Record) :
    (retired set switches opcode continues c r).plain = { r.plain with terminate := !continues } := by
  simp only [retired, fillDetail]
  cases switches.emitDetail
  · rfl
  · cases set.lookup? opcode <;> rfl

theorem retired_description {set : InstructionSet} {opcode : Word} {row : Instruction}
    (hrow : set.lookup? opcode = some row) (switches : Switches) (continues : Bool) (c : Core)
    (r : Record) :
    (retired set switches opcode continues c r).text = r.text ∧
      (retired set switches opcode continues c r).mnemonic =
        if switches.emitDetail then some row.mnemonic else r.mnemonic := by
  simp only [retired, fillDetail, hrow]
  cases switches.emitDetail <;> exact ⟨rfl, rfl⟩

theorem finish_eq_ok {set : InstructionSet} {opcode : Word} {continues b : Bool} :
    finish set switches opcode continues x = .ok b x' ↔
      b = continues ∧
        x' = { x with record := retired set switches opcode continues x.core x.record } := by
  rw [finish, Work.bind_eq_ok]
  constructor
  · rintro ⟨_, _, hm, hp⟩
    obtain ⟨rfl, rfl⟩ := Work.pure_eq_ok.mp hp
    cases hm
    exact ⟨rfl, rfl⟩
  · rintro ⟨rfl, rfl⟩
    exact ⟨_, _, rfl, rfl⟩

theorem finish_ne_error {set : InstructionSet} {opcode : Word} {continues : Bool} :
    finish set switches opcode continues x ≠ .error fault x' :=
  fun h => nomatch h

theorem execute_ok {set : InstructionSet} {opcode : Word} {continues : Bool}
    (h : execute set switches opcode x = .ok continues x') :
    ∃ row, set.lookup? opcode = some row ∧
      ∃ ws fetched text, Core.fetchMany row.operation.arguments.length x.core = .ok ws fetched ∧
        row.operation.body ws fetched = .ok text x'.core ∧
        ∃ arguments remark, (arguments = ws ∨ ws = [] ∧ arguments = x.record.arguments) ∧
          x'.record = retired set switches opcode continues x'.core
            (x.remarked switches arguments remark) := by
  cases hrow : set.lookup? opcode with
  | none =>
    simp only [execute, hrow] at h
    cases h
  | some row =>
    simp only [execute, hrow] at h
    obtain ⟨goes, y, hrun, hfinish⟩ := Work.bind_eq_ok.mp h
    obtain ⟨rfl, rfl⟩ := finish_eq_ok.mp hfinish
    obtain ⟨ws, fetched, text, hws, hbody, arguments, remark, harguments, hrecord⟩ := run_ok hrun
    refine ⟨row, rfl, ws, fetched, text, hws, hbody, arguments, remark, harguments, ?_⟩
    rw [remarked, ← hrecord]

theorem execute_error {set : InstructionSet} {opcode : Word}
    (h : execute set switches opcode x = .error fault x') :
    set.lookup? opcode = none ∧ fault = .unknownOpcode opcode ∧
        x' = { x with record := { x.record with terminate := true } } ∨
      ∃ row, set.lookup? opcode = some row ∧
        (Core.fetchMany row.operation.arguments.length x.core = .error fault x'.core ∧
            x'.record = x.record ∨
          ∃ ws fetched, Core.fetchMany row.operation.arguments.length x.core = .ok ws fetched ∧
            row.operation.body ws fetched = .error fault x'.core ∧
            x'.record = { x.record with arguments := ws }) := by
  cases hrow : set.lookup? opcode with
  | none =>
    simp only [execute, hrow] at h
    cases h
    exact Or.inl ⟨rfl, rfl, rfl⟩
  | some row =>
    simp only [execute, hrow] at h
    rcases Work.bind_eq_error.mp h with hrun | ⟨_, _, -, hfinish⟩
    · exact Or.inr ⟨row, rfl, run_error hrun⟩
    · exact absurd hfinish finish_ne_error

end Context

namespace Model

theorem execute_ofModel (model : Model) :
    (Variant.ofModel model).execute = Context.execute model.instructions := by
  cases model <;> rfl

theorem instructions_consistent (model : Model) : model.instructions.Consistent := by
  cases model
  · exact baseInstructions_consistent
  · exact extendedInstructions_consistent

theorem mem_of_lookup {model : Model} {opcode : Word} {row : Instruction}
    (h : model.instructions.lookup? opcode = some row) : row ∈ model.instructions := by
  obtain ⟨byte, -, hrow⟩ := Option.bind_eq_some_iff.mp h
  exact List.mem_of_find?_eq_some hrow

theorem arguments_of_lookup {model : Model} {opcode : Word} {row : Instruction}
    (h : model.instructions.lookup? opcode = some row) :
    row.arguments = row.operation.arguments :=
  model.instructions_consistent.arguments row (mem_of_lookup h)

end Model

namespace Processor

variable {p : Processor} {opcode : Word} {c : Core}

def opened (p : Processor) (opcode : Word) : Record :=
  { Record.start p.core.registers.ip with opcode := some opcode }

theorem cycle_unfetched {cause : Fault} (h : Core.fetch p.core = .error cause c) :
    p.cycle = p.fail p.core.registers.ip .fetch cause c (Record.start p.core.registers.ip) := by
  simp only [cycle, cycleInto, Record.restart_eq, h]

theorem cycle_fails {cause : Fault} {x : Context} (h : Core.fetch p.core = .ok opcode c)
    (hx : p.variant.execute p.switches opcode ⟨c, p.opened opcode⟩ = .error cause x) :
    p.cycle = p.fail p.core.registers.ip (.execute opcode) cause x.core x.record := by
  simp only [opened] at hx
  simp only [cycle, cycleInto, Record.restart_eq, h, hx]

theorem cycle_succeeds {continues : Bool} {x : Context} (h : Core.fetch p.core = .ok opcode c)
    (hx : p.variant.execute p.switches opcode ⟨c, p.opened opcode⟩ = .ok continues x) :
    p.cycle = (⟨.ok continues, x.record⟩,
      { p with core := x.core, state := .afterSuccess continues }) := by
  simp only [opened] at hx
  simp only [cycle, cycleInto, Record.restart_eq, h, hx]

theorem cycle_ok {continues : Bool} (h : p.cycle.1.result = .ok continues) :
    ∃ opcode c x, Core.fetch p.core = .ok opcode c ∧
      p.variant.execute p.switches opcode ⟨c, p.opened opcode⟩ = .ok continues x ∧
      p.cycle.1.record = x.record ∧ p.cycle.2.core = x.core := by
  cases hf : Core.fetch p.core with
  | error cause c =>
    rw [cycle_unfetched hf] at h
    cases h
  | ok opcode c =>
    cases hx : p.variant.execute p.switches opcode ⟨c, p.opened opcode⟩ with
    | error cause x =>
      rw [cycle_fails hf hx] at h
      cases h
    | ok goes x =>
      have hcycle := cycle_succeeds hf hx
      rw [hcycle] at h ⊢
      cases h
      exact ⟨opcode, c, x, rfl, hx, rfl, rfl⟩

end Processor

end WordMachine
