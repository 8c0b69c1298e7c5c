import WordMachine.Proofs.Success

/-!
# What a record shows

The record of a cycle that succeeded holds the opcode and the operand words that memory held where
the instruction pointer passed, as many as the published row says, whatever the instruction then
wrote there. Its detail names the row and has an entry for each operand.
-/

set_option autoImplicit false

namespace WordMachine

/-- The entry for an operand: its kind, with the register that its word picks or with the word. -/
def Core.Entry (c : Core) (a : Argument) (w : Word) (entry : String) : Prop :=
  match a.isRegister with
  | true => ∃ i name, c.registers.place? (.index w) = some i ∧ c.registers.names[i]? = some name ∧
    entry = a.label ++ ": " ++ name
  | false => entry = a.label ++ ": " ++ ("0x" ++ c.kind.toHex w)

def Core.Entries (c : Core) : List Argument → List Word → List String → Prop
  | [], [], [] => True
  | a :: kinds, w :: ws, entry :: entries => c.Entry a w entry ∧ c.Entries kinds ws entries
  | _, _, _ => False

theorem Core.entries_of_shape {c d : Core} (h : d.shape = c.shape) (kinds : List Argument)
    (ws : List Word) (entries : List String) :
    d.Entries kinds ws entries ↔ c.Entries kinds ws entries := by
  have hkind : d.kind = c.kind := kind_of_shape h
  have hentry : ∀ a w entry, d.Entry a w entry ↔ c.Entry a w entry := by
    intro a w entry
    simp only [Entry, place_of_shape h, names_of_shape h, hkind]
  induction kinds generalizing ws entries with
  | nil => cases ws <;> cases entries <;> rfl
  | cons a kinds ih =>
    cases ws with
    | nil => rfl
    | cons w ws =>
      cases entries with
      | nil => rfl
      | cons entry entries => exact and_congr (hentry a w entry) (ih ws entries)

namespace Context

theorem entry_argumentDetail {c : Core} {a : Argument} {w : Word}
    (h : a.isRegister → c.Resolves w) : c.Entry a w (argumentDetail c a w) := by
  have hlabel : c.Resolves w → ∃ i name, c.registers.place? (.index w) = some i ∧
      c.registers.names[i]? = some name ∧ c.label w = name := by
    rintro ⟨i, hi⟩
    have hlt : i < c.registers.names.length := Registers.place_lt hi
    refine ⟨i, c.registers.names[i], hi, List.getElem?_eq_getElem hlt, ?_⟩
    simp [Core.label, hi, Registers.nameOf?, hlt]
  cases a with
  | register =>
    obtain ⟨i, name, hi, hname, htext⟩ := hlabel (h rfl)
    exact ⟨i, name, hi, hname, by rw [argumentDetail, htext]⟩
  | registerPointer =>
    obtain ⟨i, name, hi, hname, htext⟩ := hlabel (h rfl)
    exact ⟨i, name, hi, hname, by rw [argumentDetail, htext]⟩
  | address => rfl
  | constant => rfl
  | symbol => rfl

theorem entries_argumentDetail {c : Core} {kinds : List Argument} {ws : List Word}
    (hl : ws.length = kinds.length) (h : c.RegistersResolve kinds ws) :
    c.Entries kinds ws (List.zipWith (argumentDetail c) kinds ws) := by
  induction kinds generalizing ws with
  | nil =>
    rw [List.eq_nil_of_length_eq_zero hl]
    trivial
  | cons a kinds ih =>
    cases ws with
    | nil => cases hl
    | cons w ws =>
      have hhead : c.Entry a w (argumentDetail c a w) :=
        entry_argumentDetail (h (a, w) List.mem_cons_self)
      have htail : c.RegistersResolve kinds ws := fun aw haw => h aw (List.mem_cons_of_mem _ haw)
      exact ⟨hhead, ih (Nat.succ.inj hl) htail⟩

section

variable {set : InstructionSet} {switches : Switches} {opcode : Word} {continues : Bool} {c : Core}
  {q r : Record}

theorem retired_opcode (h : q = retired set switches opcode continues c r) :
    q.opcode = r.opcode := by
  subst h
  show (retired set switches opcode continues c r).plain.opcode = r.opcode
  rw [retired_plain]
  rfl

theorem retired_arguments (h : q = retired set switches opcode continues c r) :
    q.arguments = r.arguments := by
  subst h
  show (retired set switches opcode continues c r).plain.arguments = r.arguments
  rw [retired_plain]
  rfl

theorem retired_detail (h : q = retired set switches opcode continues c r) {row : Instruction}
    (hd : switches.emitDetail) (hrow : set.lookup? opcode = some row) :
    q.mnemonic = some row.mnemonic ∧
      q.details = List.zipWith (argumentDetail c) row.arguments r.arguments := by
  subst h
  simp only [retired, fillDetail, hd, if_true, hrow, true_and]

end

end Context

namespace Processor

variable {model : Model} {p : Processor}

/-- A cycle that succeeds fetched what the row of its opcode says, before it did the rest of the
instruction, and its record shows just that. -/
theorem record_shows_row (hp : p.Reachable model) {continues : Bool}
    (h : p.cycle.1.result = .ok continues) :
    let r := p.cycle.1.record
    ∃ opcode row fetched text, r.opcode = some opcode ∧
      model.instructions.lookup? opcode = some row ∧
      r.arguments.length = row.arguments.length ∧
      p.core.Streams 0 (opcode :: r.arguments) ∧
      Core.fetchMany (1 + row.arguments.length) p.core = .ok (opcode :: r.arguments) fetched ∧
      row.operation.body r.arguments fetched = .ok text p.cycle.2.core ∧
      (p.switches.emitDetail → r.mnemonic = some row.mnemonic ∧
        p.core.Entries row.arguments r.arguments r.details) := by
  intro r
  have hs := hp.sound
  obtain ⟨opcode, row, ws, hrow, hstreams, hready, ⟨text, hbody⟩, remark, hrecord⟩ :=
    cycle_ready hs h
  have hopcode : r.opcode = some opcode := Context.retired_opcode hrecord
  have harguments : r.arguments = ws := Context.retired_arguments hrecord
  have hlength : ws.length = row.arguments.length := hready.operands.1
  rw [harguments]
  refine ⟨opcode, row, p.core.advanced (1 + ws.length), text, hopcode, hrow, hlength, hstreams, ?_,
    hbody, fun hd => ?_⟩
  · have hcount : (opcode :: ws).length = 1 + row.arguments.length := by
      rw [List.length_cons, hlength, Nat.add_comm]
    have hfetched : p.core.advanced (1 + ws.length) =
        p.core.advanced (0 + (1 + row.arguments.length)) := by rw [hlength, Nat.zero_add]
    exact (Core.fetchMany_eq_ok hs.core.registers (m := 0)).mpr ⟨hcount, hstreams, hfetched⟩
  · obtain ⟨hmnemonic, hdetails⟩ := Context.retired_detail hrecord hd hrow
    have hshape : p.cycle.2.core.shape = p.core.shape := cycle_shape hs
    have hregisters : p.cycle.2.core.RegistersResolve row.arguments ws := by
      intro aw haw hr
      obtain ⟨i, hi⟩ := hready.registers aw haw hr
      rw [Core.place_of_shape (p.core.advanced_shape _)] at hi
      exact ⟨i, (Core.place_of_shape hshape _).trans hi⟩
    have hentries := Context.entries_argumentDetail hlength hregisters
    rw [Core.entries_of_shape hshape] at hentries
    change r.details = List.zipWith _ row.arguments ws at hdetails
    exact ⟨hmnemonic, hdetails ▸ hentries⟩

theorem overwritten_operand_is_shown :
    ∃ new, create (.ofModel .extended) ⟨some .uint8, 8, some []⟩ = .ok new ∧
      let program := [Word.ofNat 0x15, Word.ofNat 1, Word.ofNat 0]
      let p := new.after [.memory (.loadWords 0 program)]
      p.cycle.1.result = .ok true ∧
        p.cycle.2.core.readMemory (Word.ofNat 1) = .ok (Word.ofNat 3) ∧
        p.cycle.1.record.details = ["address: 0x01", "register: ip"] ∧
        ∃ opcode, p.cycle.1.record.opcode = some opcode ∧
          p.core.Streams 0 (opcode :: p.cycle.1.record.arguments) := by
  let session : List HostCall :=
    [.memory (.loadWords 0 [Word.ofNat 0x15, Word.ofNat 1, Word.ofNat 0])]
  have hruns : (create (.ofModel .extended) ⟨some .uint8, 8, some []⟩).map (fun new =>
      ((new.after session).cycle.1.result,
        (new.after session).cycle.2.core.readMemory (Word.ofNat 1),
        (new.after session).cycle.1.record.details)) =
      .ok (.ok true, .ok (Word.ofNat 3), ["address: 0x01", "register: ip"]) := by decide +kernel
  obtain ⟨new, hnew, hruns⟩ := Check.map_eq_ok.mp hruns
  obtain ⟨hresult, hruns⟩ := Prod.mk.inj hruns
  obtain ⟨hmemory, hdetails⟩ := Prod.mk.inj hruns
  have hp : (new.after session).Reachable .extended := ⟨_, new, session, hnew, rfl⟩
  obtain ⟨opcode, row, fetched, text, hopcode, -, -, hstreams, -⟩ := record_shows_row hp hresult
  exact ⟨new, hnew, hresult, hmemory, hdetails, opcode, hopcode, hstreams⟩

end Processor

end WordMachine
