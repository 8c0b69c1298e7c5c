import WordMachine.Proofs.EmptyStack
import WordMachine.Proofs.Outcome
import WordMachine.Proofs.RegisterMap

/-!
# The construction of a processor

A configuration is accepted just when it has memory and asks for no register twice: the names that a
model requires are added where they are missing, so nothing can be wrong with them. The processor
that is built holds nothing but zeros, apart from the pointer of an empty stack.
-/

set_option autoImplicit false

namespace WordMachine

/-- There is memory, and no register is asked for twice. -/
structure Configuration.Consistent (c : Configuration) : Prop where
  memory : 1 ≤ c.memoryWords
  distinct : ∀ names, c.registers = some names → names.Nodup

/-- What is wrong with a configuration: it has no memory or, if it has some, the list of names comes
to a name that it had before, and this is the first. -/
def Configuration.Shows (c : Configuration) : ConfigurationFlaw → Prop
  | .noMemory => c.memoryWords = 0
  | .duplicateRegister n => 1 ≤ c.memoryWords ∧
    ∃ before after, c.registers = some (before ++ n :: after) ∧ before.Nodup ∧ n ∈ before
  | .noInstructionPointer | .stated _ => False

namespace Registers

theorem firstRepeat_append {before names : List String} {n : String}
    (h : firstRepeat before names = some n) (more : List String) :
    firstRepeat before (names ++ more) = some n := by
  induction names generalizing before with
  | nil => cases h
  | cons m ms ih =>
    rw [List.cons_append]
    simp only [firstRepeat] at h ⊢
    split at h
    · rename_i hm
      rw [if_pos hm, h]
    · rename_i hm
      rw [if_neg hm, ih h]

theorem split_of_firstRepeat {before names : List String} {n : String}
    (h : firstRepeat before names = some n) :
    ∃ first rest, names = first ++ n :: rest ∧ first.Nodup ∧ (∀ m ∈ first, m ∉ before) ∧
      (n ∈ first ∨ n ∈ before) := by
  -- on the names still to come, whatever names have been seen before them
  induction names generalizing before with
  | nil => cases h
  | cons m ms ih =>
    simp only [firstRepeat] at h
    split at h
    · rename_i hm
      obtain rfl := Option.some.inj h
      exact ⟨[], ms, rfl, List.nodup_nil, by simp, Or.inr hm⟩
    · rename_i hm
      obtain ⟨first, rest, rfl, hnodup, hnew, hn⟩ := ih h
      refine ⟨m :: first, rest, rfl, ?_, ?_, ?_⟩
      · exact List.nodup_cons.mpr ⟨fun hmem => hnew m hmem (List.mem_cons_self ..), hnodup⟩
      · rintro k (_ | ⟨_, hk⟩)
        · exact hm
        · exact fun hbefore => hnew k hk (List.mem_cons_of_mem m hbefore)
      · rcases hn with hn | hn
        · exact Or.inl (List.mem_cons_of_mem m hn)
        · exact (List.mem_cons.mp hn).imp (fun he => List.mem_cons.mpr (Or.inl he)) id

theorem create_refused (kind : Kind) {names : List String} (h : ¬ names.Nodup)
    (more : List String) :
    ∃ first n rest, names = first ++ n :: rest ∧ first.Nodup ∧ n ∈ first ∧
      create kind (names ++ more) = .error (.invalidConfiguration (.duplicateRegister n)) := by
  cases hrepeat : firstRepeat [] names with
  | none => exact absurd ((firstRepeat_eq_none _ _).mp hrepeat).1 h
  | some n =>
    obtain ⟨first, rest, hsplit, hnodup, -, hn⟩ := split_of_firstRepeat hrepeat
    refine ⟨first, n, rest, hsplit, hnodup, by simpa using hn, ?_⟩
    rw [create, firstRepeat_append hrepeat more]

end Registers

namespace Variant

theorem required_nodup (model : Model) : (ofModel model).requiredRegisters.Nodup := by
  cases model <;> decide

theorem default_nodup (model : Model) : (ofModel model).defaultRegisters.Nodup := by
  cases model <;> decide +kernel

theorem registerNames_eq (model : Model) (asked : Option (List String)) :
    let names := asked.getD (ofModel model).defaultRegisters
    (ofModel model).registerNames asked =
      names ++ (ofModel model).requiredRegisters.filter (· ∉ names) :=
  foldl_withName _ _ (required_nodup model)

theorem registerNames_nodup (model : Model) (asked : Option (List String)) :
    ((ofModel model).registerNames asked).Nodup ↔ ∀ names, asked = some names → names.Nodup := by
  rw [registerNames, nodup_foldl_withName]
  cases asked with
  | none => simpa using default_nodup model
  | some names => simp

theorem ip_required (model : Model) :
    instructionPointer ∈ (ofModel model).requiredRegisters := by
  cases model <;> decide

end Variant

namespace Processor

variable {model : Model} {configuration : Configuration} {p : Processor}

/-- What is built of a configuration. The stack pointer holds the capacity, as the kind stores it. -/
structure New (model : Model) (configuration : Configuration) (p : Processor) : Prop where
  variant : p.variant = Variant.ofModel model
  names : let asked := configuration.registers.getD (Variant.ofModel model).defaultRegisters
    p.core.registers.names =
      asked ++ (Variant.ofModel model).requiredRegisters.filter (· ∉ asked)
  distinct : p.core.registers.names.Nodup
  required : ∀ n ∈ (Variant.ofModel model).requiredRegisters,
    ∃ i, p.core.registers.resolve (.name n) = .ok i ∧ p.core.registers.names[i]? = some n
  kinds : let kind := configuration.kind.getD (Variant.ofModel model).defaultKind
    p.core.registers.kind = kind ∧ p.core.memory.kind = kind
  capacity : p.core.memory.capacity = configuration.memoryWords
  memory : p.core.memory.bytes =
    Array.replicate (configuration.memoryWords * p.core.kind.byteWidth) 0
  registers : ∀ i < p.core.registers.size,
    (model = .extended → p.core.registers.names[i]? ≠ some Core.stackPointer) →
      p.core.registers.cell i = Array.replicate p.core.kind.byteWidth 0 ∧
        p.core.registers.word i = Word.zero false
  stack : model = .extended → p.core.readNamed Core.stackPointer =
    .ok (p.core.kind.coerce (Word.ofNat configuration.memoryWords))
  state : p.state = .ready

theorem initialise_leaves (hp : p.Sound model) :
    p.initialise.1 = .ok () ∧ p.initialise.2.core.memory = p.core.memory ∧
      ∀ i, (model = .extended → p.core.registers.names[i]? ≠ some Core.stackPointer) →
        p.initialise.2.core.registers.cell i = p.core.registers.cell i := by
  cases model with
  | base =>
    have hok : p.variant.initialise p.core = .ok () p.core := by
      rw [hp.variant]
      rfl
    have hset : p.initialise = (.ok (), p) := by rw [initialise, hok]
    rw [hset]
    exact ⟨rfl, rfl, fun _ _ => rfl⟩
  | extended =>
    obtain ⟨sp, hsp, hset⟩ := initialise_stack hp
    rw [hset]
    refine ⟨rfl, rfl, fun i hi => p.core.registers.cell_put_ne _ ?_⟩
    rintro rfl
    exact hi rfl ((Registers.place?_iff hp.core.registers).mp hsp)

theorem create_of_initialised {variant : Variant} {registers : Registers}
    (hwords : configuration.memoryWords ≠ 0)
    (hregisters : Registers.create (configuration.kind.getD variant.defaultKind)
      (variant.registerNames configuration.registers) = .ok registers)
    (h : initialise (blank variant (configuration.kind.getD variant.defaultKind) registers
      configuration.memoryWords) = (.ok (), p)) :
    create variant configuration = .ok p := by
  rw [blank] at h
  simp only [create, if_neg hwords, hregisters, bind, Except.bind, h]
  rfl

theorem create_accepts (model : Model) (hc : configuration.Consistent) :
    ∃ p, create (.ofModel model) configuration = .ok p := by
  have hnames := (Variant.registerNames_nodup model configuration.registers).mpr hc.distinct
  have hip := Variant.mem_registerNames (Variant.ip_required model) configuration.registers
  obtain ⟨registers, hregisters⟩ := (Registers.create_iff
    (configuration.kind.getD (Variant.ofModel model).defaultKind) _).mpr ⟨hnames, hip⟩
  have hok := (initialise_leaves (blank_sound hregisters)).1
  have hmemory := hc.memory
  exact ⟨_, create_of_initialised (by omega) hregisters (Prod.ext hok rfl)⟩

theorem create_refuses (model : Model) (hc : ¬ configuration.Consistent) :
    ∃ flaw, create (.ofModel model) configuration = .error (.invalidConfiguration flaw) ∧
      configuration.Shows flaw := by
  by_cases hwords : configuration.memoryWords = 0
  · exact ⟨.noMemory, by rw [create, if_pos hwords]; rfl, hwords⟩
  · have hmemory := Nat.pos_of_ne_zero hwords
    cases hasked : configuration.registers with
    | none => exact absurd ⟨hmemory, fun names h => by cases hasked.symm.trans h⟩ hc
    | some names =>
      have hrepeats : ¬ names.Nodup := fun hnodup =>
        hc ⟨hmemory, fun other h => Option.some.inj (hasked.symm.trans h) ▸ hnodup⟩
      have hnames := Variant.registerNames_eq model (some names)
      obtain ⟨before, n, after, rfl, hnodup, hn, hcreate⟩ := Registers.create_refused
        (configuration.kind.getD (Variant.ofModel model).defaultKind) hrepeats
        ((Variant.ofModel model).requiredRegisters.filter (· ∉ names))
      refine ⟨.duplicateRegister n, ?_, hmemory, before, after, hasked, hnodup, hn⟩
      simp only [create, if_neg hwords, hasked, hnames, Option.getD_some, hcreate]
      rfl

theorem create_new (h : create (.ofModel model) configuration = .ok p) :
    p.New model configuration := by
  obtain ⟨-, registers, hregisters, hinitialise⟩ := create_ok h
  have hp := create_sound h
  have hblank : (blank (.ofModel model) (configuration.kind.getD (Variant.ofModel model).defaultKind)
      registers configuration.memoryWords).Sound model := blank_sound hregisters
  obtain ⟨-, hshape⟩ := initialise_shape hblank.variant
  obtain ⟨-, hmemory, hcells⟩ := initialise_leaves hblank
  rw [hinitialise] at hshape hmemory hcells
  obtain ⟨hnames, hkind⟩ := Registers.create_names hregisters
  have hpNames : p.core.registers.names = registers.names := Core.names_of_shape hshape
  have hpKind : p.core.kind = registers.kind := Core.kind_of_shape hshape
  refine
    { variant := hp.variant
      names := hpNames.trans (hnames.trans (Variant.registerNames_eq model _))
      distinct := hp.core.registers.distinct
      required := fun n hn => ?_
      kinds := ⟨hpKind.trans hkind, hp.kinds.trans (hpKind.trans hkind)⟩
      capacity := Core.capacity_of_shape hshape
      memory := ?_
      registers := fun i hi hother => ?_
      stack := ?_
      state := create_state h }
  · obtain ⟨i, hi⟩ := Registers.exists_place_of_mem (hp.required n hn)
    exact ⟨i, Registers.resolve_eq_ok.mpr hi, (Registers.place?_iff hp.core.registers).mp hi⟩
  · rw [hmemory, hpKind, hkind]
    rfl
  · have hbytes := Registers.create_bytes hregisters
    have hlies := registers.bank.word_lies_in (Core.size_of_shape hshape ▸ hi)
      hblank.core.registers.size_bytes
    rw [hpNames] at hother
    have hcell : p.core.registers.cell i = registers.cell i := hcells i hother
    rw [Registers.word_of_cell hpKind hcell, hcell, hpKind]
    exact ⟨registers.bank.span_zero hbytes hlies, registers.bank.word_zero hbytes hlies⟩
  · rintro rfl
    exact (create_emptied h).2.pointer

/-- A processor is built of a configuration just when there is memory and no name is asked for twice;
of any other one it is told what is wrong. Its registers are those asked for or else the model's own,
and after them the required ones that are not among these. Memory and registers are of one kind and
hold zeros, but for the stack pointer, and no cycle has been run. -/
theorem construction_accepts_consistent (model : Model) (configuration : Configuration) :
    ((∃ p, create (.ofModel model) configuration = .ok p) ↔ configuration.Consistent) ∧
    (¬ configuration.Consistent →
      ∃ flaw, create (.ofModel model) configuration = .error (.invalidConfiguration flaw) ∧
        configuration.Shows flaw) ∧
    ∀ p, create (.ofModel model) configuration = .ok p → p.New model configuration := by
  refine ⟨⟨fun ⟨p, hp⟩ => ?_, create_accepts model⟩, create_refuses model, fun p => create_new⟩
  by_cases hc : configuration.Consistent
  · exact hc
  · obtain ⟨flaw, hflaw, -⟩ := create_refuses model hc
    cases hp.symm.trans hflaw

theorem partial_list_is_completed :
    let given : Configuration := ⟨some .int16, 4, some ["sp", "x"]⟩
    let twice : Configuration := ⟨none, 4, some ["x", "ip", "x"]⟩
    (given.Consistent ∧ ∃ p, create (.ofModel .extended) given = .ok p ∧ p.New .extended given ∧
      p.core.registers.names = ["sp", "x", "ip", "acc", "cmp"] ∧
      p.core.memory.bytes = Array.replicate 8 0 ∧
      p.core.readNamed Core.stackPointer = .ok (Word.ofNat 4) ∧
      p.core.registers.cell 3 = #[0, 0] ∧ p.state = .ready) ∧
    ¬ twice.Consistent ∧ twice.Shows (.duplicateRegister "x") ∧
      create (.ofModel .base) twice =
        .error (.invalidConfiguration (.duplicateRegister "x")) := by
  intro given twice
  have hgiven : given.Consistent :=
    ⟨by decide, fun names h => Option.some.inj h ▸ by decide⟩
  have htwice : ¬ twice.Consistent := fun h => absurd (h.distinct _ rfl) (by decide)
  obtain ⟨haccepts, -, hnew⟩ := construction_accepts_consistent .extended given
  obtain ⟨-, hrefuses, -⟩ := construction_accepts_consistent .base twice
  obtain ⟨p, hp⟩ := haccepts.mpr hgiven
  obtain ⟨flaw, hflaw, hshows⟩ := hrefuses htwice
  have hanswer : (create (.ofModel .base) twice).map (fun _ => ()) =
      .error (.invalidConfiguration (.duplicateRegister "x")) := by decide +kernel
  have hfault := Check.map_eq_error.mp hanswer
  obtain rfl : flaw = .duplicateRegister "x" :=
    Fault.invalidConfiguration.inj (Except.error.inj (hflaw.symm.trans hfault))
  have hn := hnew p hp
  have hnames : p.core.registers.names = ["sp", "x", "ip", "acc", "cmp"] := hn.names
  have hkind : p.core.kind = .int16 := hn.kinds.1
  have hbytes := hn.memory
  have hstack := hn.stack rfl
  obtain ⟨hcell, -⟩ := hn.registers 3 (by rw [Registers.size, hnames]; decide)
    (by rw [hnames]; decide)
  rw [hkind] at hbytes hstack hcell
  refine ⟨⟨hgiven, p, hp, hn, hnames, hbytes, ?_, hcell, hn.state⟩, htwice, hshows, hfault⟩
  rw [hstack]
  decide +kernel

end Processor

end WordMachine
