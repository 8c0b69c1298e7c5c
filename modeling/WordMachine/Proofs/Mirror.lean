import WordMachine.Proofs.Failure
import WordMachine.Proofs.History

/-!
# Mirrors of memory

A host can keep a copy of memory by copying, on every event, the words that the event is about. The
copy is exact after every call, because no write touches a byte outside the words it reports and
because an operation that fails changes nothing. Only clearing the whole memory goes unreported.
-/

set_option autoImplicit false

namespace WordMachine

namespace Memory

variable {m n : Memory}

def copyTo (seen : Memory) (mirror : Array UInt8) (start stop : Nat) : Array UInt8 :=
  Bytes.splice mirror (start * seen.kind.byteWidth) (seen.bank.span start stop).toList

/-- What a host copies when it is told of `start` and `stop`: the word at `start` if both are the
same and it is there, else the words from `start` up to `stop`. -/
def reflect (mirror : Array UInt8) (notice : Notice Memory) : Array UInt8 :=
  match notice.event with
  | .memory _ start stop _ =>
    if start < stop then notice.view.copyTo mirror start stop
    else if start = stop ∧ start < notice.view.capacity then
      notice.view.copyTo mirror start (start + 1)
    else mirror
  | .register .. => mirror

/-- The event tells the observer of the memory of addresses that are there, and their bytes. -/
def Shows (m : Memory) : Event → Prop
  | .memory tag start stop span =>
    m.observer = some tag ∧ start ≤ stop ∧ stop ≤ m.capacity ∧
      span = m.bank.span start (m.reach start stop)
  | .register .. => False

/-- Notices by which a mirror of one memory becomes a mirror of the other. -/
structure Mirrors (before : Memory) (notices : List (Notice Memory)) (after : Memory) : Prop where
  told : Told Change before notices after
  bytes : notices.foldl reflect before.bytes = after.bytes
  shown : ∀ notice ∈ notices, notice.view.Shows notice.event

theorem copyTo_nothing (m : Memory) (mirror : Array UInt8) (start : Nat) :
    m.copyTo mirror start start = mirror := by
  rw [copyTo, Bank.span, Array.extract_eq_empty_of_le (Nat.min_le_left _ _)]
  rfl

theorem reflect_eq_copyTo (mirror : Array UInt8) {tag : String} {start stop : Nat}
    {span : Array UInt8} (hle : start ≤ stop) (hstop : stop ≤ m.capacity) :
    reflect mirror ⟨.memory tag start stop span, m⟩ = m.copyTo mirror start (m.reach start stop) := by
  simp only [reflect]
  split
  · have hreach : m.reach start stop = stop := by
      rw [reach]
      omega
    rw [hreach]
  · split
    · have hreach : m.reach start stop = start + 1 := by
        rw [reach]
        omega
      rw [hreach]
    · have hreach : m.reach start stop = start := by
        rw [reach]
        omega
      rw [hreach, copyTo_nothing]

theorem copyTo_putBytes (hm : m.WellFormed) {start stop : Nat} {bytes : List UInt8}
    (hfits : start * m.kind.byteWidth + bytes.length ≤ m.reach start stop * m.kind.byteWidth) :
    (m.putBytes start bytes).copyTo m.bytes start (m.reach start stop) =
      (m.putBytes start bytes).bytes := by
  have hsize : (m.putBytes start bytes).bytes.size = m.bytes.size := m.bank.size_putBytes start bytes
  have hreach : m.reach start stop ≤ m.capacity := Nat.min_le_right _ _
  have hend : m.reach start stop * m.kind.byteWidth ≤ m.bytes.size := by
    rw [hm]
    exact Nat.mul_le_mul_right _ hreach
  refine Bytes.splice_extract hsize.symm ?_ (hsize ▸ hend) fun k hk => ?_
  · exact Nat.le_trans (Nat.le_add_right _ _) hfits
  · exact (Bytes.splice_frame _ _ _ _ (hk.imp_right fun h => Nat.le_trans hfits h)).symm

theorem reflected_of_told {notices : List (Notice Memory)} (h : Told Change m notices n)
    (hm : m.WellFormed) (ho : m.observer.isSome) :
    notices.foldl reflect m.bytes = n.bytes ∧
      ∀ notice ∈ notices, notice.view.Shows notice.event := by
  induction h with
  | nil m => exact ⟨rfl, fun _ h => nomatch h⟩
  | @cons m _ _ _ _ hchange _ ih =>
    cases hchange with
    | observe tag =>
      have hshape : (m.observe tag).shape = m.shape := rfl
      exact ih (hm.of_shape hshape) rfl
    | nothing => exact ih hm ho
    | @put start stop bytes hle hstop hfits =>
      let changed := m.putBytes start bytes
      obtain ⟨tag, htag⟩ := Option.isSome_iff_exists.mp ho
      have hreport : changed.report start stop =
          [.memory tag start stop (changed.bank.span start (changed.reach start stop))] := by
        rw [report, show changed.observer = some tag from htag]
        rfl
      have hreflect : ∀ span, reflect m.bytes ⟨.memory tag start stop span, changed⟩ =
          changed.bytes := fun span =>
        (reflect_eq_copyTo (m := changed) m.bytes hle hstop).trans (copyTo_putBytes hm hfits)
      obtain ⟨hbytes, hshown⟩ := ih (hm.of_shape (m.shape_putBytes start bytes)) ho
      rw [show (m.putBytes start bytes).report start stop = _ from hreport]
      constructor
      · rw [List.map_singleton, List.singleton_append, List.foldl_cons, hreflect, hbytes]
      · intro notice hnotice
        rcases List.mem_cons.mp hnotice with rfl | hrest
        · exact ⟨htag, hle, hstop, rfl⟩
        · exact hshown notice hrest

theorem mirrors_of_told {notices : List (Notice Memory)} (h : Told Change m notices n)
    (hm : m.WellFormed) (ho : m.observer.isSome) : m.Mirrors notices n :=
  ⟨h, (reflected_of_told h hm ho).1, (reflected_of_told h hm ho).2⟩

theorem serve_told {call : MemoryCall} (hcall : call ≠ .clear) :
    ∃ notices, Told Change m notices (m.serve call).2.1 ∧
      notices.map Notice.event = (m.serve call).2.2 := by
  rw [serve]
  cases h : call.apply m with
  | error fault => exact ⟨[], .nil m, rfl⟩
  | ok u => exact ⟨_, .once (call.apply_change hcall h), Notice.event_map u.events u.store⟩

def observed : Observed Memory := ⟨Core.memory, Change, fun e => !e.isRegister⟩

theorem store_tells (c : Core) (w : Write) (hw : w.LiesIn c) : Core.Tells observed c (c.store w) := by
  cases w with
  | register i v =>
    refine .of_others rfl rfl fun e he => ?_
    simp [observed, (c.registers.put i v).report_isRegister i e he]
  | memory a v =>
    refine .of_told rfl (.once (.word hw (c.memory.kind.length_encode v))) (Notice.event_map _ _)
      fun e he => ?_
    simpa [observed] using (c.memory.put a v).report_isMemory a a e he

end Memory

namespace Processor

variable {model : Model} {p : Processor}

theorem serve_memory_told (hp : p.variant = Variant.ofModel model) (hc : p.core.WellFormed)
    {call : HostCall} (hclear : call ≠ .memory .clear) :
    Core.Tells Memory.observed p.core (p.serve call).2.core := by
  apply serve_related Core.Tells.chains Memory.store_tells hp hc.registers call
  · exact fun _ => .of_same rfl rfl
  · rintro own rfl
    refine Core.onRegisters_related (Core.Tells.refl p.core) fun u h => .of_others rfl rfl fun e he => ?_
    simp [Memory.observed, RegisterCall.events_isRegister hc.registers h e he]
  · rintro own rfl
    refine Core.onMemory_related (Core.Tells.refl p.core) fun u h => ?_
    have hown : own ≠ .clear := fun he => hclear (he ▸ rfl)
    refine .of_told rfl (.once (own.apply_change hown h)) (Notice.event_map _ _) fun e he => ?_
    simpa [Memory.observed] using MemoryCall.events_isMemory h e he

theorem failed_cycle_unreported (hp : p.variant = Variant.ofModel model)
    (hc : p.core.registers.WellFormed) {fault : CycleFault}
    (h : p.cycle.1.result = .error fault) :
    p.cycle.2.core.memory = p.core.memory ∧
      ∃ events : List Event, p.cycle.2.core.log.toList = p.core.log.toList ++ events ∧
        ∀ e ∈ events, e.isRegister := by
  cases hf : Core.fetch p.core with
  | error cause c =>
    obtain rfl : c = p.core := Core.perform_error hf
    rw [cycle_unfetched hf]
    exact ⟨rfl, [], (List.append_nil _).symm, fun _ h => nomatch h⟩
  | ok opcode c =>
    obtain ⟨-, rfl⟩ := (Core.fetch_eq_ok hc (n := 0)).mp hf
    obtain ⟨fetched, hfetched, hregisters⟩ := p.core.storeAll_events (p.core.fetchWrites 1)
      fun _ h => (Core.mem_fetchWrites h).2
    cases hx : p.variant.execute p.switches opcode ⟨p.core.advanced 1, p.opened opcode⟩ with
    | ok continues x =>
      rw [cycle_succeeds hf hx] at h
      cases h
    | error cause x =>
      rw [hp, model.execute_ofModel] at hx
      have hframe := execute_failure_frame
        (Core.registers_of_shape (p.core.advanced_shape 1) hc) hx
      rw [← model.execute_ofModel, ← hp] at hx
      obtain ⟨executed, hexecuted, hregisters'⟩ := hframe.unreported
      rw [cycle_fails hf hx]
      refine ⟨hframe.memory.trans (p.core.advanced_memory 1), fetched ++ executed, ?_, ?_⟩
      · show x.core.log.toList = _
        rw [hexecuted, ← List.append_assoc, ← hfetched]
        rfl
      · intro e he
        exact (List.mem_append.mp he).elim (hregisters e) (hregisters' e)

/-- A host that copies what its observer is told of has memory byte for byte after every call, for a
memory on its own and for that of a processor, unless memory is cleared. The addresses told of are
there. An operation on memory that fails, and an instruction that fails, tells nothing of memory; a
write that passes its check is the one that instructions make. -/
theorem memory_is_mirrored :
    (∀ (m : Memory) (calls : List MemoryCall),
      m.WellFormed → m.observer.isSome → .clear ∉ calls →
      let ended := session Memory.serve m calls
      ∃ notices, notices.map Notice.event = ended.2 ∧ m.Mirrors notices ended.1) ∧
    (∀ (model : Model) (p : Processor) (calls : List HostCall),
      p.Reachable model → p.core.memory.observer.isSome → .memory .clear ∉ calls →
      ∃ (events : List Event) (notices : List (Notice Memory)),
        (p.after calls).core.log.toList = p.core.log.toList ++ events ∧
        notices.map Notice.event = events.filter (!·.isRegister) ∧
        p.core.memory.Mirrors notices (p.after calls).core.memory) ∧
    (∀ (m : Memory) (call : MemoryCall) (fault : Fault),
      (m.serve call).1 = .error fault → (m.serve call).2 = (m, [])) ∧
    (∀ (p : Processor) (call : MemoryCall) (fault : Fault),
      (p.serve (.memory call)).1 = .core (.error fault) → (p.serve (.memory call)).2 = p) ∧
    (∀ (c d : Core) (address w : Word) (fault : Fault),
      Core.writeMemory address w c = .error fault d → d = c) ∧
    (∀ (c d : Core) (address w : Word), Core.writeMemory address w c = .ok () d ↔
      ∃ a, c.memory.addressOf address = .ok a ∧ d = c.store (.memory a w)) ∧
    ∀ (model : Model) (p : Processor) (fault : CycleFault),
      p.Reachable model → p.cycle.1.result = .error fault →
      p.cycle.2.core.memory = p.core.memory ∧
        ∃ events : List Event, p.cycle.2.core.log.toList = p.core.log.toList ++ events ∧
          ∀ e ∈ events, e.isRegister := by
  refine ⟨?_, ?_, ?_, ?_, fun c d _ _ _ h => Core.perform_error h,
    fun c d _ _ => Core.writeMemory_eq_ok,
    fun model p fault hp h => failed_cycle_unreported hp.sound.variant hp.sound.core.registers h⟩
  · intro m calls hm ho hclear ended
    have hserve (m : Memory) (call : MemoryCall) (_ : True) (hcall : call ≠ .clear) :=
      And.intro trivial (Memory.serve_told (m := m) hcall)
    have hallowed : ∀ call ∈ calls, call ≠ .clear := fun call hcall he => hclear (he ▸ hcall)
    obtain ⟨notices, htold, hevents⟩ := session_told Memory.serve hserve trivial calls hallowed
    exact ⟨notices, hevents, Memory.mirrors_of_told htold hm ho⟩
  · intro model p calls hp ho hclear
    have hs := hp.sound
    have hallowed : ∀ call ∈ calls, call ≠ .memory .clear := fun call hcall he =>
      hclear (he ▸ hcall)
    obtain ⟨events, notices, hlog, htold, hevents⟩ := after_related Core.Tells.chains
      (fun p call hp hc hcall => serve_memory_told hp hc hcall) hs.variant hs.core calls hallowed
    exact ⟨events, notices, hlog, hevents, Memory.mirrors_of_told htold hs.core.memory ho⟩
  · intro m call fault h
    rw [Memory.serve] at h ⊢
    cases happly : call.apply m with
    | error cause => rfl
    | ok u =>
      rw [happly] at h
      cases h
  · intro p call fault h
    show (p.onCore (Core.onMemory call.apply)).2 = p
    have hanswer : (p.onCore (Core.onMemory call.apply)).1 = .error fault := Reply.core.inj h
    rw [onCore, Core.onMemory] at hanswer ⊢
    cases happly : call.apply p.core.memory with
    | error cause => rfl
    | ok u =>
      rw [happly] at hanswer
      cases hanswer

theorem partial_words_are_mirrored :
    ∃ new, create (.ofModel .extended) ⟨some .uint16, 8, some ["x"]⟩ = .ok new ∧
      let p := new.after [.memory (.observe "log")]
      let program := [0x60, 513, 0x3e, 9].map Word.ofNat
      let own : List MemoryCall :=
        [.loadWords 0 program, .load 5 [1, 2, 3], .load 8 [], .write 8 Word.nan]
      let calls := own.map HostCall.memory ++ [.run 3, .reset]
      let loaded : List Event := [.memory "log" 0 4 #[0, 96, 2, 1, 0, 62, 0, 9],
        .memory "log" 5 7 #[1, 2, 3, 0], .memory "log" 8 8 #[]]
      let events := loaded ++ [.memory "log" 7 7 #[2, 1]]
      p.core.log = #[] ∧ (p.after calls).core.log.toList = events ∧
        (p.after calls).core.memory.bytes = #[0, 96, 2, 1, 0, 62, 0, 9, 0, 0, 1, 2, 3, 0, 2, 1] ∧
        (∃ notices, notices.map Notice.event = events ∧
          p.core.memory.Mirrors notices (p.after calls).core.memory) ∧
        (∃ notices, notices.map Notice.event = loaded ∧
          p.core.memory.Mirrors notices (session Memory.serve p.core.memory own).1) := by
  let begun : List HostCall := [.memory (.observe "log")]
  let own : List MemoryCall := [.loadWords 0 ([0x60, 513, 0x3e, 9].map Word.ofNat),
    .load 5 [1, 2, 3], .load 8 [], .write 8 Word.nan]
  let calls := own.map HostCall.memory ++ [.run 3, .reset]
  let loaded : List Event := [.memory "log" 0 4 #[0, 96, 2, 1, 0, 62, 0, 9],
    .memory "log" 5 7 #[1, 2, 3, 0], .memory "log" 8 8 #[]]
  let events := loaded ++ [.memory "log" 7 7 #[2, 1]]
  have hruns : (create (.ofModel .extended) ⟨some .uint16, 8, some ["x"]⟩).map (fun new =>
      let p := new.after begun
      ((p.core.log, p.core.memory.observer.isSome), ((p.after calls).core.log.toList,
        (p.after calls).core.memory.bytes), (session Memory.serve p.core.memory own).2)) =
      .ok ((#[], true), (events, #[0, 96, 2, 1, 0, 62, 0, 9, 0, 0, 1, 2, 3, 0, 2, 1]), loaded) := by
    decide +kernel
  obtain ⟨new, hnew, hruns⟩ := Check.map_eq_ok.mp hruns
  obtain ⟨hbegun, hruns⟩ := Prod.mk.inj hruns
  obtain ⟨hlog, hobserver⟩ := Prod.mk.inj hbegun
  obtain ⟨hafter, hown⟩ := Prod.mk.inj hruns
  obtain ⟨hevents, hbytes⟩ := Prod.mk.inj hafter
  have hp : (new.after begun).Reachable .extended := ⟨_, new, begun, hnew, rfl⟩
  obtain ⟨hmemories, hprocessors, -⟩ := memory_is_mirrored
  obtain ⟨more, notices, hmore, htold, hmirrors⟩ := hprocessors .extended (new.after begun) calls hp
    hobserver (by decide)
  obtain ⟨ownNotices, hsession, hownMirrors⟩ := hmemories (new.after begun).core.memory own
    hp.sound.core.memory hobserver (by decide)
  rw [hlog] at hmore
  obtain rfl : events = more := hevents.symm.trans hmore
  exact ⟨new, hnew, hlog, hevents, hbytes, ⟨notices, htold, hmirrors⟩,
    ownNotices, hsession.trans hown, hownMirrors⟩

end Processor

end WordMachine
