import WordMachine.Proofs.Coercion
import WordMachine.Proofs.History

/-!
# The log of register changes

What a register observer is told, put over a snapshot of the registers, gives what the registers
hold afterwards. Nothing changes a register without a report but clearing them all, and nothing is
reported but what a register reads once it is written.
-/

set_option autoImplicit false

namespace WordMachine

namespace Registers

variable {r s : Registers}

/-- Puts what register events tell over a snapshot, in order. -/
def replay (snapshot : List Word) (events : List Event) : List Word :=
  events.foldl
    (fun words event =>
      match event with
      | .register _ i stored _ => words.set i stored
      | .memory .. => words)
    snapshot

/-- The event tells the observer of the registers what one of them reads, and where execution is. -/
def Shows (r : Registers) : Event → Prop
  | .register tag i stored ip =>
    r.observer = some tag ∧ i < r.size ∧ stored = r.word i ∧ r.kind.coerce stored = stored ∧ ip = r.ip
  | .memory .. => False

/-- A complete and exact log of what happened to registers, mixed with events of the memory. -/
structure ChangeLog (before : Registers) (events : List Event) (after : Registers) : Prop where
  replayed : replay before.words events = after.words
  told : ∃ notices, Told Change before notices after ∧
    notices.map Notice.event = events.filter Event.isRegister ∧
    ∀ notice ∈ notices, notice.view.Shows notice.event

theorem replay_filter (snapshot : List Word) (events : List Event) :
    replay snapshot (events.filter Event.isRegister) = replay snapshot events := by
  induction events generalizing snapshot with
  | nil => rfl
  | cons e events ih =>
    cases e with
    | register tag i stored ip =>
      rw [List.filter_cons_of_pos (by rfl)]
      exact ih (snapshot.set i stored)
    | memory tag start stop span =>
      rw [List.filter_cons_of_neg (by simp [Event.isRegister])]
      exact ih snapshot

theorem words_put (r : Registers) (i : Nat) (w : Word) :
    (r.put i w).words = r.words.set i ((r.put i w).word i) := by
  have hsize : (r.put i w).size = r.size := rfl
  apply List.ext_getElem
  · simp only [words, List.length_set, List.length_map, List.length_range, hsize]
  · intro k hk _
    simp only [words, List.getElem_set, List.getElem_map, List.getElem_range]
    split
    · rename_i hik
      rw [hik]
    · rename_i hik
      exact r.word_put_ne w fun h => hik h.symm

theorem changeLog_of_told {notices : List (Notice Registers)} (h : Told Change r notices s)
    (hr : r.WellFormed) (ho : r.observer.isSome) :
    replay r.words (notices.map Notice.event) = s.words ∧
      ∀ notice ∈ notices, notice.view.Shows notice.event := by
  induction h with
  | nil r => exact ⟨rfl, fun _ h => nomatch h⟩
  | @cons r _ _ _ _ hchange _ ih =>
    cases hchange with
    | observe tag =>
      have hshape : (r.observe tag).shape = r.shape := rfl
      exact ih (hr.of_shape hshape) rfl
    | @write i w hi =>
      have hput := hr.of_shape (r.shape_put i w)
      obtain ⟨tag, htag⟩ := Option.isSome_iff_exists.mp ho
      have hreport : (r.put i w).report i =
          [.register tag i ((r.put i w).word i) (r.put i w).ip] := by
        rw [report, show (r.put i w).observer = some tag from htag]
      obtain ⟨hreplay, hshows⟩ := ih hput ho
      rw [hreport]
      constructor
      · rw [← hreplay, words_put]
        rfl
      · intro notice hnotice
        rcases List.mem_cons.mp hnotice with rfl | hrest
        · exact ⟨htag, hi, rfl, coerce_word hput hi, rfl⟩
        · exact hshows notice hrest

theorem changeLog_of_notices {events : List Event} {notices : List (Notice Registers)}
    (htold : Told Change r notices s)
    (hevents : notices.map Notice.event = events.filter Event.isRegister) (hr : r.WellFormed)
    (ho : r.observer.isSome) : r.ChangeLog events s := by
  obtain ⟨hreplay, hshows⟩ := changeLog_of_told htold hr ho
  refine ⟨?_, notices, htold, hevents, hshows⟩
  rw [← replay_filter, ← hevents, hreplay]

end Registers

namespace RegisterCall

variable {r : Registers} {call : RegisterCall}

def installed (tag : String) : RegisterCall → String
  | observe new => new
  | write _ _ | setIp _ | clear => tag

theorem apply_observer {u : Update Registers Answer} {tag : String} (ho : r.observer = some tag)
    (h : call.apply r = .ok u) : u.store.observer = some (call.installed tag) := by
  cases call with
  | write s w =>
    obtain ⟨v, hv, rfl⟩ := Check.map_eq_ok.mp h
    obtain ⟨i, -, rfl⟩ := Check.map_eq_ok.mp hv
    exact ho
  | setIp w | clear =>
    cases h
    exact ho
  | observe new =>
    cases h
    rfl

end RegisterCall

namespace Registers

def observed : Observed Registers := ⟨Core.registers, Change, Event.isRegister⟩

theorem store_tells (c : Core) (w : Write) (hw : w.LiesIn c) : Core.Tells observed c (c.store w) := by
  cases w with
  | register i v =>
    exact .of_told rfl (.once (.write v hw)) (Notice.event_map _ _)
      ((c.registers.put i v).report_isRegister i)
  | memory a v => exact .of_others rfl rfl ((c.memory.put a v).report_isMemory a a)

theorem serve_told {r : Registers} (hr : r.WellFormed) {call : RegisterCall} (hcall : call ≠ .clear) :
    (r.serve call).2.1.WellFormed ∧ ∃ notices, Told Change r notices (r.serve call).2.1 ∧
      notices.map Notice.event = (r.serve call).2.2 := by
  rw [serve]
  cases h : call.apply r with
  | error fault => exact ⟨hr, [], .nil r, rfl⟩
  | ok u =>
    exact ⟨hr.of_shape (RegisterCall.apply_shape h), _, .once (call.apply_change hcall hr h),
      Notice.event_map u.events u.store⟩

theorem serve_observer {r : Registers} {tag : String} (ho : r.observer = some tag)
    (call : RegisterCall) : (r.serve call).2.1.observer = some (call.installed tag) := by
  rw [serve]
  cases h : call.apply r with
  | error fault =>
    cases call with
    | write s w => exact ho
    | setIp w | clear | observe new => cases h
  | ok u => exact call.apply_observer ho h

theorem final_onRegisters (c : Core) (call : RegisterCall) :
    (Work.final (Core.onRegisters call.apply c)).registers = (c.registers.serve call).2.1 := by
  rw [Core.onRegisters, serve]
  cases call.apply c.registers <;> rfl

theorem session_observer {r : Registers} {tag : String} (ho : r.observer = some tag)
    (calls : List RegisterCall) :
    (session serve r calls).1.observer = some (calls.foldl RegisterCall.installed tag) := by
  induction calls generalizing r tag with
  | nil => exact ho
  | cons call calls ih => exact ih (serve_observer ho call)

end Registers

def HostCall.installed (tag : String) : HostCall → String
  | registers call => call.installed tag
  | _ => tag

namespace Processor

variable {model : Model} {p : Processor}

theorem serve_registers_told (hp : p.variant = Variant.ofModel model) (hc : p.core.WellFormed)
    {call : HostCall} (hreset : call ≠ .reset) (hclear : call ≠ .registers .clear) :
    Core.Tells Registers.observed p.core (p.serve call).2.core := by
  apply serve_related Core.Tells.chains Registers.store_tells hp hc.registers call
  · exact fun h => absurd h hreset
  · rintro own rfl
    refine Core.onRegisters_related (Core.Tells.refl p.core) fun u h => ?_
    have hclear : own ≠ .clear := fun he => hclear (he ▸ rfl)
    exact .of_told rfl (.once (own.apply_change hclear hc.registers h)) (Notice.event_map _ _)
      (RegisterCall.events_isRegister hc.registers h)
  · rintro own rfl
    exact Core.onMemory_related (Core.Tells.refl p.core) fun u h =>
      .of_others rfl rfl (MemoryCall.events_isMemory h)

theorem serve_observer (hp : p.variant = Variant.ofModel model) (hc : p.core.registers.WellFormed)
    {tag : String} (ho : p.core.registers.observer = some tag) (call : HostCall) :
    (p.serve call).2.core.registers.observer = some (call.installed tag) := by
  let Keeps (c d : Core) : Prop := d.registers.observer = c.registers.observer
  have hchains : Core.Chains Keeps := ⟨fun _ => rfl, fun h h' => h'.trans h⟩
  have hstore : ∀ c w, w.LiesIn c → Keeps c (c.store w) := fun c w _ => by cases w <;> rfl
  have hother (hne : ∀ own, call ≠ .registers own) : Keeps p.core (p.serve call).2.core := by
    apply serve_related hchains hstore hp hc call (fun _ => rfl)
    · exact fun own h => absurd h (hne own)
    · exact fun own _ => Core.onMemory_related (R := Keeps) rfl fun _ _ => rfl
  cases call with
  | registers own =>
    show (p.onCore _).2.core.registers.observer = _
    rw [onCore_snd, Registers.final_onRegisters]
    exact Registers.serve_observer ho own
  | memory own | reset | cycle | run limit | fetch | configure switches =>
    exact (hother (by simp only [ne_eq, reduceCtorEq, not_false_eq_true, implies_true])).trans ho

theorem after_observer (hp : p.variant = Variant.ofModel model) (hc : p.core.registers.WellFormed)
    {tag : String} (ho : p.core.registers.observer = some tag) (calls : List HostCall) :
    (p.after calls).core.registers.observer = some (calls.foldl HostCall.installed tag) := by
  induction calls generalizing p tag with
  | nil => exact ho
  | cons call calls ih =>
    obtain ⟨hv, hs⟩ := serve_shape hp call
    exact ih (hv.trans hp) (Core.registers_of_shape hs hc) (serve_observer hp hc ho call)

/-- As long as registers have an observer and are not cleared, what it is told is a complete and exact
log of what happens to them: registers on their own and those of a processor, whatever is asked of
it, also where it fails. A selector that picks no register is refused without a word. -/
theorem register_changes_are_logged :
    (∀ (r : Registers) (tag : String) (calls : List RegisterCall),
      r.WellFormed → r.observer = some tag → .clear ∉ calls →
      let ended := session Registers.serve r calls
      r.ChangeLog ended.2 ended.1 ∧
        ended.1.observer = some (calls.foldl RegisterCall.installed tag)) ∧
    (∀ (model : Model) (p : Processor) (tag : String) (calls : List HostCall),
      p.Reachable model → p.core.registers.observer = some tag →
      .reset ∉ calls → .registers .clear ∉ calls →
      ∃ events : List Event,
        (p.after calls).core.log.toList = p.core.log.toList ++ events ∧
        p.core.registers.ChangeLog events (p.after calls).core.registers ∧
        (p.after calls).core.registers.observer = some (calls.foldl HostCall.installed tag)) ∧
    ∀ (p : Processor) (s : Selector) (w : Word), p.core.registers.place? s = none →
      p.core.registers.read s = .error (.invalidRegister s) ∧
      p.core.registers.serve (.write s w) = (.error (.invalidRegister s), p.core.registers, []) ∧
      p.serve (.registers (.write s w)) = (.core (.error (.invalidRegister s)), p) := by
  refine ⟨?_, ?_, ?_⟩
  · intro r tag calls hr ho hcalls ended
    have hserve (r : Registers) (call : RegisterCall) (hr : r.WellFormed) (hcall : call ≠ .clear) :=
      Registers.serve_told hr hcall
    have hallowed : ∀ call ∈ calls, call ≠ .clear := fun call hcall he => hcalls (he ▸ hcall)
    obtain ⟨notices, htold, hevents⟩ := session_told Registers.serve hserve hr calls hallowed
    refine ⟨Registers.changeLog_of_notices htold ?_ hr (by rw [ho]; rfl),
      Registers.session_observer ho calls⟩
    have hregisters := htold.all Registers.Change.isRegister
    rw [hevents] at hregisters
    rw [hevents, List.filter_eq_self.mpr hregisters]
  · intro model p tag calls hp ho hreset hclear
    have hs := hp.sound
    have hallowed : ∀ call ∈ calls, call ≠ .reset ∧ call ≠ .registers .clear := fun call hcall =>
      ⟨fun he => hreset (he ▸ hcall), fun he => hclear (he ▸ hcall)⟩
    obtain ⟨events, notices, hlog, htold, hevents⟩ := after_related Core.Tells.chains
      (fun p call hp hc hcall => serve_registers_told hp hc hcall.1 hcall.2) hs.variant hs.core calls
      hallowed
    exact ⟨events, hlog,
      Registers.changeLog_of_notices htold hevents hs.core.registers (by rw [ho]; rfl),
      after_observer hs.variant hs.core.registers ho calls⟩
  · intro p s w hs
    have hresolve : p.core.registers.resolve s = .error (.invalidRegister s) :=
      Registers.resolve_eq_error.mpr ⟨hs, rfl⟩
    have happly : (RegisterCall.write s w).apply p.core.registers =
        .error (.invalidRegister s) := by
      rw [RegisterCall.apply, Registers.write, hresolve]
      rfl
    refine ⟨by rw [Registers.read, hresolve]; rfl, by rw [Registers.serve, happly]; rfl, ?_⟩
    simp only [serve, onCore, Core.onRegisters, happly]

theorem coerced_write_and_failure_are_logged :
    ∃ new, create (.ofModel .extended) ⟨some .uint8, 8, some ["x"]⟩ = .ok new ∧
      let program := [0x13, 0, 300, 0x3e, 9].map Word.ofNat
      let p := new.after [.registers (.observe "log"), .memory (.loadWords 0 program)]
      let nowhere : Selector := .name "y"
      let calls : List HostCall := [.cycle, .run 3, .registers (.write nowhere Word.nan)]
      let own : List RegisterCall := [.write (.name "x") (Word.ofNat 300), .setIp (Word.ofNat 7)]
      let told (i stored ip : Nat) : Event :=
        .register "log" i (Word.ofNat stored) (Word.ofNat ip)
      let events := [told 1 1 1, told 1 2 2, told 1 3 3, told 0 44 3, told 1 4 4, told 1 5 5]
      p.core.log = #[] ∧ (p.after calls).core.log.toList = events ∧
        p.core.registers.ChangeLog events (p.after calls).core.registers ∧
        p.core.registers.ChangeLog [told 0 44 0, told 1 7 7]
          (session Registers.serve p.core.registers own).1 ∧
        p.core.registers.place? nowhere = none ∧
        p.serve (.registers (.write nowhere Word.nan)) =
          (.core (.error (.invalidRegister nowhere)), p) := by
  let begun : List HostCall := [.registers (.observe "log"),
    .memory (.loadWords 0 ([0x13, 0, 300, 0x3e, 9].map Word.ofNat))]
  let nowhere : Selector := .name "y"
  let calls : List HostCall := [.cycle, .run 3, .registers (.write nowhere Word.nan)]
  let own : List RegisterCall := [.write (.name "x") (Word.ofNat 300), .setIp (Word.ofNat 7)]
  let told (i stored ip : Nat) : Event := .register "log" i (Word.ofNat stored) (Word.ofNat ip)
  let events := [told 1 1 1, told 1 2 2, told 1 3 3, told 0 44 3, told 1 4 4, told 1 5 5]
  have hruns : (create (.ofModel .extended) ⟨some .uint8, 8, some ["x"]⟩).map (fun new =>
      let p := new.after begun
      ((p.core.log, p.core.registers.observer, p.core.registers.place? nowhere),
        (p.after calls).core.log.toList, (session Registers.serve p.core.registers own).2)) =
      .ok ((#[], some "log", none), events, [told 0 44 0, told 1 7 7]) := by decide +kernel
  obtain ⟨new, hnew, hruns⟩ := Check.map_eq_ok.mp hruns
  obtain ⟨hbegun, hruns⟩ := Prod.mk.inj hruns
  obtain ⟨hlog, hbegun⟩ := Prod.mk.inj hbegun
  obtain ⟨hobserver, hplace⟩ := Prod.mk.inj hbegun
  obtain ⟨hevents, hown⟩ := Prod.mk.inj hruns
  have hp : (new.after begun).Reachable .extended := ⟨_, new, begun, hnew, rfl⟩
  obtain ⟨hregisters, hprocessors, hrefused⟩ := register_changes_are_logged
  obtain ⟨more, hmore, hchange, -⟩ := hprocessors .extended (new.after begun) "log" calls hp
    hobserver (by decide) (by decide)
  obtain ⟨hsession, -⟩ := hregisters (new.after begun).core.registers "log" own
    hp.sound.core.registers hobserver (by decide)
  rw [hlog] at hmore
  obtain rfl : events = more := hevents.symm.trans hmore
  rw [hown] at hsession
  exact ⟨new, hnew, hlog, hevents, hchange, hsession, hplace, (hrefused _ nowhere _ hplace).2.2⟩

end Processor

end WordMachine
