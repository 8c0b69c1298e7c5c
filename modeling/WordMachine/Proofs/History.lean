import WordMachine.Proofs.Bounds

/-!
# What observers are told

Each of the two stores of a core changes step by step, and a step is told once it is done. The
history of a store has with every event the store as it was at that moment. Whatever a host asks of
a processor, the log grows by the events of such a history, in order and mixed only with those of
the other store.
-/

set_option autoImplicit false

namespace WordMachine

namespace Registers

inductive Change (r : Registers) : List Event → Registers → Prop where
  | write {i : Nat} (w : Word) : i < r.size → Change r ((r.put i w).report i) (r.put i w)
  | observe (tag : String) : Change r [] (r.observe tag)

theorem report_isRegister (r : Registers) (i : Nat) : ∀ e ∈ r.report i, e.isRegister := by
  intro e he
  rw [report] at he
  split at he
  · rw [List.mem_singleton.mp he]
    rfl
  · cases he

theorem Change.isRegister {r s : Registers} {events : List Event} (h : Change r events s) :
    ∀ e ∈ events, e.isRegister := by
  cases h with
  | write w hi => exact report_isRegister _ _
  | observe tag => exact fun _ h => nomatch h

end Registers

theorem RegisterCall.apply_change {r : Registers} {call : RegisterCall}
    {u : Update Registers Answer} (hcall : call ≠ .clear) (hr : r.WellFormed)
    (h : call.apply r = .ok u) : r.Change u.events u.store := by
  cases call with
  | write s w =>
    obtain ⟨v, hv, rfl⟩ := Check.map_eq_ok.mp h
    obtain ⟨i, hi, rfl⟩ := Check.map_eq_ok.mp hv
    exact .write w (Registers.place_lt (Registers.resolve_eq_ok.mp hi))
  | setIp w =>
    cases h
    exact .write w hr.ipIndex_lt
  | clear => exact absurd rfl hcall
  | observe tag =>
    cases h
    exact .observe tag

theorem RegisterCall.events_isRegister {r : Registers} {call : RegisterCall}
    {u : Update Registers Answer} (hr : r.WellFormed) (h : call.apply r = .ok u) :
    ∀ e ∈ u.events, e.isRegister := by
  by_cases hcall : call = .clear
  · subst hcall
    cases h
    exact fun _ h => nomatch h
  · exact (apply_change hcall hr h).isRegister

namespace Memory

variable {m n : Memory}

def reach (m : Memory) (start stop : Nat) : Nat := min (max stop (start + 1)) m.capacity

/-- Bytes are put at an address, none past the words that the observer is told of; or an observer is
installed; or a stretch without words is filled. -/
inductive Change (m : Memory) : List Event → Memory → Prop where
  | put {start stop : Nat} {bytes : List UInt8} : start ≤ stop → stop ≤ m.capacity →
    start * m.kind.byteWidth + bytes.length ≤ m.reach start stop * m.kind.byteWidth →
    Change m ((m.putBytes start bytes).report start stop) (m.putBytes start bytes)
  | observe (tag : String) : Change m [] (m.observe tag)
  | nothing : Change m [] m

theorem report_isMemory (m : Memory) (start stop : Nat) :
    ∀ e ∈ m.report start stop, ¬ e.isRegister := by
  intro e he
  rw [report] at he
  split at he
  · rw [List.mem_singleton.mp he]
    exact Bool.false_ne_true
  · cases he

theorem Change.isMemory {events : List Event} (h : Change m events n) :
    ∀ e ∈ events, ¬ e.isRegister := by
  cases h with
  | put hle hcapacity hfits => exact report_isMemory _ _ _
  | observe tag | nothing => exact fun _ h => nomatch h

theorem Change.word {a : Nat} {bytes : List UInt8} (ha : a < m.capacity)
    (hbytes : bytes.length = m.kind.byteWidth) :
    Change m ((m.putBytes a bytes).report a a) (m.putBytes a bytes) := by
  refine .put (Nat.le_refl a) (Nat.le_of_lt ha) ?_
  have hreach : a + 1 ≤ m.reach a a := by
    rw [reach]
    omega
  rw [hbytes, ← Nat.succ_mul]
  exact Nat.mul_le_mul_right _ hreach

theorem Change.stretch {start stop : Nat} {bytes : List UInt8} (hle : start ≤ stop)
    (hstop : stop ≤ m.capacity) (hbytes : bytes.length ≤ (stop - start) * m.kind.byteWidth) :
    Change m ((m.putBytes start bytes).report start stop) (m.putBytes start bytes) := by
  refine .put hle hstop ?_
  have hreach : stop ≤ m.reach start stop := by
    rw [reach]
    omega
  calc start * m.kind.byteWidth + bytes.length
      ≤ start * m.kind.byteWidth + (stop - start) * m.kind.byteWidth := Nat.add_le_add_left hbytes _
    _ = stop * m.kind.byteWidth := by rw [← Nat.add_mul, Nat.add_sub_cancel' hle]
    _ ≤ m.reach start stop * m.kind.byteWidth := Nat.mul_le_mul_right _ hreach

theorem afterBytes_fits (start length : Nat) {width : Nat} (hwidth : 0 < width) :
    start ≤ Address.afterBytes start length width ∧
      length ≤ (Address.afterBytes start length width - start) * width := by
  have hdiv := Nat.div_add_mod (length + width - 1) width
  have hmod := Nat.mod_lt (length + width - 1) hwidth
  rw [Address.afterBytes, Nat.add_sub_cancel_left, Nat.mul_comm]
  exact ⟨Nat.le_add_right _ _, by omega⟩

theorem bytes_lie_in (hm : m.WellFormed) (start : Nat) (bytes : List UInt8)
    (hstop : Address.afterBytes start bytes.length m.kind.byteWidth ≤ m.capacity) :
    start * m.kind.byteWidth + bytes.length ≤ m.bytes.size := by
  obtain ⟨hle, hfits⟩ := afterBytes_fits start bytes.length m.kind.byteWidth_pos
  generalize Address.afterBytes start bytes.length m.kind.byteWidth = stop at *
  calc start * m.kind.byteWidth + bytes.length
      ≤ start * m.kind.byteWidth + (stop - start) * m.kind.byteWidth := Nat.add_le_add_left hfits _
    _ = stop * m.kind.byteWidth := by rw [← Nat.add_mul, Nat.add_sub_cancel' hle]
    _ ≤ m.bytes.size := Nat.le_trans (Nat.mul_le_mul_right _ hstop) (Nat.le_of_eq hm.symm)

theorem load_change {start : Nat} {bytes : List UInt8} {u : Update Memory Nat}
    (h : m.load start bytes = .ok u) : m.Change u.events u.store := by
  simp only [load] at h
  split at h <;> cases h
  rename_i hstop
  obtain ⟨hle, hfits⟩ := afterBytes_fits start bytes.length m.kind.byteWidth_pos
  exact .stretch hle hstop hfits

theorem fill_change {start stop : Nat} {w : Word} {u : Update Memory Unit}
    (h : m.fill start stop w = .ok u) : m.Change u.events u.store := by
  simp only [fill] at h
  split at h
  · cases h
    exact .nothing
  · split at h <;> cases h
    rename_i hlt hstop
    refine .stretch (by omega) (by omega) (Nat.le_of_eq ?_)
    rw [Kind.length_encodeWords, List.length_replicate]

end Memory

theorem MemoryCall.apply_change {m : Memory} {call : MemoryCall} {u : Update Memory Answer}
    (hcall : call ≠ .clear) (h : call.apply m = .ok u) : m.Change u.events u.store := by
  cases call with
  | write a w =>
    obtain ⟨v, hv, rfl⟩ := Check.map_eq_ok.mp h
    obtain ⟨b, hb, rfl⟩ := Check.map_eq_ok.mp hv
    obtain ⟨rfl, ha⟩ := Address.check_eq_ok.mp hb
    exact .word ha (m.kind.length_encode w)
  | writeRaw a bytes =>
    obtain ⟨v, hv, rfl⟩ := Check.map_eq_ok.mp h
    rw [Memory.writeRaw] at hv
    split at hv
    · cases hv
    · rename_i hbytes
      simp only [Check.bind_eq_ok, Check.pure_eq_ok] at hv
      obtain ⟨b, hb, w, -, rfl⟩ := hv
      obtain ⟨rfl, ha⟩ := Address.check_eq_ok.mp hb
      exact .word ha (Decidable.not_not.mp hbytes)
  | load start bytes =>
    obtain ⟨v, hv, rfl⟩ := Check.map_eq_ok.mp h
    exact Memory.load_change hv
  | loadWords start ws =>
    obtain ⟨v, hv, rfl⟩ := Check.map_eq_ok.mp h
    exact Memory.load_change hv
  | fill start stop w =>
    obtain ⟨v, hv, rfl⟩ := Check.map_eq_ok.mp h
    exact Memory.fill_change hv
  | clear => exact absurd rfl hcall
  | observe tag =>
    cases h
    exact .observe tag

theorem MemoryCall.events_isMemory {m : Memory} {call : MemoryCall} {u : Update Memory Answer}
    (h : call.apply m = .ok u) : ∀ e ∈ u.events, ¬ e.isRegister := by
  by_cases hcall : call = .clear
  · subst hcall
    cases h
    exact fun _ h => nomatch h
  · exact (apply_change hcall h).isMemory

/-- An event and the store as it was when the event was told. -/
structure Notice (σ : Type) where
  event : Event
  view : σ

/-- Changes take a store from one state to another; a change tells its events once it is done. -/
inductive Told {σ : Type} (Change : σ → List Event → σ → Prop) : σ → List (Notice σ) → σ → Prop where
  | nil (s : σ) : Told Change s [] s
  | cons {s t u : σ} {events : List Event} {notices : List (Notice σ)} :
    Change s events t → Told Change t notices u →
    Told Change s (events.map (Notice.mk · t) ++ notices) u

namespace Told

variable {σ : Type} {Change : σ → List Event → σ → Prop} {s t u : σ}

theorem once {events : List Event} (h : Change s events t) :
    Told Change s (events.map (Notice.mk · t)) t := by
  have honce := Told.cons h (.nil t)
  rwa [List.append_nil] at honce

theorem trans {first second : List (Notice σ)} (h : Told Change s first t)
    (h' : Told Change t second u) : Told Change s (first ++ second) u := by
  induction h with
  | nil s => exact h'
  | cons hchange _ ih =>
    rw [List.append_assoc]
    exact .cons hchange (ih h')

end Told

theorem Notice.event_map {σ : Type} (events : List Event) (view : σ) :
    (events.map (Notice.mk · view)).map Notice.event = events := by
  rw [List.map_map]
  exact List.map_id events

theorem Told.all {σ : Type} {Change : σ → List Event → σ → Prop} {P : Event → Prop}
    (hchange : ∀ {s t events}, Change s events t → ∀ e ∈ events, P e) {s t : σ}
    {notices : List (Notice σ)} (h : Told Change s notices t) :
    ∀ e ∈ notices.map Notice.event, P e := by
  induction h with
  | nil s => exact fun _ h => nomatch h
  | cons hfirst _ ih =>
    intro e he
    rw [List.map_append, Notice.event_map] at he
    rcases List.mem_append.mp he with he | he
    · exact hchange hfirst e he
    · exact ih e he

section

variable {σ κ : Type} (serve : σ → κ → Except Fault Answer × σ × List Event)

def session : σ → List κ → σ × List Event
  | s, [] => (s, [])
  | s, call :: calls =>
    let (next, events) := (serve s call).2
    let (last, more) := session next calls
    (last, events ++ more)

theorem session_told {Change : σ → List Event → σ → Prop} {Kept : σ → Prop} {Allowed : κ → Prop}
    (hserve : ∀ s call, Kept s → Allowed call → Kept (serve s call).2.1 ∧
      ∃ notices, Told Change s notices (serve s call).2.1 ∧
        notices.map Notice.event = (serve s call).2.2)
    {s : σ} (hs : Kept s) (calls : List κ) (hcalls : ∀ call ∈ calls, Allowed call) :
    ∃ notices, Told Change s notices (session serve s calls).1 ∧
      notices.map Notice.event = (session serve s calls).2 := by
  induction calls generalizing s with
  | nil => exact ⟨[], .nil s, rfl⟩
  | cons call calls ih =>
    obtain ⟨hnext, first, hfirst, hevents⟩ := hserve s call hs (hcalls call (by simp))
    obtain ⟨rest, hrest, hmore⟩ := ih hnext fun c hc => hcalls c (by simp [hc])
    refine ⟨first ++ rest, hfirst.trans hrest, ?_⟩
    rw [List.map_append, hevents, hmore]
    rfl

end

structure Observed (σ : Type) where
  part : Core → σ
  Change : σ → List Event → σ → Prop
  owns : Event → Bool

namespace Core

variable {σ : Type} {o : Observed σ} {c d e : Core}

/-- The log has grown by events of which those of the store tell all its changes. -/
def Tells (o : Observed σ) (c d : Core) : Prop :=
  ∃ (events : List Event) (notices : List (Notice σ)),
    d.log.toList = c.log.toList ++ events ∧
    Told o.Change (o.part c) notices (o.part d) ∧
    notices.map Notice.event = events.filter o.owns

namespace Tells

theorem of_told {events : List Event} {notices : List (Notice σ)}
    (hlog : d.log = c.log ++ events) (htold : Told o.Change (o.part c) notices (o.part d))
    (hevents : notices.map Notice.event = events) (howns : ∀ e ∈ events, o.owns e) :
    Tells o c d := by
  refine ⟨events, notices, by rw [hlog, Array.toList_appendList], htold, ?_⟩
  rw [hevents, List.filter_eq_self.mpr howns]

theorem of_others {events : List Event} (hlog : d.log = c.log ++ events)
    (hpart : o.part d = o.part c) (hothers : ∀ e ∈ events, ¬ o.owns e) : Tells o c d := by
  refine ⟨events, [], by rw [hlog, Array.toList_appendList], hpart ▸ .nil _, ?_⟩
  rw [List.filter_eq_nil_iff.mpr hothers]
  rfl

theorem of_same (hlog : d.log = c.log) (hpart : o.part d = o.part c) : Tells o c d :=
  ⟨[], [], by rw [hlog, List.append_nil], hpart ▸ .nil _, rfl⟩

theorem refl (c : Core) : Tells o c c := of_same rfl rfl

theorem trans (h : Tells o c d) (h' : Tells o d e) : Tells o c e := by
  obtain ⟨first, told, hfirst, htold, howns⟩ := h
  obtain ⟨second, told', hsecond, htold', howns'⟩ := h'
  refine ⟨first ++ second, told ++ told', ?_, htold.trans htold', ?_⟩
  · rw [hsecond, hfirst, List.append_assoc]
  · rw [List.map_append, List.filter_append, howns, howns']

theorem chains : Chains (Tells o) := ⟨refl, trans⟩

end Tells

end Core

end WordMachine
