import WordMachine.Proofs.Calls

/-!
# Nested calls

As long as every call pushes below the words of those around it, and what is done in between leaves
these words alone, each call is returned from in its turn, with the stack as it was before.
-/

set_option autoImplicit false

namespace WordMachine.Processor

variable {p q : Processor} {f : Frame}

/-- A session from a processor on, with the calls that are not yet returned from, the last one
first. A call pushes its arguments below the words of the calls around it, only the last call is
returned from, and whatever else is done leaves the words of all of them alone. -/
inductive Nests (p : Processor) : List Frame → Processor → Prop where
  | start : Nests p [] p
  | work {frames : List Frame} {q : Processor} (session : List HostCall) (h : Nests p frames q)
    (hkeeps : ∀ f ∈ frames, q.core.Keeps (q.after session).core f) : Nests p frames (q.after session)
  | call {frames : List Frame} {q : Processor} {f : Frame} (h : Nests p frames q) (hcall : q.Calls f)
    (hbelow : ∀ g ∈ frames, f.base < g.place) : Nests p (f :: frames) q.cycle.2
  | ret {frames : List Frame} {q : Processor} {f : Frame} (h : Nests p (f :: frames) q)
    (hreturn : q.Returns f) : Nests p frames q.cycle.2

theorem Nests.linked (hp : p.Sound .extended) {frames : List Frame} (h : p.Nests frames q) :
    q.Sound .extended ∧ ∀ f ∈ frames, q.core.Linked f := by
  induction h with
  | start => exact ⟨hp, fun f hf => nomatch hf⟩
  | @work frames q session h hkeeps ih =>
    obtain ⟨hq, hlinked⟩ := ih
    exact ⟨after_sound hq session, fun f hf =>
      (hlinked f hf).keeps (after_shape hq.variant session) (hkeeps f hf)⟩
  | @call frames q f h hcall hbelow ih =>
    obtain ⟨hq, hlinked⟩ := ih
    obtain ⟨-, -, hf, hmemory⟩ := hcall.called hq
    refine ⟨serve_sound hq .cycle, fun g hg => ?_⟩
    rcases List.mem_cons.mp hg with rfl | hg
    · exact hf
    · have hlt := hbelow g hg
      rw [Frame.base] at hlt
      exact (hlinked g hg).keeps (serve_shape hq.variant .cycle).2
        ⟨hmemory _ (by omega), hmemory _ (by omega)⟩
  | @ret frames q f h hreturn ih =>
    obtain ⟨hq, hlinked⟩ := ih
    obtain ⟨-, hreturned⟩ := hreturn.returned hq (hlinked f List.mem_cons_self)
    refine ⟨serve_sound hq .cycle, fun g hg => ?_⟩
    exact (hlinked g (List.mem_cons_of_mem f hg)).keeps (serve_shape hq.variant .cycle).2
      ⟨by rw [hreturned.memory], by rw [hreturned.memory]⟩

/-- A call goes on at its target and leaves on the stack where the instruction pointer was behind its
words, which is the address after the call if the kind counts up to there exactly. When a return
finds the two words of the call, it goes on there, with the stack as it was before the arguments were
pushed. Calls that nest are returned from in the reverse order, each in this way. -/
theorem calls_return (hp : p.Reachable .extended) :
    (∀ room ws back, p.core.HasRoom room → p.core.StackAt room → ws.length + 1 < room →
      (p.core.afterStack ((ws ++ [Word.ofNat ws.length]).map .push)).Pushed
        ⟨room - (ws.length + 1), ws.length, back⟩) ∧
    (∀ f, p.Calls f →
      let q := p.cycle.2
      (∃ target, p.core.CallsTo target ∧ q.core.registers.ip = target) ∧
      q.core.StackAt (f.place - 1) ∧
      q.core.memory.read (f.place - 1) = .ok f.back ∧
      (∀ k : Nat, p.core.registers.ip.integer? = some (k : Int) → p.core.kind.Exact (k + 1) →
        p.core.kind.Exact (k + 2) → f.back = Word.ofNat (k + 2)) ∧
      ∀ session, q.core.Keeps (q.after session).core f → (q.after session).Returns f →
        (q.after session).cycle.1.result = .ok true ∧
        (q.after session).core.Returned (q.after session).cycle.2.core f) ∧
    ∀ f frames q, p.Nests (f :: frames) q → q.Returns f →
      q.cycle.1.result = .ok true ∧ q.core.Returned q.cycle.2.core f := by
  have hs := hp.sound
  refine ⟨fun room ws back hroom hempty hlt => Core.pushed_of_pushes hroom hempty ws hlt back,
    fun f hcall => ?_, fun f frames q hnests hreturn => ?_⟩
  · obtain ⟨htarget, hstack, hlinked, -⟩ := hcall.called hs
    have hq : p.cycle.2.Sound .extended := serve_sound hs .cycle
    refine ⟨htarget, hstack, hlinked.link, fun k hip hnext hafter => ?_, fun session hkeeps hreturn => ?_⟩
    · rw [← hcall.back, Core.pointer_two hip hnext hafter]
    · exact hreturn.returned (after_sound hq session)
        (hlinked.keeps (after_shape hq.variant session) hkeeps)
  · obtain ⟨hq, hlinked⟩ := hnests.linked hs
    exact hreturn.returned hq (hlinked f List.mem_cons_self)

def callingSession : List HostCall :=
  [.memory (.loadWords 0 ([0x60, 5, 0x60, 1, 0x63, 10].map Word.ofNat)),
    .memory (.loadWords 10 ([0x60, 0, 0x63, 20, 0x65].map Word.ofNat)),
    .memory (.loadWords 20 [Word.ofNat 0x65]), .cycle, .cycle]

theorem nested_calls_return :
    ∃ new, create (.ofModel .extended) ⟨some .uint8, 40, some []⟩ = .ok new ∧
      let outer : Frame := ⟨38, 1, Word.ofNat 6⟩
      let inner : Frame := ⟨36, 0, Word.ofNat 14⟩
      let p := new.after callingSession
      let q := (p.cycle.2.after [.cycle]).cycle.2
      p.Calls outer ∧ p.Nests [inner, outer] q ∧ q.Returns inner ∧ q.cycle.2.Returns outer ∧
        q.cycle.2.core.registers.ip = Word.ofNat 14 ∧ q.cycle.2.core.StackAt 37 ∧
        q.cycle.2.cycle.2.core.registers.ip = Word.ofNat 6 ∧ q.cycle.2.cycle.2.core.StackAt 40 := by
  have hruns : (create (.ofModel .extended) ⟨some .uint8, 40, some []⟩).map (fun new =>
      let p := new.after callingSession
      let d := p.cycle.2.after [.cycle]
      let q := d.cycle.2
      decide ((p.core.kind = .uint8 ∧ p.core.memory.capacity = 40) ∧
        (p.core.StackAt 38 ∧ p.core.CountsAt 38 1 ∧ p.core.pointer 2 = Word.ofNat 6 ∧
          p.core.mnemonic? = some "CALL" ∧ p.cycle.1.result = .ok true) ∧
        (p.cycle.2.core.Keeps d.core ⟨38, 1, Word.ofNat 6⟩ ∧ d.core.StackAt 36 ∧ d.core.CountsAt 36 0 ∧
          d.core.pointer 2 = Word.ofNat 14 ∧ d.core.mnemonic? = some "CALL" ∧
          d.cycle.1.result = .ok true) ∧
        (q.core.StackAt 35 ∧ q.core.mnemonic? = some "RET") ∧
        q.cycle.2.core.StackAt 37 ∧ q.cycle.2.core.mnemonic? = some "RET")) = .ok true := by
    decide +kernel
  have hruns := Check.map_eq_ok.mp hruns
  obtain ⟨new, hnew, hruns⟩ := hruns
  have hruns := of_decide_eq_true hruns
  obtain ⟨⟨hkind, hcapacity⟩, ⟨hsp, hcount, hback, hcall, hresult⟩, ⟨hkeeps, hsp₁, hcount₁, hback₁, hcall₁,
    hresult₁⟩, ⟨hsp₂, hret₂⟩, hsp₃, hret₃⟩ := hruns
  let outer : Frame := ⟨38, 1, Word.ofNat 6⟩
  let inner : Frame := ⟨36, 0, Word.ofNat 14⟩
  let p := new.after callingSession
  let d := p.cycle.2.after [.cycle]
  let q := d.cycle.2
  have hp : p.Reachable .extended := ⟨_, new, callingSession, hnew, rfl⟩
  have hsmall : ∀ n ≤ 40, Kind.uint8.Exact n := by decide +kernel
  have hroom : ∀ n ≤ 40, p.core.HasRoom n := fun n hn =>
    ⟨hp.sound.core, hp.sound.kinds, hcapacity ▸ hn, by rw [hcapacity]; decide,
      fun m hm => hkind ▸ hsmall m (Nat.le_trans hm hn)⟩
  have hcycled : p.cycle.2.Sound .extended := serve_sound hp.sound .cycle
  have hshape : d.core.shape = p.core.shape :=
    (after_shape hcycled.variant [.cycle]).trans (serve_shape hp.sound.variant .cycle).2
  have houter : p.Calls outer :=
    ⟨⟨hroom 40 (by decide), by decide, hsp, hcount⟩, hback, hcall, true, hresult⟩
  have hinner : d.Calls inner :=
    ⟨⟨(hroom 37 (by decide)).of_shape hshape, by decide, hsp₁, hcount₁⟩, hback₁, hcall₁, true,
      hresult₁⟩
  have hcalled : p.Nests [outer] p.cycle.2 := .call .start houter (fun g hg => nomatch hg)
  have hworked : p.Nests [outer] d :=
    hcalled.work [.cycle] (fun f hf => by rw [List.mem_singleton.mp hf]; exact hkeeps)
  have hnested : p.Nests [inner, outer] q :=
    hworked.call hinner (fun g hg => by rw [List.mem_singleton.mp hg]; decide)
  have hfirst : q.Returns inner := ⟨hsp₂, hret₂⟩
  have hsecond : q.cycle.2.Returns outer := ⟨hsp₃, hret₃⟩
  obtain ⟨-, hreturned⟩ := (calls_return hp).2.2 inner [outer] q hnested hfirst
  obtain ⟨-, hreturned₁⟩ := (calls_return hp).2.2 outer [] q.cycle.2 (hnested.ret hfirst) hsecond
  exact ⟨new, hnew, houter, hnested, hfirst, hsecond, hreturned.pointer, hreturned.stack,
    hreturned₁.pointer, hreturned₁.stack⟩

def farSession : List HostCall :=
  [.registers (.write (.name Core.stackPointer) (Word.ofNat 9)),
    .registers (.setIp (Word.ofNat (2 ^ 24 - 2))),
    .memory (.loadWords (2 ^ 24 - 2) ([0x60, 0, 0x63, 0x63].map Word.ofNat)), .cycle]

/-- Where the kind stores the address after a call but not the one before it, the call leaves its own
address to go back to. -/
theorem inexact_call_goes_back_to_itself :
    ∃ new, create (.ofModel .extended) ⟨some .float32, 2 ^ 24 + 2, some []⟩ = .ok new ∧
      let k := 2 ^ 24
      let p := new.after farSession
      p.core.Pushed ⟨8, 0, Word.ofNat (k + 2)⟩ ∧ p.core.registers.ip = Word.ofNat k ∧
        p.core.memory.addressOf (Word.ofNat k) = .ok k ∧ k + 1 < p.core.memory.capacity ∧
        p.core.kind.Exact (k + 2) ∧ p.core.mnemonic? = some "CALL" ∧
        (∃ continues, p.cycle.1.result = .ok continues) ∧
        p.cycle.2.core.memory.read 7 = .ok (Word.ofNat k) ∧ Word.ofNat k ≠ Word.ofNat (k + 2) := by
  have hruns : (create (.ofModel .extended) ⟨some .float32, 2 ^ 24 + 2, some []⟩).map (fun new =>
      let c := (new.after (farSession.take 2)).core
      decide (new.core.kind = .float32 ∧ new.core.memory.capacity = 2 ^ 24 + 2 ∧
        c.registers.ip = Word.ofNat (2 ^ 24 - 2) ∧ c.StackAt 9)) = .ok true := by decide +kernel
  have hruns := Check.map_eq_ok.mp hruns
  obtain ⟨new, hnew, hruns⟩ := hruns
  obtain ⟨hkind, hcapacity, hip, hempty⟩ := of_decide_eq_true hruns
  have hnewSound := create_sound hnew
  have hkinds : ∀ calls, (new.after calls).core.kind = .float32 := fun calls =>
    (Core.kind_of_shape (after_shape hnewSound.variant calls)).trans hkind
  have hcapacities : ∀ calls, (new.after calls).core.memory.capacity = 2 ^ 24 + 2 := fun calls =>
    (congrArg (·.2.capacity) (after_shape hnewSound.variant calls)).trans hcapacity
  let p := new.after (farSession.take 2)
  let q := new.after (farSession.take 3)
  let program := [0x60, 0, 0x63, 0x63].map Word.ofNat
  have hp : p.Sound .extended := after_sound hnewSound _
  have hq : q.Sound .extended := after_sound hnewSound _
  have hfit : 2 ^ 24 - 2 + program.length ≤ p.core.memory.capacity := by
    rw [hcapacities]
    decide
  have hstored : program.map p.core.kind.coerce = program := by
    rw [hkinds]
    decide +kernel
  obtain ⟨hregisters, hprogram⟩ := serve_loadWords hp hfit hstored
  have hshape : q.core.shape = p.core.shape := (serve_shape hp.variant _).2
  have hempty' : q.core.StackAt 9 := hempty.of_cell hshape fun i _ =>
    congrArg (Registers.cell · i) hregisters
  have hsmall : ∀ n ≤ 9, Kind.float32.Exact n := by decide +kernel
  have hroom : q.core.HasRoom 9 :=
    ⟨hq.core, hq.kinds, by rw [hcapacities]; decide, by rw [hcapacities]; decide, by rwa [hkinds]⟩
  have hlarge : ∀ n, 2 ^ 24 - 2 ≤ n → n ≤ 2 ^ 24 - 2 + 2 → Kind.float32.Exact n := by
    intro n hlow hhigh
    obtain rfl | rfl | rfl : n = 2 ^ 24 - 2 ∨ n = 2 ^ 24 - 1 ∨ n = 2 ^ 24 := by omega
    all_goals decide +kernel
  obtain ⟨hpushed, hip', hcall, -⟩ := pushed_after_push hq hroom hempty' (by decide)
    ((congrArg Registers.ip hregisters).trans hip) (by rwa [hkinds]) hprogram (by decide)
    (by rw [hcapacities]; decide)
  let k := 2 ^ 24
  let r := new.after farSession
  have hr : r.Sound .extended := after_sound hnewSound _
  have hstays : Kind.float32.coerce ((Word.ofNat k).add (Word.ofNat 1)) = Word.ofNat k := by
    decide +kernel
  have hvalid : k + 1 < r.core.memory.capacity := by
    rw [hcapacities]
    decide
  have haddress : r.core.memory.addressOf (Word.ofNat k) = .ok k :=
    Address.ofWord_of_integer? (by decide +kernel) (by decide +kernel) (Nat.lt_of_succ_lt hvalid)
      (by rw [hcapacities]; decide)
  have hcalls : r.Calls ⟨8, 0, Word.ofNat k⟩ :=
    calls_in_place hr (hpushed _) rfl hip' (by rwa [hkinds]) haddress hcall
  obtain ⟨-, -, hlinked, -⟩ := hcalls.called hr
  have hexact : Kind.float32.Exact (k + 2) := by decide +kernel
  exact ⟨new, hnew, hpushed _, hip', haddress, hvalid, by rwa [hkinds], hcalls.call,
    hcalls.succeeds, hlinked.link, by decide +kernel⟩

end WordMachine.Processor
