import WordMachine.Processor.Run
import WordMachine.Proofs.Execution

/-!
# What builds up along execution

A relation between cores that holds where nothing is done and where one thing is done after another
holds of every cycle and of every run, if it holds of a fetch and of the body of each operation. It
does not matter where a cycle fails.
-/

set_option autoImplicit false

namespace WordMachine

namespace Core

variable {α β : Type} {R : Core → Core → Prop}

structure Chains (R : Core → Core → Prop) : Prop where
  refl : ∀ c, R c c
  trans : ∀ {c d e}, R c d → R d e → R c e

/-- The action ends in a core that the one before is related to, also when it fails. -/
def Leads (R : Core → Core → Prop) (action : Action α) : Prop := ∀ c, R c (Work.final (action c))

namespace Leads

variable (hR : Chains R)
include hR

theorem pure (a : α) : Leads R (pure a) := hR.refl

theorem perform {effect : Core → Except Fault (Effect α)}
    (h : ∀ c e, effect c = .ok e → R c (c.storeAll e.writes)) : Leads R (perform effect) := by
  intro c
  rw [Core.perform]
  cases he : effect c with
  | ok e => exact h c e he
  | error fault => exact hR.refl c

theorem bind {action : Action α} {next : α → Action β} (ha : Leads R action)
    (hn : ∀ a, Leads R (next a)) : Leads R (action >>= next) := by
  intro c
  have hc := ha c
  show R c (Work.final (EStateM.bind action next c))
  rw [EStateM.bind]
  cases h : action c with
  | ok a d =>
    rw [h] at hc
    exact hR.trans hc (hn a d)
  | error fault d =>
    rw [h] at hc
    exact hc

theorem fetchMany (hfetch : Leads R fetch) (n : Nat) : Leads R (fetchMany n) := by
  induction n with
  | zero => exact pure hR []
  | succ n ih =>
    exact bind hR hfetch fun w => bind hR ih fun ws => pure hR (w :: ws)

end Leads

end Core

section

variable {R : Core → Core → Prop} (hR : Core.Chains R) (hfetch : Core.Leads R Core.fetch)
  (hbody : ∀ (op : Operation) (ws : List Word), Core.Leads R (op.body ws))
include hR hfetch hbody

theorem Context.execute_leads (set : InstructionSet) (switches : Switches) (opcode : Word)
    (x : Context) : R x.core (Work.final (execute set switches opcode x)).core := by
  have hop (op : Operation) :
      Core.Leads R (Core.fetchMany op.arguments.length >>= fun ws => op.body ws) :=
    .bind hR (.fetchMany hR hfetch _) (hbody op)
  cases h : execute set switches opcode x with
  | ok continues x' =>
    obtain ⟨row, -, ws, fetched, text, hws, hdone, -⟩ := execute_ok h
    have hleads := hop row.operation x.core
    rw [Work.bind_eq_ok.mpr ⟨ws, fetched, hws, hdone⟩] at hleads
    exact hleads
  | error fault x' =>
    rcases execute_error h with ⟨-, -, rfl⟩ | ⟨row, -, hcases⟩
    · exact hR.refl x.core
    have hleads := hop row.operation x.core
    rw [Work.bind_eq_error.mpr (hcases.imp And.left
      fun ⟨ws, fetched, hws, hfail, _⟩ => ⟨ws, fetched, hws, hfail⟩)] at hleads
    exact hleads

end

namespace Processor

variable {model : Model} {p : Processor}

theorem cycle_variant (p : Processor) : p.cycle.2.variant = p.variant := by
  cases hf : Core.fetch p.core with
  | error cause c =>
    rw [cycle_unfetched hf]
    rfl
  | ok opcode c =>
    cases hx : p.variant.execute p.switches opcode ⟨c, p.opened opcode⟩ with
    | error cause x =>
      rw [cycle_fails hf hx]
      rfl
    | ok continues x => rw [cycle_succeeds hf hx]

theorem runFrom_variant (cycles : Nat) (last : Record) (trace : Array TraceEvent) (limit : Nat) :
    (p.runFrom cycles last trace limit).after.variant = p.variant := by
  induction limit generalizing p cycles last trace with
  | zero => rfl
  | succ limit ih =>
    cases h : p.cycle.1.result with
    | error fault =>
      rw [runFrom_fault cycles last trace limit h]
      exact p.cycle_variant
    | ok continues =>
      cases continues with
      | false =>
        rw [runFrom_stop cycles last trace limit h]
        exact p.cycle_variant
      | true =>
        rw [runFrom_continue cycles last trace limit h]
        exact (ih _ _ _).trans p.cycle_variant

section

variable {R : Core → Core → Prop} (hR : Core.Chains R) (hfetch : Core.Leads R Core.fetch)
  (hbody : ∀ (op : Operation) (ws : List Word), Core.Leads R (op.body ws))
include hR hfetch hbody

theorem cycle_leads (hp : p.variant = Variant.ofModel model) : R p.core p.cycle.2.core := by
  have hopcode := hfetch p.core
  cases hf : Core.fetch p.core with
  | error cause c =>
    rw [hf] at hopcode
    rw [cycle_unfetched hf]
    exact hopcode
  | ok opcode c =>
    rw [hf] at hopcode
    have hexecute := Context.execute_leads hR hfetch hbody model.instructions p.switches opcode
      ⟨c, p.opened opcode⟩
    rw [← model.execute_ofModel, ← hp] at hexecute
    cases hx : p.variant.execute p.switches opcode ⟨c, p.opened opcode⟩ with
    | error cause x =>
      rw [hx] at hexecute
      rw [cycle_fails hf hx]
      exact hR.trans hopcode hexecute
    | ok continues x =>
      rw [hx] at hexecute
      rw [cycle_succeeds hf hx]
      exact hR.trans hopcode hexecute

theorem runFrom_leads (hp : p.variant = Variant.ofModel model) (cycles : Nat) (last : Record)
    (trace : Array TraceEvent) (limit : Nat) :
    R p.core (p.runFrom cycles last trace limit).after.core := by
  induction limit generalizing p cycles last trace with
  | zero => exact hR.refl p.core
  | succ limit ih =>
    have hcycle := cycle_leads hR hfetch hbody hp
    cases h : p.cycle.1.result with
    | error fault =>
      rw [runFrom_fault cycles last trace limit h]
      exact hcycle
    | ok continues =>
      cases continues with
      | false =>
        rw [runFrom_stop cycles last trace limit h]
        exact hcycle
      | true =>
        rw [runFrom_continue cycles last trace limit h]
        exact hR.trans hcycle (ih (p.cycle_variant.trans hp) _ _ _)

end

end Processor

end WordMachine
