import WordMachine.Fault

/-!
# Work in sequence

When a sequence of computations succeeds and when it fails, told from its parts: for checks, which
have no state, and for actions and steps, which keep what they changed before a fault.
-/

set_option autoImplicit false

namespace WordMachine

namespace Check

variable {α β : Type}

instance decidableEq [DecidableEq α] [DecidableEq β] : DecidableEq (Except α β)
  | .ok a, .ok b => decidable_of_iff (a = b) (by simp)
  | .error a, .error b => decidable_of_iff (a = b) (by simp)
  | .ok _, .error _ | .error _, .ok _ => isFalse (by simp)

theorem bind_eq_ok {x : Except Fault α} {f : α → Except Fault β} {b : β} :
    x >>= f = .ok b ↔ ∃ a, x = .ok a ∧ f a = .ok b := by
  cases x <;> simp [bind, Except.bind]

theorem bind_eq_error {x : Except Fault α} {f : α → Except Fault β} {fault : Fault} :
    x >>= f = .error fault ↔ x = .error fault ∨ ∃ a, x = .ok a ∧ f a = .error fault := by
  cases x <;> simp [bind, Except.bind]

theorem pure_eq_ok {a b : α} : (pure a : Except Fault α) = .ok b ↔ a = b := by
  simp [pure, Except.pure]

theorem map_eq_ok {ε : Type} {x : Except ε α} {f : α → β} {b : β} :
    x.map f = .ok b ↔ ∃ a, x = .ok a ∧ f a = b := by
  cases x <;> simp [Except.map]

theorem map_eq_error {ε : Type} {x : Except ε α} {f : α → β} {fault : ε} :
    x.map f = .error fault ↔ x = .error fault := by
  cases x <;> simp [Except.map]

end Check

namespace Work

variable {σ α β : Type} {s s' : σ}

theorem bind_eq_ok {x : EStateM Fault σ α} {f : α → EStateM Fault σ β} {b : β} :
    (x >>= f) s = .ok b s' ↔ ∃ a t, x s = .ok a t ∧ f a t = .ok b s' := by
  show EStateM.bind x f s = _ ↔ _
  rw [EStateM.bind]
  cases x s <;> simp [and_assoc]

theorem bind_eq_error {x : EStateM Fault σ α} {f : α → EStateM Fault σ β} {fault : Fault} :
    (x >>= f) s = .error fault s' ↔
      x s = .error fault s' ∨ ∃ a t, x s = .ok a t ∧ f a t = .error fault s' := by
  show EStateM.bind x f s = _ ↔ _
  rw [EStateM.bind]
  cases x s <;> simp [and_assoc]

theorem pure_eq_ok {a b : α} :
    (pure a : EStateM Fault σ α) s = .ok b s' ↔ a = b ∧ s = s' := by
  simp [pure, EStateM.pure]

theorem pure_ne_error {a : α} {fault : Fault} :
    (pure a : EStateM Fault σ α) s ≠ .error fault s' := by
  simp [pure, EStateM.pure]

def final : EStateM.Result Fault σ α → σ
  | .ok _ s => s
  | .error _ s => s

def answer : EStateM.Result Fault σ α → Except Fault α
  | .ok a _ => .ok a
  | .error fault _ => .error fault

theorem answer_eq_ok {r : EStateM.Result Fault σ α} {a : α} :
    answer r = .ok a ↔ ∃ s, r = .ok a s := by
  cases r <;> simp [answer]

theorem answer_eq_error {r : EStateM.Result Fault σ α} {fault : Fault} :
    answer r = .error fault ↔ ∃ s, r = .error fault s := by
  cases r <;> simp [answer]

end Work

end WordMachine
