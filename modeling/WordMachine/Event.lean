import WordMachine.Bank

/-!
# Events

What observers are told of writes. An observer is known by the tag its host gave it; a component
without one reports nothing.
-/

set_option autoImplicit false

namespace WordMachine

/-- A register event tells the stored word and the instruction pointer after the write. A memory
event tells a stretch of addresses and the bytes found there: those of the one word at `start` when
`start = stop`, of the words from `start` up to `stop` otherwise. -/
inductive Event where
  | register (tag : String) (index : Nat) (stored ip : Word)
  | memory (tag : String) (start stop : Nat) (span : Array UInt8)
  deriving DecidableEq, Repr

def leadingWord? (kind : Kind) (span : Array UInt8) : Option Word :=
  match kind.decode (span.toList.take kind.byteWidth) with
  | .ok w => some w
  | .error _ => none

/-- What a write leaves: its answer, the changed store, and what was reported. -/
structure Update (σ α : Type) where
  answer : α
  store : σ
  events : List Event

def Update.map {σ α β : Type} (f : α → β) (u : Update σ α) : Update σ β :=
  ⟨f u.answer, u.store, u.events⟩

end WordMachine
