import WordMachine.Event

/-!
# Registers

A fixed list of named words. A register is picked by its name or by any word between its index and
the next; a write stores the coerced word and answers it.
-/

set_option autoImplicit false

namespace WordMachine

def instructionPointer : String := "ip"

structure Registers where
  names : List String
  bank : Bank
  ipIndex : Nat
  observer : Option String
  deriving DecidableEq, Repr

namespace Registers

def firstRepeat (before : List String) : List String → Option String
  | [] => none
  | n :: ns => if n ∈ before then some n else firstRepeat (n :: before) ns

theorem firstRepeat_eq_none (before names : List String) :
    firstRepeat before names = none ↔ names.Nodup ∧ ∀ n ∈ names, n ∉ before := by
  induction names generalizing before with
  | nil => simp [firstRepeat]
  | cons n ns ih =>
    by_cases h : n ∈ before
    · simp [firstRepeat, h]
    · simp only [firstRepeat, h, if_false, ih, List.mem_cons, not_or, List.nodup_cons]
      constructor
      · rintro ⟨hd, hn⟩
        refine ⟨⟨fun hm => (hn n hm).1 rfl, hd⟩, ?_⟩
        rintro m (rfl | hm)
        · exact h
        · exact (hn m hm).2
      · rintro ⟨⟨hn, hd⟩, hb⟩
        exact ⟨hd, fun m hm => ⟨fun he => hn (he ▸ hm), hb m (Or.inr hm)⟩⟩

def create (kind : Kind) (names : List String) : Except Fault Registers :=
  match firstRepeat [] names with
  | some name => .error (.invalidConfiguration (.duplicateRegister name))
  | none =>
    match names.idxOf? instructionPointer with
    | some ipIndex => .ok ⟨names, Bank.zeroed kind names.length, ipIndex, none⟩
    | none => .error (.invalidConfiguration .noInstructionPointer)

def kind (r : Registers) : Kind := r.bank.kind

def size (r : Registers) : Nat := r.names.length

def indexOf? (r : Registers) (name : String) : Option Nat := r.names.idxOf? name

def nameOf? (r : Registers) (i : Nat) : Option String := r.names[i]?

/-- The place a selector picks: a name's, or the floor of an index if a register is there. Unlike a
capacity, the number of names is compared as it is: no list is so long that a word would round it,
see `placeByWord?_eq`. -/
def place? (r : Registers) : Selector → Option Nat
  | .name n => r.indexOf? n
  | .index w =>
    match w.floor? with
    | some n => if 0 ≤ n ∧ n < r.size then some n.toNat else none
    | none => none

def resolve (r : Registers) (s : Selector) : Except Fault Nat :=
  match r.place? s with
  | some i => .ok i
  | none => .error (.invalidRegister s)

def word (r : Registers) (i : Nat) : Word := r.bank.word i

def read (r : Registers) (s : Selector) : Except Fault Word := (r.resolve s).map r.word

def ip (r : Registers) : Word := r.word r.ipIndex

def words (r : Registers) : List Word := (List.range r.size).map r.word

def put (r : Registers) (i : Nat) (w : Word) : Registers := { r with bank := r.bank.put i w }

def report (r : Registers) (i : Nat) : List Event :=
  match r.observer with
  | some tag => [.register tag i (r.word i) r.ip]
  | none => []

def update (r : Registers) (i : Nat) (w : Word) : Update Registers Word :=
  let changed := r.put i w
  ⟨changed.word i, changed, changed.report i⟩

def write (r : Registers) (s : Selector) (w : Word) : Except Fault (Update Registers Word) :=
  (r.resolve s).map (r.update · w)

def setIp (r : Registers) (w : Word) : Update Registers Word := r.update r.ipIndex w

def clear (r : Registers) : Registers := { r with bank := r.bank.clear }

def observe (r : Registers) (tag : String) : Registers := { r with observer := some tag }

/-- Names are distinct, one of them is the instruction pointer's, and the bank has a word each. -/
structure WellFormed (r : Registers) : Prop where
  distinct : r.names.Nodup
  ip_name : r.names[r.ipIndex]? = some instructionPointer
  size_bytes : r.bank.bytes.size = r.size * r.kind.byteWidth

end Registers

end WordMachine
