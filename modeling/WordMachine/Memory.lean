import WordMachine.Address
import WordMachine.Event

/-!
# Memory

A fixed number of words in one buffer of bytes. Words are read and written at addresses below the
capacity; bytes are loaded from a word address on. An operation that is refused changes nothing.
-/

set_option autoImplicit false

namespace WordMachine

structure Memory where
  capacity : Nat
  bank : Bank
  observer : Option String
  deriving DecidableEq, Repr

namespace Memory

def defaultCapacity : Nat := 4095

def create (kind : Kind) (capacity : Nat) : Memory := ⟨capacity, Bank.zeroed kind capacity, none⟩

def kind (m : Memory) : Kind := m.bank.kind

def bytes (m : Memory) : Array UInt8 := m.bank.bytes

def isValid (m : Memory) (address : Nat) : Bool := Address.isValid address m.capacity

def check (m : Memory) (address : Nat) : Except Fault Nat := Address.check address m.capacity

def addressOf (m : Memory) (w : Word) : Except Fault Nat := Address.ofWord w m.capacity

def read (m : Memory) (address : Nat) : Except Fault Word := do m.bank.read (← m.check address)

/-- The words from `start` up to `stop`, none if `stop` is not past `start`. -/
def words (m : Memory) (start stop : Nat) : Except Fault (List Word) :=
  if m.capacity < stop then .error (Address.fault stop m.capacity)
  else (List.range' start (stop - start)).mapM m.read

/-- What the observer is told of the addresses from `start` up to `stop`. -/
def report (m : Memory) (start stop : Nat) : List Event :=
  match m.observer with
  | some tag =>
    [.memory tag start stop (m.bank.span start (min (max stop (start + 1)) m.capacity))]
  | none => []

def put (m : Memory) (address : Nat) (w : Word) : Memory :=
  { m with bank := m.bank.put address w }

def putBytes (m : Memory) (address : Nat) (bytes : List UInt8) : Memory :=
  { m with bank := m.bank.putBytes address bytes }

def update (m : Memory) (address : Nat) (w : Word) : Update Memory Unit :=
  let changed := m.put address w
  ⟨(), changed, changed.report address address⟩

def write (m : Memory) (address : Nat) (w : Word) : Except Fault (Update Memory Unit) :=
  (m.check address).map (m.update · w)

def writeRaw (m : Memory) (address : Nat) (bytes : List UInt8) :
    Except Fault (Update Memory Word) := do
  if bytes.length ≠ m.kind.byteWidth then
    throw (.sizeMismatch m.kind.byteWidth bytes.length)
  let place ← m.check address
  let changed := m.putBytes place bytes
  return ⟨← changed.read place, changed, changed.report place place⟩

/-- Loads bytes at a word address and answers the address after them. -/
def load (m : Memory) (start : Nat) (bytes : List UInt8) : Except Fault (Update Memory Nat) :=
  let stop := Address.afterBytes start bytes.length m.kind.byteWidth
  if stop ≤ m.capacity then
    let changed := m.putBytes start bytes
    .ok ⟨stop, changed, changed.report start stop⟩
  else .error (Address.fault start m.capacity)

def loadWords (m : Memory) (start : Nat) (ws : List Word) : Except Fault (Update Memory Nat) :=
  m.load start (m.kind.encodeWords ws)

/-- Stores one word at every address from `start` up to `stop`, reported as one write. -/
def fill (m : Memory) (start stop : Nat) (w : Word) : Except Fault (Update Memory Unit) :=
  if stop ≤ start then .ok ⟨(), m, []⟩
  else if m.capacity < stop then .error (Address.fault stop m.capacity)
  else
    let changed := m.putBytes start (m.kind.encodeWords (List.replicate (stop - start) w))
    .ok ⟨(), changed, changed.report start stop⟩

def clear (m : Memory) : Memory := { m with bank := m.bank.clear }

def observe (m : Memory) (tag : String) : Memory := { m with observer := some tag }

def WellFormed (m : Memory) : Prop := m.bytes.size = m.capacity * m.kind.byteWidth

theorem create_wellFormed (kind : Kind) (capacity : Nat) : (create kind capacity).WellFormed :=
  Bank.size_zeroed kind capacity

end Memory

end WordMachine
