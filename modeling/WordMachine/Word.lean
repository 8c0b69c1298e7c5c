import WordMachine.Binary

/-!
# Words

A word is a double precision number, kept as its bit pattern so that a pattern that is no number
passes through unchanged. Arithmetic is exact on the decoded operands and rounded once.
-/

set_option autoImplicit false

namespace WordMachine

structure Word where
  bits : UInt64
  deriving DecidableEq, Repr, Inhabited

namespace Word

def datum (w : Word) : Datum := binary64.decode w.bits.toNat

def ofMagnitude (negative : Bool) (magnitude : Nat) : Word :=
  ⟨UInt64.ofNat (binary64.withSign negative magnitude)⟩

/-- The word nearest to `± m * 2 ^ q`, a tie to the even pattern. -/
def round (negative : Bool) (m : Nat) (q : Int) : Word :=
  ofMagnitude negative (binary64.magnitude m q)

def zero (negative : Bool) : Word := ofMagnitude negative 0

def infinity (negative : Bool) : Word := ofMagnitude negative binary64.infinity

def nan : Word := ⟨0x7ff8000000000000⟩

/-- What an operation answers that no number fits, such as infinity less infinity. -/
def indefinite : Word := ⟨0xfff8000000000000⟩

def quiet (w : Word) : Word := ⟨w.bits ||| 0x0008000000000000⟩

def negate (w : Word) : Word := ⟨w.bits ^^^ 0x8000000000000000⟩

def isNan (w : Word) : Bool :=
  match w.datum with
  | .nan => true
  | _ => false

def isFinite (w : Word) : Bool :=
  match w.datum with
  | .finite .. => true
  | _ => false

def ofInt (n : Int) : Word := round (n < 0) n.natAbs 0

def ofNat (n : Nat) : Word := round false n 0

def truncate? (w : Word) : Option Int :=
  match w.datum with
  | .finite s m q => some (signed s (if 0 ≤ q then m * 2 ^ q.toNat else m / 2 ^ (-q).toNat))
  | _ => none

/-- The greatest integer not above the word; none for a word that is not finite. -/
def floor? (w : Word) : Option Int :=
  match w.datum with
  | .finite s m q => some (if 0 ≤ q then signed s (m * 2 ^ q.toNat) else signed s m / 2 ^ (-q).toNat)
  | _ => none

def integer? (w : Word) : Option Int :=
  match w.datum with
  | .finite s m q =>
    if 0 ≤ q then some (signed s (m * 2 ^ q.toNat))
    else if m % 2 ^ (-q).toNat = 0 then some (signed s (m / 2 ^ (-q).toNat))
    else none
  | _ => none

/-- The word without its fraction, sign kept: the integer part of `-0.5` is `-0`. -/
def truncate (w : Word) : Word :=
  match w.datum with
  | .nan => w.quiet
  | .infinite _ => w
  | .finite s m q => if 0 ≤ q then w else round s (m / 2 ^ (-q).toNat) 0

/-- IEEE order: the two zeros are equal, and what is no number is not comparable. -/
def compare? (a b : Word) : Option Ordering :=
  match a.datum, b.datum with
  | .nan, _ | _, .nan => none
  | .infinite s, .infinite t => some (compare (signed s 1) (signed t 1))
  | .infinite s, .finite .. => some (compare (signed s 1) 0)
  | .finite .., .infinite t => some (compare 0 (signed t 1))
  | .finite s m p, .finite t n q =>
    let e := min p q
    some (compare (signed s (m * 2 ^ (p - e).toNat)) (signed t (n * 2 ^ (q - e).toNat)))

def add (a b : Word) : Word :=
  match a.datum, b.datum with
  | .nan, _ => a.quiet
  | _, .nan => b.quiet
  | .infinite s, .infinite t => if s = t then a else indefinite
  | .infinite _, .finite .. => a
  | .finite .., .infinite _ => b
  | .finite s m p, .finite t n q =>
    let e := min p q
    let total := signed s (m * 2 ^ (p - e).toNat) + signed t (n * 2 ^ (q - e).toNat)
    if total = 0 then zero (s && t) else round (total < 0) total.natAbs e

def sub (a b : Word) : Word := a.add (if b.isNan then b else b.negate)

def mul (a b : Word) : Word :=
  match a.datum, b.datum with
  | .nan, _ => a.quiet
  | _, .nan => b.quiet
  | .infinite s, .infinite t => infinity (s != t)
  | .infinite s, .finite t n _ => if n = 0 then indefinite else infinity (s != t)
  | .finite s m _, .infinite t => if m = 0 then indefinite else infinity (s != t)
  | .finite s m p, .finite t n q => round (s != t) (m * n) (p + q)

/-- `2 * n / d`, its last bit set when the division leaves a rest: enough to round correctly. -/
def stickyQuotient (n d : Nat) : Nat := 2 * (n / d) + if n % d = 0 then 0 else 1

/-- The quotient is computed to at least 57 digits, four more than a word keeps. -/
def div (a b : Word) : Word :=
  match a.datum, b.datum with
  | .nan, _ => a.quiet
  | _, .nan => b.quiet
  | .infinite _, .infinite _ => indefinite
  | .infinite s, .finite t _ _ => infinity (s != t)
  | .finite s _ _, .infinite t => zero (s != t)
  | .finite s m p, .finite t n q =>
    if n = 0 then (if m = 0 then indefinite else infinity (s != t))
    else round (s != t) (stickyQuotient (m * 2 ^ 110) n) (p - q - 111)

def refineRoot (n : Nat) : Nat → Nat → Nat
  | 0, r => r
  | k + 1, r =>
    let next := r + 2 ^ k
    if next * next ≤ n then refineRoot n k next else refineRoot n k r

def isqrt (n : Nat) : Nat := refineRoot n (Nat.log2 n / 2 + 1) 0

def stickyRoot (n : Nat) : Nat :=
  let r := isqrt n
  2 * r + if r * r = n then 0 else 1

/-- The root is taken of an even power of two times an integer of more than 110 digits. -/
def sqrt (a : Word) : Word :=
  match a.datum with
  | .nan => a.quiet
  | .infinite s => if s then indefinite else a
  | .finite s m q =>
    if m = 0 then a
    else if s then indefinite
    else
      let shift : Nat := if q % 2 = 0 then 110 else 111
      round false (stickyRoot (m * 2 ^ shift)) ((q - shift) / 2 - 1)

/-- Exponentiation is the platform's. -/
def pow (a b : Word) : Word :=
  ⟨((Float.ofBits a.bits).pow (Float.ofBits b.bits)).toBits⟩

theorem refineRoot_le (n k r : Nat) (h : r * r ≤ n) :
    refineRoot n k r * refineRoot n k r ≤ n := by
  induction k generalizing r with
  | zero => simpa [refineRoot] using h
  | succ k ih =>
    simp only [refineRoot]
    split
    · exact ih _ ‹_›
    · exact ih _ h

theorem lt_refineRoot (n k r : Nat) (h : n < (r + 2 ^ k) * (r + 2 ^ k)) :
    n < (refineRoot n k r + 1) * (refineRoot n k r + 1) := by
  induction k generalizing r with
  | zero => simpa [refineRoot] using h
  | succ k ih =>
    simp only [refineRoot]
    split
    · apply ih
      rw [Nat.pow_succ] at h
      rwa [show r + 2 ^ k + 2 ^ k = r + 2 ^ k * 2 by omega]
    · exact ih _ (by omega)

theorem isqrt_le (n : Nat) : isqrt n * isqrt n ≤ n := refineRoot_le n _ 0 (by omega)

theorem lt_isqrt (n : Nat) : n < (isqrt n + 1) * (isqrt n + 1) := by
  apply lt_refineRoot
  rw [Nat.zero_add, ← Nat.pow_add]
  exact Nat.lt_of_lt_of_le Nat.lt_log2_self (Nat.pow_le_pow_right (by omega) (by omega))

end Word

end WordMachine
