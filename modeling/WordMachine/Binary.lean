/-!
# Binary number formats

A pattern of bits stands for a signed significand times a power of two, for an infinity, or for
no number. Rounding is stated once, for an exact `m * 2 ^ q`: every operation computes its exact
answer, or one whose last bit says that more follows, and rounds it here.
-/

set_option autoImplicit false

-- powers of naturals and integers stay the ones of the core library where others are in scope
attribute [instance (high)] instPowNat
attribute [default_instance high] instPowNat

namespace WordMachine

/-- What a pattern stands for. A finite datum is the significand times two to the exponent. -/
inductive Datum where
  | nan
  | infinite (negative : Bool)
  | finite (negative : Bool) (significand : Nat) (exponent : Int)
  deriving DecidableEq, Repr

def signed (negative : Bool) (m : Nat) : Int := if negative then -(m : Int) else m

theorem natAbs_signed (negative : Bool) (m : Nat) : (signed negative m).natAbs = m := by
  cases negative <;> simp [signed]

/-- `m / 2 ^ k` to the nearest integer, a tie to the even one. -/
def halfEven (m k : Nat) : Nat :=
  let kept := m / 2 ^ k
  let rest := m % 2 ^ k
  if 2 ^ k < 2 * rest ∨ (2 * rest = 2 ^ k ∧ kept % 2 = 1) then kept + 1 else kept

theorem halfEven_exact (m k : Nat) : halfEven (m * 2 ^ k) k = m := by
  have h : 0 < 2 ^ k := Nat.two_pow_pos k
  simp [halfEven, Nat.mul_div_cancel _ h, Nat.ne_of_lt h]

/-- A sign, an exponent field and a fraction field; `precision` counts the leading digit too. -/
structure Format where
  precision : Nat
  exponentWidth : Nat
  deriving DecidableEq, Repr

def binary64 : Format := ⟨53, 11⟩

def binary32 : Format := ⟨24, 8⟩

namespace Format

def fractions (f : Format) : Nat := 2 ^ (f.precision - 1)

def leastExponent (f : Format) : Int := 3 - 2 ^ (f.exponentWidth - 1) - f.precision

def infinity (f : Format) : Nat := (2 ^ f.exponentWidth - 1) * f.fractions

def signBit (f : Format) : Nat := 2 ^ f.exponentWidth * f.fractions

def isNegative (f : Format) (pattern : Nat) : Bool := pattern / f.signBit % 2 = 1

def withSign (f : Format) (negative : Bool) (magnitude : Nat) : Nat :=
  if negative then f.signBit + magnitude else magnitude

def decode (f : Format) (pattern : Nat) : Datum :=
  let negative := f.isNegative pattern
  let field := pattern % f.signBit / f.fractions
  let fraction := pattern % f.fractions
  if field = 2 ^ f.exponentWidth - 1 then
    if fraction = 0 then .infinite negative else .nan
  else if field = 0 then .finite negative fraction f.leastExponent
  else .finite negative (f.fractions + fraction) (f.leastExponent + field - 1)

/-- The exponent of the last digit kept when `m * 2 ^ q` is rounded: `precision` digits, fewer
below the smallest normal magnitude. -/
def keptExponent (f : Format) (m : Nat) (q : Int) : Int :=
  max f.leastExponent (q + Nat.log2 m + 1 - f.precision)

/-- The pattern of the representable magnitude nearest to `m * 2 ^ q`, a tie to the even one.
Consecutive magnitudes have consecutive patterns, so a carry out of the digits raises the
exponent field by itself, and everything past the largest finite magnitude is infinite. -/
def magnitude (f : Format) (m : Nat) (q : Int) : Nat :=
  if m = 0 then 0 else
    let e := f.keptExponent m q
    let digits := if e ≤ q then m * 2 ^ (q - e).toNat else halfEven m (e - q).toNat
    min f.infinity ((e - f.leastExponent).toNat * f.fractions + digits)

/-- The pattern of another format: finite data are rounded, a pattern that is no number keeps its
sign and the leading digits of its fraction and becomes quiet. -/
def convert (f g : Format) (pattern : Nat) : Nat :=
  g.withSign (f.isNegative pattern) <|
    match f.decode pattern with
    | .nan =>
      let fraction := pattern % f.fractions
      let aligned := fraction * 2 ^ (g.precision - f.precision) / 2 ^ (f.precision - g.precision)
      g.infinity + (aligned ||| g.fractions / 2)
    | .infinite _ => g.infinity
    | .finite _ m q => g.magnitude m q

end Format

end WordMachine
