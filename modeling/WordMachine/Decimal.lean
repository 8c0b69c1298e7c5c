import WordMachine.Binary

/-!
# Decimal numbers

The decimal with the fewest digits that reads back as a given binary magnitude, and the layouts in
which a decimal is written.
-/

set_option autoImplicit false

namespace WordMachine

structure Decimal where
  digits : Nat
  exponent : Int
  deriving DecidableEq, Repr

namespace Decimal

/-- The magnitudes that round to one binary magnitude: `(4 * m - below) .. (4 * m + 2)` quarters
of its last digit. The gap below is half as wide under a power of two. The ends themselves round
to the even neighbour, so they belong to the span of an even `m` only. -/
structure Span where
  m : Nat
  q : Int
  below : Nat

def Span.ofMagnitude (f : Format) (m : Nat) (q : Int) : Span :=
  ⟨m, q, if m = f.fractions ∧ f.leastExponent < q then 1 else 2⟩

def Span.holds (s : Span) (x scale : Nat) : Bool :=
  let low := (4 * s.m - s.below) * scale
  let high := (4 * s.m + 2) * scale
  if s.m % 2 = 0 then low ≤ x ∧ x ≤ high else low < x ∧ x < high

/-- The multiple of `10 ^ j` in the span that is nearest to its middle; of two as near, the larger.
Only the two neighbours of the middle need a look. -/
def Span.onGrid (s : Span) (j : Int) : Option Nat :=
  let unit := 10 ^ j.toNat * 2 ^ (2 - s.q).toNat
  let scale := 2 ^ (s.q - 2).toNat * 10 ^ (-j).toNat
  let c := 4 * s.m * scale / unit
  match s.holds (c * unit) scale, s.holds ((c + 1) * unit) scale with
  | true, true => some (if 8 * s.m * scale < (2 * c + 1) * unit then c else c + 1)
  | true, false => some c
  | false, true => some (c + 1)
  | false, false => none

def Span.search (s : Span) : Nat → Int → Decimal
  | 0, j => ⟨(s.onGrid j).getD 0, j⟩
  | fuel + 1, j =>
    match s.onGrid j with
    | some c => ⟨c, j⟩
    | none => s.search fuel (j - 1)

/-- The shortest decimal that reads back as `m * 2 ^ q`, for `m` above zero. The search starts one
place above the leading digit; 17 digits always suffice. -/
def shortest (f : Format) (m : Nat) (q : Int) : Decimal :=
  (Span.ofMagnitude f m q).search 20 ((q + Nat.log2 m + 1) * 30103 / 100000 + 1)

/-- How a decimal is written: what follows a whole number, and the leading exponents from which on,
either way, scientific notation is used. -/
structure Layout where
  whole : String
  scientific : Int → Bool

def plain : Layout := ⟨"", fun _ => false⟩

/-- A fraction is always shown, and magnitudes outside `0.0001` to `10 ^ 16` have an exponent. -/
def inspect : Layout := ⟨".0", fun e => e < -4 || 15 < e⟩

def digitChars (n : Nat) : List Char := Nat.toDigits 10 n

def zeros (n : Nat) : List Char := List.replicate n '0'

def Layout.render (layout : Layout) (d : Decimal) : String :=
  let ds := digitChars d.digits
  let point := d.exponent + ds.length
  if layout.scientific (point - 1) then
    let fraction := ds.drop 1
    String.ofList (ds.take 1 ++ (if fraction = [] then [] else '.' :: fraction))
      ++ "e" ++ toString (point - 1)
  else if 0 ≤ d.exponent then String.ofList (ds ++ zeros d.exponent.toNat) ++ layout.whole
  else if 0 < point then
    String.ofList (ds.take point.toNat ++ '.' :: ds.drop point.toNat)
  else String.ofList ('0' :: '.' :: zeros (-point).toNat ++ ds)

def Layout.zero (layout : Layout) : String := "0" ++ layout.whole

end Decimal

end WordMachine
