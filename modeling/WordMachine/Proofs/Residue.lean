import Mathlib.Data.Int.ModEq
import WordMachine.Proofs.Coercion

/-!
# The integers of a kind

An integer kind of `w` bits stores an integer modulo `2 ^ w`, as the one congruent to it within the
range of the kind. That range is so small that its integers are words and add up to words.
-/

set_option autoImplicit false

namespace WordMachine.Kind

variable {k : Kind} {w : Word} {x z : Int}

/-- The integer within the range of a kind that another one is stored as. -/
def wrap (k : Kind) (z : Int) : Int := k.residue (z % 2 ^ k.bits).toNat

/-- The word is that of an integer within the range of the kind. -/
structure Represents (k : Kind) (w : Word) (x : Int) : Prop where
  word : w = Word.ofInt x
  least : k.least ≤ x
  greatest : x ≤ k.greatest

theorem two_pow_half (k : Kind) : (2 : Int) ^ k.bits = 2 * 2 ^ (k.bits - 1) := by
  cases k <;> decide

theorem two_pow_bits_pos (k : Kind) : (0 : Int) < 2 ^ k.bits := Int.pow_pos (by decide)

theorem toNat_emod (k : Kind) (z : Int) : ((z % 2 ^ k.bits).toNat : Int) = z % 2 ^ k.bits :=
  Int.toNat_of_nonneg (Int.emod_nonneg z (Int.ne_of_gt k.two_pow_bits_pos))

theorem wrap_modEq (k : Kind) (z : Int) : k.wrap z ≡ z [ZMOD 2 ^ k.bits] := by
  rw [wrap, residue, k.toNat_emod]
  split
  · exact (Int.sub_emod_right _ _).trans (Int.mod_modEq z _)
  · exact Int.mod_modEq z _

theorem wrap_congr (h : x ≡ z [ZMOD 2 ^ k.bits]) : k.wrap x = k.wrap z := by
  rw [wrap, wrap, h]

theorem wrap_range (k : Kind) (z : Int) : k.least ≤ k.wrap z ∧ k.wrap z ≤ k.greatest := by
  have hhalf := k.two_pow_half
  have hlow := Int.emod_nonneg z (Int.ne_of_gt k.two_pow_bits_pos)
  have hhigh := Int.emod_lt_of_pos z k.two_pow_bits_pos
  have hcast : ((2 ^ (k.bits - 1) : Nat) : Int) = 2 ^ (k.bits - 1) := Int.natCast_pow 2 _
  have hmod := k.toNat_emod z
  rw [wrap, residue, least, greatest]
  by_cases hs : k.isSigned
  · simp only [hs, true_and, if_true]
    split <;> omega
  · simp only [hs, Bool.false_eq_true, false_and, if_false]
    omega

theorem greatest_lt (k : Kind) : k.greatest < k.least + 2 ^ k.bits := by
  cases k <;> decide

theorem eq_wrap (hlow : k.least ≤ x) (hhigh : x ≤ k.greatest) (h : x ≡ z [ZMOD 2 ^ k.bits]) :
    x = k.wrap z := by
  have hrange := k.greatest_lt
  have hwrap := k.wrap_range z
  have hdvd := (h.trans (k.wrap_modEq z).symm).dvd
  have hzero := Int.eq_zero_of_abs_lt_dvd hdvd (abs_lt.mpr ⟨by omega, by omega⟩)
  omega

theorem wrap_of_range (hlow : k.least ≤ x) (hhigh : x ≤ k.greatest) : k.wrap x = x :=
  (eq_wrap hlow hhigh rfl).symm

theorem zero_range (k : Kind) : k.least ≤ 0 ∧ 0 ≤ k.greatest := by
  cases k <;> decide

theorem wrap_zero (k : Kind) : k.wrap 0 = 0 :=
  wrap_of_range k.zero_range.1 k.zero_range.2

theorem natAbs_le_of_range (hk : k.isInteger) (hlow : k.least ≤ x) (hhigh : x ≤ k.greatest) :
    x.natAbs ≤ 2 ^ 32 := by
  have hleast : -2 ^ 32 ≤ k.least := by cases k <;> first | decide | cases hk
  have hgreatest : k.greatest ≤ 2 ^ 32 := by cases k <;> first | decide | cases hk
  omega

theorem Represents.natAbs_le (hk : k.isInteger) (h : k.Represents w x) : x.natAbs ≤ 2 ^ 32 :=
  natAbs_le_of_range hk h.least h.greatest

theorem Represents.integer? (hk : k.isInteger) (h : k.Represents w x) : w.integer? = some x := by
  have hsmall : x.natAbs < 2 ^ 53 := Nat.lt_of_le_of_lt (h.natAbs_le hk) (by decide)
  rw [h.word, Word.integer?_ofInt hsmall]

theorem Represents.wrap (h : k.Represents w x) : k.wrap x = x := wrap_of_range h.least h.greatest

theorem coerce_represents (hk : k.isInteger) (w : Word) :
    k.Represents (k.coerce w) (k.wrap (w.truncate?.getD 0)) where
  word := by rw [coerce_eq, ofPattern_integer hk, pattern_integer hk, Kind.wrap]
  least := (k.wrap_range _).1
  greatest := (k.wrap_range _).2

theorem coerce_truncate? (hk : k.isInteger) (h : w.truncate? = some z) :
    k.Represents (k.coerce w) (k.wrap z) := by
  have hrepresents := coerce_represents hk w
  rwa [h] at hrepresents

theorem coerce_integer? (hk : k.isInteger) (h : w.integer? = some z) :
    k.Represents (k.coerce w) (k.wrap z) :=
  coerce_truncate? hk (Word.truncate?_of_integer? h)

theorem exists_represents (hk : k.isInteger) (h : k.coerce w = w) : ∃ x, k.Represents w x :=
  ⟨_, h ▸ coerce_represents hk w⟩

end WordMachine.Kind
