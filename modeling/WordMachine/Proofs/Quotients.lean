import Mathlib.Algebra.Order.Field.Power
import Mathlib.Order.Bounds.Basic
import WordMachine.Proofs.Calculation
import WordMachine.Proofs.Nearest
import WordMachine.Proofs.Residue

/-!
# Quotients and roots of integers

A quotient and a root are rounded before their fraction is dropped. Between integers as small as
those of an integer kind this makes no difference: unless it is an integer, a quotient or a root is
so far below the next one that a word lies in between.
-/

set_option autoImplicit false

namespace WordMachine

namespace Word

variable {a b w : Word} {x y : Int}

theorem digits_eq_zero_iff {m n : Nat} {q : Int} (h : (m * 2 ^ q : ℚ) = n) : m = 0 ↔ n = 0 := by
  have hunit : (2 : ℚ) ^ q ≠ 0 := (zpow_pos two_pos q).ne'
  rw [← Nat.cast_eq_zero (R := ℚ), ← Nat.cast_eq_zero (R := ℚ) (n := n), ← h, mul_eq_zero,
    or_iff_left hunit]

theorem leading_of_datum {s : Bool} {m : Nat} {q : Int} (h : w.datum = .finite s m q) :
    q = -1074 ∨ 2 ^ 52 ≤ m := by
  have hleast : binary64.leastExponent = -1074 := by decide
  have hfractions : binary64.fractions = 2 ^ 52 := rfl
  rw [datum, Format.decode] at h
  split at h
  · split at h <;> cases h
  · split at h <;> obtain ⟨-, rfl, rfl⟩ := Datum.finite.inj h
    · exact Or.inl hleast
    · exact Or.inr (by omega)

theorem exponent_le {s : Bool} {m n : Nat} {q : Int} (h : w.datum = .finite s m q)
    (hnumber : (m * 2 ^ q : ℚ) = n) (hn : n ≤ 2 ^ 32) : q ≤ -20 := by
  rcases leading_of_datum h with rfl | hm
  · decide
  · have hpower : (2 : ℚ) ^ (52 + q) ≤ 2 ^ (32 : Int) := by
      calc (2 : ℚ) ^ (52 + q) = (2 ^ 52 : Nat) * 2 ^ q := by
            rw [zpow_add₀ two_ne_zero]
            norm_num
        _ ≤ m * 2 ^ q := mul_le_mul_of_nonneg_right (mod_cast hm) (zpow_nonneg two_pos.le q)
        _ = n := hnumber
        _ ≤ 2 ^ (32 : Int) := by exact_mod_cast hn
    have := (zpow_le_zpow_iff_right₀ one_lt_two).mp hpower
    omega

theorem le_exponent {s : Bool} {m n : Nat} {q : Int} (h : w.datum = .finite s m q)
    (hnumber : (m * 2 ^ q : ℚ) = n) (hn : n ≠ 0) : -53 < q := by
  have hm := datum_finite_lt h
  have hpower : (2 : ℚ) ^ (0 : Int) < 2 ^ (53 + q) := by
    calc (2 : ℚ) ^ (0 : Int) ≤ n := by
          rw [zpow_zero]
          exact_mod_cast Nat.one_le_iff_ne_zero.mpr hn
      _ = m * 2 ^ q := hnumber.symm
      _ < (2 ^ 53 : Nat) * 2 ^ q := mul_lt_mul_of_pos_right (mod_cast hm) (zpow_pos two_pos q)
      _ = 2 ^ (53 + q) := by
          rw [zpow_add₀ two_ne_zero]
          norm_num
  have := (zpow_lt_zpow_iff_right₀ one_lt_two).mp hpower
  omega

theorem le_stickyQuotient {t n d : Nat} (hd : 0 < d) (h : t * d ≤ n) :
    2 * t ≤ stickyQuotient n d := by
  have ht : t ≤ n / d := (Nat.le_div_iff_mul_le hd).mpr h
  rw [stickyQuotient]
  omega

theorem stickyQuotient_le {t n d : Nat} (h : n ≤ t * d) : stickyQuotient n d ≤ 2 * t := by
  have hsplit := Nat.div_add_mod' n d
  rw [stickyQuotient]
  split
  · have ht : n / d ≤ t := Nat.div_le_of_le_mul (by rwa [Nat.mul_comm])
    omega
  · -- with a rest the quotient lies strictly below
    have ht : n / d < t := Nat.lt_of_mul_lt_mul_right (a := d) (by omega)
    omega

theorem dividend_scaled (m : Nat) (p : Int) :
    (m * 2 ^ p : ℚ) = ((m * 2 ^ 110 : Nat) : ℚ) * 2 ^ (p - 110) := by
  rw [natCast_scaled m (show p - 110 ≤ p by omega), show (p - (p - 110)).toNat = 110 by omega]

section

variable {m n t : Nat} {p q e : Int} (he : 0 ≤ 110 + q - p + e)
include he

theorem quotient_scaled : (t * 2 ^ e * (n * 2 ^ q) : ℚ) =
    ((t * 2 ^ (110 + q - p + e).toNat * n : Nat) : ℚ) * 2 ^ (p - 110) := by
  have hpower := zpow_scaled (show p - 110 ≤ e + q by omega)
  rw [show e + q - (p - 110) = 110 + q - p + e by omega, zpow_add₀ two_ne_zero] at hpower
  calc (t * 2 ^ e * (n * 2 ^ q) : ℚ) = t * n * (2 ^ e * 2 ^ q) := by ring
    _ = ((t * 2 ^ (110 + q - p + e).toNat * n : Nat) : ℚ) * 2 ^ (p - 110) := by
        rw [hpower, Nat.cast_mul, Nat.cast_mul]
        ring

theorem result_scaled :
    t * 2 ^ (e - (p - q - 111)).toNat = 2 * (t * 2 ^ (110 + q - p + e).toNat) := by
  rw [show (e - (p - q - 111)).toNat = (110 + q - p + e).toNat + 1 by omega, Nat.pow_succ]
  ring

theorem le_quotient (hn : 0 < n) (h : (t * 2 ^ e * (n * 2 ^ q) : ℚ) ≤ m * 2 ^ p) :
    (t * 2 ^ e : ℚ) ≤ stickyQuotient (m * 2 ^ 110) n * 2 ^ (p - q - 111) := by
  have hunit : (0 : ℚ) < 2 ^ (p - 110) := zpow_pos two_pos _
  rw [quotient_scaled he, dividend_scaled m, mul_le_mul_iff_left₀ hunit, Nat.cast_le] at h
  rw [scaled_le_iff (by omega), result_scaled he]
  exact le_stickyQuotient hn h

theorem quotient_le (h : (m * 2 ^ p : ℚ) ≤ t * 2 ^ e * (n * 2 ^ q)) :
    (stickyQuotient (m * 2 ^ 110) n * 2 ^ (p - q - 111) : ℚ) ≤ t * 2 ^ e := by
  have hunit : (0 : ℚ) < 2 ^ (p - 110) := zpow_pos two_pos _
  rw [quotient_scaled he, dividend_scaled m, mul_le_mul_iff_left₀ hunit, Nat.cast_le] at h
  rw [le_scaled_iff (by omega), result_scaled he]
  exact stickyQuotient_le h

end

theorem signed_tdiv (s t : Bool) (m n : Nat) :
    signed (s != t) (m / n) = (signed s m).tdiv (signed t n) := by
  cases s <;> cases t <;> simp [signed, Int.neg_tdiv, Int.tdiv_neg]

theorem quotient_below_next {n d k : Nat} (hd : 0 < d) (hk : d ≤ 2 ^ k) :
    n * 2 ^ k ≤ ((n / d + 1) * 2 ^ k - 1) * d := by
  have hnext : n + 1 ≤ (n / d + 1) * d := by
    rw [Nat.mul_comm]
    exact Nat.lt_mul_div_succ n hd
  have hscaled := Nat.mul_le_mul_right (2 ^ k) hnext
  rw [Nat.succ_mul, Nat.mul_right_comm] at hscaled
  rw [Nat.sub_mul]
  omega

theorem truncate?_round_quotient (s : Bool) {m n X Y : Nat} {p q : Int}
    (hX : (m * 2 ^ p : ℚ) = X) (hY : (n * 2 ^ q : ℚ) = Y) (hX32 : X ≤ 2 ^ 32) (hY32 : Y ≤ 2 ^ 32)
    (hn : 0 < n) (hY0 : 0 < Y) (hp : p ≤ -20) (hq : -53 < q) :
    (round s (stickyQuotient (m * 2 ^ 110) n) (p - q - 111)).truncate? =
      some (signed s (X / Y)) := by
  have hlog : Nat.log2 Y < 33 := (Nat.log2_lt (Nat.ne_of_gt hY0)).mpr (by omega)
  have hYlow : 2 ^ Nat.log2 Y ≤ Y := Nat.log2_self_le (Nat.ne_of_gt hY0)
  have hYhigh : Y ≤ 2 ^ (Nat.log2 Y + 1) := Nat.le_of_lt Nat.lt_log2_self
  obtain ⟨k, hk⟩ : ∃ k, Nat.log2 Y + 1 = k := ⟨_, rfl⟩
  have hfloor : X / Y * Y ≤ X := Nat.div_mul_le_self X Y
  have hsmall : (X / Y + 1) * 2 ^ k ≤ 2 ^ 34 := by
    calc (X / Y + 1) * 2 ^ k = 2 * ((X / Y + 1) * 2 ^ Nat.log2 Y) := by
          rw [← hk, Nat.pow_succ]
          ring
      _ ≤ 2 * ((X / Y + 1) * Y) := Nat.mul_le_mul_left 2 (Nat.mul_le_mul_left _ hYlow)
      _ ≤ 2 ^ 34 := by
          rw [Nat.succ_mul (X / Y) Y]
          omega
  rw [hk] at hYhigh
  have hbelow := quotient_below_next (n := X) hY0 hYhigh
  have hlow : ((X / Y : Nat) * 2 ^ (0 : Int) * (n * 2 ^ q) : ℚ) ≤ m * 2 ^ p := by
    rw [hX, hY, zpow_zero, mul_one]
    exact_mod_cast hfloor
  have hhigh : (m * 2 ^ p : ℚ) ≤ ((X / Y + 1) * 2 ^ k - 1 : Nat) * 2 ^ (-k : Int) * (n * 2 ^ q) := by
    rw [hX, hY, zpow_neg, zpow_natCast, mul_right_comm, ← div_eq_mul_inv,
      le_div_iff₀ (by positivity)]
    exact_mod_cast hbelow
  have hlow := le_quotient (by omega) hn hlow
  have hhigh := quotient_le (by omega) hhigh
  have hpositive : 0 < (X / Y + 1) * 2 ^ k := Nat.mul_pos (Nat.succ_pos _) (Nat.two_pow_pos k)
  have hquotient := Nat.div_le_self X Y
  rw [zpow_zero, mul_one] at hlow
  exact truncate?_round s (by omega) (by omega) (by omega) hlow hhigh
    (Nat.sub_lt hpositive Nat.one_pos)

theorem truncate?_div (ha : a.integer? = some x) (hb : b.integer? = some y)
    (hx : x.natAbs ≤ 2 ^ 32) (hy : y.natAbs ≤ 2 ^ 32) (h0 : y ≠ 0) :
    (a.div b).truncate? = some (x.tdiv y) := by
  obtain ⟨s, m, p, hda, hX, hxs⟩ := number_of_integer? ha
  obtain ⟨t, n, q, hdb, hY, hyt⟩ := number_of_integer? hb
  have hY0 : y.natAbs ≠ 0 := Int.natAbs_ne_zero.mpr h0
  have hn : n ≠ 0 := mt (digits_eq_zero_iff hY).mp hY0
  simp only [div, hda, hdb, if_neg hn]
  rw [truncate?_round_quotient (s != t) hX hY hx hy (Nat.pos_of_ne_zero hn)
    (Nat.pos_of_ne_zero hY0) (exponent_le hda hX hx) (le_exponent hdb hY hY0), signed_tdiv, hxs, hyt]

theorem truncate?_div_zero (ha : a.integer? = some x) (hb : b.integer? = some 0) :
    (a.div b).truncate? = none ∧ (a.div b).truncate.truncate? = none := by
  obtain ⟨s, m, p, hda, -⟩ := value_of_integer? ha
  obtain ⟨t, q, hdb⟩ := datum_of_zero hb
  simp only [div, hda, hdb, if_true]
  by_cases hm : m = 0
  · rw [if_pos hm]
    decide +kernel
  · rw [if_neg hm]
    cases s <;> cases t <;> decide +kernel

theorem truncate?_truncate {z : Int} (h : w.truncate? = some z) : w.truncate.truncate? = some z :=
  truncate?_of_integer? (integer?_truncate h)

theorem le_stickyRoot {t n : Nat} (h : t * t ≤ n) : 2 * t ≤ stickyRoot n := by
  have ht : t < isqrt n + 1 := Nat.mul_self_lt_mul_self_iff.mp (Nat.lt_of_le_of_lt h (lt_isqrt n))
  rw [stickyRoot]
  omega

theorem stickyRoot_le {t n : Nat} (h : n ≤ t * t) : stickyRoot n ≤ 2 * t := by
  have hroot := isqrt_le n
  rw [stickyRoot]
  split
  · have ht : isqrt n ≤ t := Nat.mul_self_le_mul_self_iff.mp (by omega)
    omega
  · -- with a rest the root lies strictly below
    have ht : isqrt n < t := Nat.mul_self_lt_mul_self_iff.mp (by omega)
    omega

section

variable {m t : Nat} {q e E : Int} {shift : Nat}

theorem root_scaled (he : E ≤ e) : (t * 2 ^ e * (t * 2 ^ e) : ℚ) =
    ((t * 2 ^ (e - E).toNat * (t * 2 ^ (e - E).toNat) : Nat) : ℚ) * 2 ^ (2 * E) := by
  rw [natCast_scaled t he, two_mul, zpow_add₀ two_ne_zero, Nat.cast_mul (t * _)]
  ring

theorem radicand_scaled (hE : q = shift + 2 * E) :
    (m * 2 ^ q : ℚ) = ((m * 2 ^ shift : Nat) : ℚ) * 2 ^ (2 * E) := by
  rw [natCast_scaled m (show 2 * E ≤ q by omega), show (q - 2 * E).toNat = shift by omega]

theorem root_result_scaled (he : E ≤ e) :
    t * 2 ^ (e - (E - 1)).toNat = 2 * (t * 2 ^ (e - E).toNat) := by
  rw [show (e - (E - 1)).toNat = (e - E).toNat + 1 by omega, Nat.pow_succ]
  ring

theorem le_root (hE : q = shift + 2 * E) (he : E ≤ e)
    (h : (t * 2 ^ e * (t * 2 ^ e) : ℚ) ≤ m * 2 ^ q) :
    (t * 2 ^ e : ℚ) ≤ stickyRoot (m * 2 ^ shift) * 2 ^ (E - 1) := by
  have hunit : (0 : ℚ) < 2 ^ (2 * E) := zpow_pos two_pos _
  rw [root_scaled he, radicand_scaled hE, mul_le_mul_iff_left₀ hunit, Nat.cast_le] at h
  rw [scaled_le_iff (by omega), root_result_scaled he]
  exact le_stickyRoot h

theorem root_le (hE : q = shift + 2 * E) (he : E ≤ e)
    (h : (m * 2 ^ q : ℚ) ≤ t * 2 ^ e * (t * 2 ^ e)) :
    (stickyRoot (m * 2 ^ shift) * 2 ^ (E - 1) : ℚ) ≤ t * 2 ^ e := by
  have hunit : (0 : ℚ) < 2 ^ (2 * E) := zpow_pos two_pos _
  rw [root_scaled he, radicand_scaled hE, mul_le_mul_iff_left₀ hunit, Nat.cast_le] at h
  rw [le_scaled_iff (by omega), root_result_scaled he]
  exact stickyRoot_le h

end

/-- A root below `2 ^ 16` is at least `2 ^ -17` away from the next integer. -/
theorem root_below_next {n r : Nat} (hr : r < 2 ^ 16) (h : n < (r + 1) * (r + 1)) :
    n * 2 ^ 34 ≤ ((r + 1) * 2 ^ 17 - 1) * ((r + 1) * 2 ^ 17 - 1) := by
  obtain ⟨c, hc⟩ : ∃ c, (r + 1) * 2 ^ 17 = c + 1 := ⟨(r + 1) * 2 ^ 17 - 1, by omega⟩
  have hsquare : (r + 1) * (r + 1) * 2 ^ 34 = c * c + (2 * c + 1) := by
    calc (r + 1) * (r + 1) * 2 ^ 34 = (r + 1) * 2 ^ 17 * ((r + 1) * 2 ^ 17) := by ring
      _ = c * c + (2 * c + 1) := by
          rw [hc]
          ring
  rw [hc, Nat.add_sub_cancel]
  omega

theorem truncate?_round_root {m n shift : Nat} {q E : Int} (hn : (m * 2 ^ q : ℚ) = n)
    (hn32 : n < 2 ^ 32) (hE : q = shift + 2 * E) (hlow : E ≤ -17) :
    (round false (stickyRoot (m * 2 ^ shift)) (E - 1)).truncate? = some (isqrt n : Int) := by
  have hfloor := isqrt_le n
  have hceil := lt_isqrt n
  have hsmall : isqrt n < 2 ^ 16 := Nat.mul_self_lt_mul_self_iff.mp (by omega)
  have hbelow := root_below_next hsmall hceil
  generalize isqrt n = r at hfloor hceil hsmall hbelow ⊢
  have hlow' : (r * 2 ^ (0 : Int) * (r * 2 ^ (0 : Int)) : ℚ) ≤ m * 2 ^ q := by
    rw [hn, zpow_zero, mul_one]
    exact_mod_cast hfloor
  have hhigh : (m * 2 ^ q : ℚ) ≤ ((r + 1) * 2 ^ 17 - 1 : Nat) * 2 ^ (-(17 : Nat) : Int) *
      (((r + 1) * 2 ^ 17 - 1 : Nat) * 2 ^ (-(17 : Nat) : Int)) := by
    have hcast : (n * 2 ^ 34 : ℚ) ≤
        ((r + 1) * 2 ^ 17 - 1 : Nat) * ((r + 1) * 2 ^ 17 - 1 : Nat) := mod_cast hbelow
    rw [hn, zpow_neg, zpow_natCast]
    calc (n : ℚ) = n * 2 ^ 34 * ((2 ^ 17)⁻¹ * (2 ^ 17)⁻¹) := by ring
      _ ≤ ((r + 1) * 2 ^ 17 - 1 : Nat) * ((r + 1) * 2 ^ 17 - 1 : Nat) * ((2 ^ 17)⁻¹ * (2 ^ 17)⁻¹) :=
          mul_le_mul_of_nonneg_right hcast (by positivity)
      _ = _ := by ring
  have hlow' := le_root hE (by omega) hlow'
  have hhigh := root_le hE (by omega) hhigh
  rw [zpow_zero, mul_one] at hlow'
  exact truncate?_round false (by omega) (by omega) (by decide) hlow' hhigh (by omega)

theorem truncate?_sqrt (ha : a.integer? = some x) (h0 : 0 ≤ x) (hx : x < 2 ^ 32) :
    a.sqrt.truncate? = some (isqrt x.toNat : Int) := by
  obtain ⟨s, m, q, hda, hX, hxs⟩ := number_of_integer? ha
  have hnat : x.natAbs = x.toNat := by omega
  have hq := exponent_le hda hX (by omega)
  rw [hnat] at hX
  simp only [sqrt, hda]
  by_cases hm : m = 0
  · have hzero := (digits_eq_zero_iff hX).mp hm
    rw [if_pos hm, truncate?_of_integer? ha, show x = 0 by omega]
    rfl
  · have hsign : s = false := by
      cases s with
      | false => rfl
      | true =>
        simp only [signed, if_true] at hxs
        exact absurd ((digits_eq_zero_iff hX).mpr (by omega)) hm
    rw [if_neg hm, hsign, if_neg Bool.false_ne_true]
    split
    · exact truncate?_round_root hX (by omega) (by omega) (by omega)
    · exact truncate?_round_root hX (by omega) (by omega) (by omega)

theorem truncate?_sqrt_negative (ha : a.integer? = some x) (h0 : x < 0) :
    a.sqrt.truncate? = none := by
  obtain ⟨s, m, q, hda, hX, hxs⟩ := number_of_integer? ha
  have hm : m ≠ 0 := mt (digits_eq_zero_iff hX).mp (by omega)
  have hsign : s = true := by
    cases s with
    | true => rfl
    | false =>
      simp only [signed, Bool.false_eq_true, if_false] at hxs
      omega
  simp only [sqrt, hda, if_neg hm, hsign, if_true]
  decide +kernel

end Word

namespace Kind

variable {k : Kind} {a b : Word} {x y : Int}

theorem coerce_div (hk : k.isInteger) (ha : k.Represents a x) (hb : k.Represents b y) :
    k.Represents (k.coerce (a.div b)) (k.wrap (if y = 0 then 0 else x.tdiv y)) ∧
      k.Represents (k.coerce (a.div b).truncate) (k.wrap (if y = 0 then 0 else x.tdiv y)) := by
  by_cases h0 : y = 0
  · obtain ⟨hnone, hnone'⟩ := Word.truncate?_div_zero (ha.integer? hk) (h0 ▸ hb.integer? hk)
    have hdiv := coerce_represents hk (a.div b)
    have hintDiv := coerce_represents hk (a.div b).truncate
    rw [hnone] at hdiv
    rw [hnone'] at hintDiv
    rw [if_pos h0]
    exact ⟨hdiv, hintDiv⟩
  · have hdiv := Word.truncate?_div (ha.integer? hk) (hb.integer? hk) (ha.natAbs_le hk)
      (hb.natAbs_le hk) h0
    rw [if_neg h0]
    exact ⟨coerce_truncate? hk hdiv, coerce_truncate? hk (Word.truncate?_truncate hdiv)⟩

theorem greatest_lt_two_pow (hk : k.isInteger) : k.greatest < 2 ^ 32 := by
  cases k <;> first | decide | cases hk

theorem isGreatest_isqrt (h0 : 0 ≤ x) : IsGreatest {t : Int | t * t ≤ x} (Word.isqrt x.toNat) := by
  have hfloor := Word.isqrt_le x.toNat
  have hceil := Word.lt_isqrt x.toNat
  generalize Word.isqrt x.toNat = r at hfloor hceil
  have hnext : x < ((r + 1) * (r + 1) : Nat) := by omega
  constructor
  · have hsquare : ((r * r : Nat) : Int) ≤ x := by omega
    rwa [Int.natCast_mul] at hsquare
  · intro t ht
    by_contra hgreater
    have hsquare : ((r + 1 : Nat) : Int) * (r + 1 : Nat) ≤ t * t :=
      mul_self_le_mul_self (Int.natCast_nonneg _) (by omega)
    rw [Int.natCast_mul] at hnext
    exact absurd (hnext.trans_le (hsquare.trans ht)) (lt_irrefl x)

theorem coerce_sqrt (hk : k.isInteger) (ha : k.Represents a x) :
    ∃ r, k.Represents (k.coerce a.sqrt) r ∧
      (0 ≤ x → IsGreatest {t : Int | t * t ≤ x} r) ∧ (x < 0 → r = 0) := by
  by_cases h0 : 0 ≤ x
  · have hsmall := ha.greatest.trans_lt (greatest_lt_two_pow hk)
    have hroot := coerce_truncate? hk (Word.truncate?_sqrt (ha.integer? hk) h0 hsmall)
    have hgreatest := isGreatest_isqrt h0
    have hsquare := Nat.le_mul_self (Word.isqrt x.toNat)
    have hfloor := Word.isqrt_le x.toNat
    have hrange := ha.greatest
    have hleast := k.zero_range.1
    rw [wrap_of_range (by omega) (by omega)] at hroot
    exact ⟨_, hroot, fun _ => hgreatest, fun hx => absurd h0 (Int.not_le.mpr hx)⟩
  · have hroot := coerce_represents hk a.sqrt
    rw [Word.truncate?_sqrt_negative (ha.integer? hk) (by omega), Option.getD_none, wrap_zero] at hroot
    exact ⟨0, hroot, fun hx => absurd hx h0, fun _ => rfl⟩

end Kind

namespace Processor

variable {p : Processor}

/-- Both divisions leave the quotient toward zero, wrapped into the kind, and zero for a divisor of
zero. A square root leaves the greatest integer whose square is not above its operand, and zero for
a negative one. -/
theorem quotients_and_roots_are_exact (hp : p.Reachable .extended) (hk : p.core.kind.isInteger)
    (h : p.Succeeds) :
    (∀ op ∈ [Arithmetic.div, .intDiv], p.core.mnemonic? = some op.mnemonic →
      ∃ a b x y, p.core.calculation? = some (op.mnemonic, [a, b]) ∧
        p.core.kind.Represents a x ∧ p.core.kind.Represents b y ∧
        p.cycle.2.core.readNamed accumulator =
          .ok (Word.ofInt (p.core.kind.wrap (if y = 0 then 0 else x.tdiv y)))) ∧
    (p.core.mnemonic? = some "SQRT" →
      ∃ a x r, p.core.calculation? = some ("SQRT", [a]) ∧ p.core.kind.Represents a x ∧
        p.cycle.2.core.readNamed accumulator = .ok (Word.ofInt r) ∧
        (0 ≤ x → IsGreatest {t : Int | t * t ≤ x} r) ∧ (x < 0 → r = 0)) := by
  have hs := hp.sound
  constructor
  · intro op hop hm
    obtain ⟨a, b, hoperands, ha, hb, hacc⟩ := cycle_arithmetic hs h hm
    obtain ⟨x, hx⟩ := Kind.exists_represents hk ha
    obtain ⟨y, hy⟩ := Kind.exists_represents hk hb
    obtain ⟨hdiv, hintDiv⟩ := Kind.coerce_div hk hx hy
    refine ⟨a, b, x, y, hoperands, hx, hy, ?_⟩
    rcases List.mem_pair.mp hop with rfl | rfl
    · rw [hacc, ← hdiv.word]
      rfl
    · rw [hacc, ← hintDiv.word]
      rfl
  · intro hm
    obtain ⟨a, hoperands, ha, hacc⟩ := cycle_squareRoot hs h hm
    obtain ⟨x, hx⟩ := Kind.exists_represents hk ha
    obtain ⟨r, hr, hgreatest, hnegative⟩ := Kind.coerce_sqrt hk hx
    refine ⟨a, x, r, hoperands, hx, ?_, hgreatest, hnegative⟩
    rw [hacc, ← hr.word]

theorem least_by_minus_one_wraps :
    ∃ new, create (.ofModel .extended) ⟨some .int32, 8, some ["x"]⟩ = .ok new ∧
      let p := new.after [.registers (.write (.name "x") (Word.ofInt (-2 ^ 31))),
        .memory (.loadWords 0 [Word.ofNat 0x37, Word.ofNat 0, Word.ofInt (-1)])]
      p.core.kind.isInteger ∧ p.Succeeds ∧ p.core.mnemonic? = some Arithmetic.div.mnemonic ∧
        p.cycle.2.core.readNamed accumulator = .ok (Word.ofInt (-2 ^ 31)) ∧
        ∃ a b x y, p.core.calculation? = some (Arithmetic.div.mnemonic, [a, b]) ∧
          p.core.kind.Represents a x ∧ p.core.kind.Represents b y ∧
          Word.ofInt (p.core.kind.wrap (if y = 0 then 0 else x.tdiv y)) = Word.ofInt (-2 ^ 31) := by
  let session : List HostCall := [.registers (.write (.name "x") (Word.ofInt (-2 ^ 31))),
    .memory (.loadWords 0 [Word.ofNat 0x37, Word.ofNat 0, Word.ofInt (-1)])]
  have hruns : (create (.ofModel .extended) ⟨some .int32, 8, some ["x"]⟩).map (fun new =>
      let p : Processor := new.after session
      (decide (p.core.kind.isInteger ∧ p.Succeeds),
        p.core.mnemonic?, p.cycle.2.core.readNamed accumulator)) =
      .ok (true, some "DIV", .ok (Word.ofInt (-2 ^ 31))) := by decide +kernel
  obtain ⟨new, hnew, hruns⟩ := Check.map_eq_ok.mp hruns
  obtain ⟨hfirst, hruns⟩ := Prod.mk.inj hruns
  obtain ⟨hm, hacc⟩ := Prod.mk.inj hruns
  obtain ⟨hk, hsucceeds⟩ := of_decide_eq_true hfirst
  have hp : (new.after session).Reachable .extended := ⟨_, new, session, hnew, rfl⟩
  obtain ⟨a, b, x, y, hoperands, hx, hy, hquotient⟩ :=
    (quotients_and_roots_are_exact hp hk hsucceeds).1 .div (by decide) hm
  exact ⟨new, hnew, hk, hsucceeds, hm, hacc, a, b, x, y, hoperands, hx, hy,
    Except.ok.inj (hquotient.symm.trans hacc)⟩

end Processor

end WordMachine
