import Mathlib.Tactic.Linarith
import Mathlib.Tactic.Positivity
import Mathlib.Tactic.Ring
import WordMachine.Proofs.Exact
import WordMachine.Proofs.Order

/-!
# Rounding does not pass a word

Rounding keeps a number on its side of every number that a word stands for, however far it moves it.
So a number between an integer and a word below the next integer has that integer as its integer
part also after it is rounded.
-/

set_option autoImplicit false

namespace WordMachine

section

variable {m d : Nat} {q e : Int}

theorem natCast_scaled (m : Nat) (h : e ≤ q) :
    (m * 2 ^ q : ℚ) = ((m * 2 ^ (q - e).toNat : Nat) : ℚ) * 2 ^ e := by
  rw [Word.zpow_scaled h, Nat.cast_mul, mul_assoc]

theorem le_scaled_iff (h : q ≤ e) :
    (m * 2 ^ q : ℚ) ≤ d * 2 ^ e ↔ m ≤ d * 2 ^ (e - q).toNat := by
  rw [natCast_scaled d h, mul_le_mul_iff_left₀ (zpow_pos two_pos q), Nat.cast_le]

theorem scaled_le_iff (h : q ≤ e) :
    (d * 2 ^ e : ℚ) ≤ m * 2 ^ q ↔ d * 2 ^ (e - q).toNat ≤ m := by
  rw [natCast_scaled d h, mul_le_mul_iff_left₀ (zpow_pos two_pos q), Nat.cast_le]

end

namespace Format

variable (f : Format) {m d : Nat} {q e : Int}

theorem keptDigits_exact (h : f.keptExponent m q ≤ q) :
    (f.keptDigits m q * 2 ^ f.keptExponent m q : ℚ) = m * 2 ^ q := by
  rw [keptDigits, if_pos h, ← natCast_scaled m h]

theorem two_fractions (hf : 0 < f.precision) : 2 ^ f.precision = f.fractions * 2 := by
  rw [fractions, ← Nat.pow_succ, Nat.succ_eq_add_one, Nat.sub_add_cancel hf]

theorem le_keptDigits (hf : 0 < f.precision) (hm : m ≠ 0) (hd : d < 2 ^ f.precision)
    (he : f.leastExponent ≤ e) (h : (d * 2 ^ e : ℚ) ≤ m * 2 ^ q) :
    (d * 2 ^ e : ℚ) ≤ f.keptDigits m q * 2 ^ f.keptExponent m q := by
  by_cases hexact : f.keptExponent m q ≤ q
  · rwa [f.keptDigits_exact hexact]
  by_cases hle : f.keptExponent m q ≤ e
  · rw [scaled_le_iff hle, keptDigits, if_neg hexact]
    rw [scaled_le_iff (by omega)] at h
    apply le_halfEven
    rwa [Nat.mul_assoc, ← Nat.pow_add,
      show (e - f.keptExponent m q).toNat + (f.keptExponent m q - q).toNat = (e - q).toNat by omega]
  · -- the leading digit is kept, and is worth more than the number
    have hlead := f.fractions_le_keptDigits hf hm q (by omega)
    have hpower : 2 ^ 1 ≤ 2 ^ (f.keptExponent m q - e).toNat :=
      Nat.pow_le_pow_right (by decide) (by omega)
    rw [le_scaled_iff (by omega)]
    calc d ≤ f.fractions * 2 ^ 1 := Nat.le_of_lt (f.two_fractions hf ▸ hd)
      _ ≤ f.keptDigits m q * 2 ^ (f.keptExponent m q - e).toNat := Nat.mul_le_mul hlead hpower

theorem log2_lt_of_le (hm : m ≠ 0) (hd : d < 2 ^ f.precision) (h : (m * 2 ^ q : ℚ) ≤ d * 2 ^ e) :
    q + Nat.log2 m < f.precision + e := by
  have hlow : (2 : ℚ) ^ (q + Nat.log2 m) ≤ m * 2 ^ q := by
    rw [add_comm, zpow_add₀ two_ne_zero, zpow_natCast]
    exact mul_le_mul_of_nonneg_right (mod_cast Nat.log2_self_le hm) (zpow_nonneg two_pos.le q)
  have hhigh : (d * 2 ^ e : ℚ) < 2 ^ (f.precision + e) := by
    rw [zpow_add₀ two_ne_zero, zpow_natCast]
    exact mul_lt_mul_of_pos_right (mod_cast hd) (zpow_pos two_pos e)
  exact (zpow_lt_zpow_iff_right₀ one_lt_two).mp (hlow.trans_lt (h.trans_lt hhigh))

theorem keptDigits_le_of_le (hm : m ≠ 0) (hd : d < 2 ^ f.precision) (he : f.leastExponent ≤ e)
    (h : (m * 2 ^ q : ℚ) ≤ d * 2 ^ e) :
    (f.keptDigits m q * 2 ^ f.keptExponent m q : ℚ) ≤ d * 2 ^ e := by
  by_cases hexact : f.keptExponent m q ≤ q
  · rwa [f.keptDigits_exact hexact]
  have hlog := f.log2_lt_of_le hm hd h
  have hle : f.keptExponent m q ≤ e := by
    simp only [keptExponent]
    omega
  rw [le_scaled_iff hle, keptDigits, if_neg hexact]
  rw [le_scaled_iff (by omega)] at h
  apply halfEven_le
  rwa [Nat.mul_assoc, ← Nat.pow_add,
    show (e - f.keptExponent m q).toNat + (f.keptExponent m q - q).toNat = (e - q).toNat by omega]

end Format

namespace Word

theorem number_of_integer? {w : Word} {x : Int} (h : w.integer? = some x) :
    ∃ s m q, w.datum = .finite s m q ∧ (m * 2 ^ q : ℚ) = x.natAbs ∧ signed s x.natAbs = x := by
  obtain ⟨s, m, q, hd, hvalue⟩ := value_of_integer? h
  have hvalue := hvalue (-q).toNat (by omega)
  generalize hk : (-q).toNat = k at hvalue
  obtain ⟨habs, hsigned⟩ := of_signed_scaled (Nat.two_pow_pos _) hvalue
  have hnumber : (m * 2 ^ q : ℚ) = x.natAbs := by
    rw [natCast_scaled m (show -(k : Int) ≤ q by omega),
      show (q - -(k : Int)).toNat = (k + q).toNat by omega, habs, Nat.cast_mul, mul_assoc,
      Nat.cast_pow, Nat.cast_ofNat, zpow_neg, zpow_natCast, mul_inv_cancel₀ (by positivity), mul_one]
  exact ⟨s, m, q, hd, hnumber, hsigned⟩

theorem round_between (s : Bool) {m d d' : Nat} {q e e' : Int} (hm : m ≠ 0)
    (hd : d < 2 ^ 53) (hd' : d' < 2 ^ 53) (he : -1074 ≤ e) (he' : -1074 ≤ e') (htop : e' ≤ 0)
    (hlow : (d * 2 ^ e : ℚ) ≤ m * 2 ^ q) (hhigh : (m * 2 ^ q : ℚ) ≤ d' * 2 ^ e') :
    ∃ m' q', (round s m q).datum = .finite s m' q' ∧
      (d * 2 ^ e : ℚ) ≤ m' * 2 ^ q' ∧ (m' * 2 ^ q' : ℚ) ≤ d' * 2 ^ e' := by
  have hleast : binary64.leastExponent = -1074 := by decide
  have hlog := binary64.log2_lt_of_le hm hd' hhigh
  have hfits : binary64.magnitude m q < binary64.infinity := by
    apply Format.magnitude_lt_infinity (by decide)
    have hwidth : 2 ^ binary64.exponentWidth - 1 = 2047 := rfl
    rw [hwidth]
    simp only [Format.keptExponent, hleast] at hlog ⊢
    omega
  have hsign : binary64.magnitude m q < binary64.signBit := Nat.lt_trans hfits (by decide)
  obtain ⟨m', c, hdecode, hvalue⟩ := binary64.decode_magnitude (by decide) hm q hfits
  have hnumber : (m' * 2 ^ (binary64.keptExponent m q + c) : ℚ) =
      binary64.keptDigits m q * 2 ^ binary64.keptExponent m q := by
    rw [← hvalue, Nat.cast_mul, Nat.cast_pow, Nat.cast_ofNat, zpow_add₀ two_ne_zero, zpow_natCast]
    ring
  refine ⟨m', _, (datum_signed hsign).trans (Format.decode_withSign s hsign hdecode), ?_, ?_⟩
  · rw [hnumber]
    exact binary64.le_keptDigits (by decide) hm hd (hleast ▸ he) hlow
  · rw [hnumber]
    exact binary64.keptDigits_le_of_le hm hd' (hleast ▸ he') hhigh

theorem truncate?_of_between {w : Word} {s : Bool} {m n : Nat} {q : Int}
    (hd : w.datum = .finite s m q) (hlow : (n : ℚ) ≤ m * 2 ^ q) (hhigh : (m * 2 ^ q : ℚ) < n + 1) :
    w.truncate? = some (signed s n) := by
  simp only [truncate?, hd]
  by_cases hq : 0 ≤ q
  · have hwhole := natCast_scaled m hq
    rw [zpow_zero, mul_one, Int.sub_zero] at hwhole
    rw [hwhole] at hlow hhigh
    have hlow : n ≤ m * 2 ^ q.toNat := mod_cast hlow
    have hhigh : m * 2 ^ q.toNat < n + 1 := mod_cast hhigh
    rw [if_pos hq, show m * 2 ^ q.toNat = n by omega]
  · have hwhole (k : Nat) : (k : ℚ) ≤ m * 2 ^ q ↔ k * 2 ^ (-q).toNat ≤ m := by
      have hscaled := scaled_le_iff (d := k) (m := m) (show q ≤ 0 by omega)
      rwa [zpow_zero, mul_one, Int.zero_sub] at hscaled
    have hnext : ¬ ((n + 1 : Nat) : ℚ) ≤ m * 2 ^ q := not_le.mpr (by rwa [Nat.cast_succ])
    rw [hwhole] at hlow hnext
    rw [if_neg hq, Nat.div_eq_of_lt_le hlow (by omega)]

theorem truncate?_round {m n d k : Nat} {q : Int} (s : Bool) (hn : n < 2 ^ 53) (hd : d < 2 ^ 53)
    (hk : k ≤ 1074) (hlow : (n : ℚ) ≤ m * 2 ^ q) (hhigh : (m * 2 ^ q : ℚ) ≤ d * 2 ^ (-k : Int))
    (hnext : d < (n + 1) * 2 ^ k) : (round s m q).truncate? = some (signed s n) := by
  have hbelow : (d * 2 ^ (-k : Int) : ℚ) < n + 1 := by
    have hcast : (d : ℚ) < (n + 1) * 2 ^ k := mod_cast hnext
    rwa [zpow_neg, zpow_natCast, ← div_eq_mul_inv, div_lt_iff₀ (by positivity)]
  by_cases hm : m = 0
  · have hzero : n = 0 := by
      rw [hm, Nat.cast_zero, zero_mul] at hlow
      exact Nat.le_zero.mp (mod_cast hlow)
    have hround : round s 0 q = zero s := rfl
    have hinteger := truncate?_of_integer? (integer?_zero s)
    rw [hm, hzero, hround, hinteger]
    cases s <;> rfl
  · rw [← mul_one (n : ℚ), ← zpow_zero (2 : ℚ)] at hlow
    obtain ⟨m', q', hdatum, hlow', hhigh'⟩ :=
      round_between s hm hn hd (by decide) (by omega) (by omega) hlow hhigh
    rw [zpow_zero, mul_one] at hlow'
    exact truncate?_of_between hdatum hlow' (hhigh'.trans_lt hbelow)

end Word

end WordMachine
