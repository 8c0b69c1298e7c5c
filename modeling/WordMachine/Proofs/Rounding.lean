import WordMachine.Word

/-!
# The value of a rounded pattern

Rounding an exact `m * 2 ^ q` keeps a number of digits from one exponent on. Unless it overflows,
the pattern it answers decodes to just these digits, also where a carry has raised the exponent.
-/

set_option autoImplicit false

namespace WordMachine

theorem halfEven_le {m k n : Nat} (h : m ≤ n * 2 ^ k) : halfEven m k ≤ n := by
  have hp : 0 < 2 ^ k := Nat.two_pow_pos k
  have hm := Nat.div_add_mod m (2 ^ k)
  have hr := Nat.mod_lt m hp
  have hn : m / 2 ^ k ≤ n := Nat.div_le_of_le_mul (by rwa [Nat.mul_comm])
  simp only [halfEven]
  split
  · rename_i hup
    have hlt : 2 ^ k * (m / 2 ^ k) < 2 ^ k * n := by
      rw [Nat.mul_comm (2 ^ k) n]
      omega
    exact Nat.lt_of_mul_lt_mul_left hlt
  · exact hn

theorem le_halfEven {m k n : Nat} (h : n * 2 ^ k ≤ m) : n ≤ halfEven m k := by
  have hn : n ≤ m / 2 ^ k := (Nat.le_div_iff_mul_le (Nat.two_pow_pos k)).mpr h
  simp only [halfEven]
  split <;> omega

theorem halfEven_mul (m k j : Nat) : halfEven (m * 2 ^ j) (k + j) = halfEven m k := by
  have hp : 0 < 2 ^ j := Nat.two_pow_pos j
  have hhalf : 2 * (m % 2 ^ k * 2 ^ j) = 2 * (m % 2 ^ k) * 2 ^ j := (Nat.mul_assoc _ _ _).symm
  have hlt : 2 ^ k * 2 ^ j < 2 * (m % 2 ^ k) * 2 ^ j ↔ 2 ^ k < 2 * (m % 2 ^ k) :=
    Nat.mul_lt_mul_right hp
  have heq : 2 * (m % 2 ^ k) * 2 ^ j = 2 ^ k * 2 ^ j ↔ 2 * (m % 2 ^ k) = 2 ^ k :=
    Nat.mul_left_inj (Nat.ne_of_gt hp)
  simp only [halfEven, Nat.pow_add, Nat.mul_mod_mul_right, Nat.mul_div_mul_right _ _ hp, hhalf, hlt,
    heq]

theorem log2_mul_two_pow {m : Nat} (hm : m ≠ 0) (j : Nat) :
    Nat.log2 (m * 2 ^ j) = Nat.log2 m + j := by
  have hp : 0 < 2 ^ j := Nat.two_pow_pos j
  have hlow : 2 ^ Nat.log2 m ≤ m := Nat.log2_self_le hm
  have hhigh : m < 2 ^ (Nat.log2 m + 1) := Nat.lt_log2_self
  apply (Nat.log2_eq_iff (Nat.mul_ne_zero hm (Nat.ne_of_gt hp))).mpr
  constructor
  · rw [Nat.pow_add]
    exact Nat.mul_le_mul_right _ hlow
  · rw [Nat.add_right_comm, Nat.pow_add 2 (Nat.log2 m + 1)]
    exact Nat.mul_lt_mul_of_pos_right hhigh hp

namespace Format

variable (f : Format)

/-- The digits that rounding `m * 2 ^ q` keeps, counted in the last place kept. -/
def keptDigits (m : Nat) (q : Int) : Nat :=
  let e := f.keptExponent m q
  if e ≤ q then m * 2 ^ (q - e).toNat else halfEven m (e - q).toNat

theorem magnitude_of_ne_zero {m : Nat} (hm : m ≠ 0) (q : Int) :
    f.magnitude m q = min f.infinity
      ((f.keptExponent m q - f.leastExponent).toNat * f.fractions + f.keptDigits m q) := by
  rw [magnitude, if_neg hm]
  rfl

theorem magnitude_le_infinity (m : Nat) (q : Int) : f.magnitude m q ≤ f.infinity := by
  by_cases hm : m = 0
  · simp [magnitude, hm]
  · rw [f.magnitude_of_ne_zero hm]
    exact Nat.min_le_left _ _

theorem leastExponent_le_keptExponent (m : Nat) (q : Int) :
    f.leastExponent ≤ f.keptExponent m q := by
  simp only [keptExponent]
  omega

theorem keptDigits_le (m : Nat) (q : Int) :
    f.keptDigits m q ≤ 2 ^ f.precision := by
  have hlog : m < 2 ^ (Nat.log2 m + 1) := Nat.lt_log2_self
  have he : q + Nat.log2 m + 1 - f.precision ≤ f.keptExponent m q := by
    simp only [keptExponent]
    omega
  simp only [keptDigits]
  split
  · have ht : Nat.log2 m + 1 + (q - f.keptExponent m q).toNat ≤ f.precision := by omega
    calc m * 2 ^ (q - f.keptExponent m q).toNat
        ≤ 2 ^ (Nat.log2 m + 1) * 2 ^ (q - f.keptExponent m q).toNat :=
          Nat.mul_le_mul_right _ (Nat.le_of_lt hlog)
      _ = 2 ^ (Nat.log2 m + 1 + (q - f.keptExponent m q).toNat) := (Nat.pow_add 2 _ _).symm
      _ ≤ 2 ^ f.precision := Nat.pow_le_pow_right (by omega) ht
  · apply halfEven_le
    calc m ≤ 2 ^ (Nat.log2 m + 1) := Nat.le_of_lt hlog
      _ ≤ 2 ^ (f.precision + (f.keptExponent m q - q).toNat) :=
          Nat.pow_le_pow_right (by omega) (by omega)
      _ = 2 ^ f.precision * 2 ^ (f.keptExponent m q - q).toNat := Nat.pow_add 2 _ _

theorem fractions_le_keptDigits (hf : 0 < f.precision) {m : Nat} (hm : m ≠ 0) (q : Int)
    (h : f.leastExponent < f.keptExponent m q) : f.fractions ≤ f.keptDigits m q := by
  have hlog : 2 ^ Nat.log2 m ≤ m := Nat.log2_self_le hm
  have he : f.keptExponent m q = q + Nat.log2 m + 1 - f.precision := by
    simp only [keptExponent] at h ⊢
    omega
  simp only [keptDigits, fractions]
  split
  · calc 2 ^ (f.precision - 1)
        ≤ 2 ^ (Nat.log2 m + (q - f.keptExponent m q).toNat) :=
          Nat.pow_le_pow_right (by omega) (by omega)
      _ = 2 ^ Nat.log2 m * 2 ^ (q - f.keptExponent m q).toNat := Nat.pow_add 2 _ _
      _ ≤ m * 2 ^ (q - f.keptExponent m q).toNat := Nat.mul_le_mul_right _ hlog
  · apply le_halfEven
    calc 2 ^ (f.precision - 1) * 2 ^ (f.keptExponent m q - q).toNat
        = 2 ^ (f.precision - 1 + (f.keptExponent m q - q).toNat) := (Nat.pow_add 2 _ _).symm
      _ ≤ 2 ^ Nat.log2 m := Nat.pow_le_pow_right (by omega) (by omega)
      _ ≤ m := hlog

theorem keptExponent_mul {m : Nat} (hm : m ≠ 0) (j : Nat) (q : Int) :
    f.keptExponent (m * 2 ^ j) q = f.keptExponent m (q + j) := by
  simp only [keptExponent, log2_mul_two_pow hm]
  congr 1
  omega

theorem keptDigits_mul {m : Nat} (hm : m ≠ 0) (j : Nat) (q : Int) :
    f.keptDigits (m * 2 ^ j) q = f.keptDigits m (q + j) := by
  simp only [keptDigits, f.keptExponent_mul hm]
  obtain ⟨e, he⟩ : ∃ e, f.keptExponent m (q + j) = e := ⟨_, rfl⟩
  rw [he]
  by_cases hlow : e ≤ q
  · rw [if_pos hlow, if_pos (by omega), Nat.mul_assoc, ← Nat.pow_add]
    congr 2
    omega
  · rw [if_neg hlow]
    by_cases hhigh : e ≤ q + j
    · -- the digits dropped are among those that the power of two added
      have hj : j = (q + j - e).toNat + (e - q).toNat := by omega
      rw [if_pos hhigh]
      conv => lhs; rw [hj, Nat.pow_add, ← Nat.mul_assoc, halfEven_exact]
    · have hdropped : (e - q).toNat = (e - (q + j)).toNat + j := by omega
      rw [if_neg hhigh, hdropped, halfEven_mul]

theorem magnitude_mul (m j : Nat) (q : Int) :
    f.magnitude (m * 2 ^ j) q = f.magnitude m (q + j) := by
  by_cases hm : m = 0
  · rw [hm, Nat.zero_mul]
    rfl
  · have hmul : m * 2 ^ j ≠ 0 := Nat.mul_ne_zero hm (Nat.ne_of_gt (Nat.two_pow_pos j))
    rw [f.magnitude_of_ne_zero hmul, f.magnitude_of_ne_zero hm, f.keptExponent_mul hm,
      f.keptDigits_mul hm]

theorem magnitude_of_value {m n k : Nat} {q : Int} (hq : 0 ≤ k + q)
    (h : m * 2 ^ (k + q).toNat = n * 2 ^ k) : f.magnitude m q = f.magnitude n 0 := by
  have hm : f.magnitude (m * 2 ^ (k + q).toNat) (-k) = f.magnitude m q := by
    rw [magnitude_mul]
    congr 1
    omega
  have hn : f.magnitude (n * 2 ^ k) (-k) = f.magnitude n 0 := by
    rw [magnitude_mul]
    congr 1
    omega
  rw [← hm, h, hn]

theorem decode_finite_lt {pattern : Nat} {s : Bool} {m : Nat} {q : Int}
    (h : f.decode pattern = .finite s m q) : m < 2 * f.fractions := by
  have hr : pattern % f.fractions < f.fractions := Nat.mod_lt _ (Nat.two_pow_pos _)
  simp only [decode] at h
  split at h
  · split at h <;> cases h
  · split at h <;> cases h <;> omega

theorem decode_digits {E d : Nat} (hd : d ≤ 2 * f.fractions) (hE : E = 0 ∨ f.fractions ≤ d)
    (h : E * f.fractions + d < f.infinity) :
    ∃ m c : Nat, f.decode (E * f.fractions + d) = .finite false m (f.leastExponent + E + c) ∧
      m * 2 ^ c = d := by
  have hF : 0 < f.fractions := Nat.two_pow_pos _
  have hsign : E * f.fractions + d < f.signBit :=
    Nat.lt_of_lt_of_le h (Nat.mul_le_mul_right _ (Nat.sub_le _ _))
  have hneg : f.isNegative (E * f.fractions + d) = false := by
    simp [isNegative, Nat.div_eq_of_lt hsign]
  have hfield : (E * f.fractions + d) / f.fractions = E + d / f.fractions := by
    rw [Nat.add_comm, Nat.add_mul_div_right _ _ hF, Nat.add_comm]
  have hfrac : (E * f.fractions + d) % f.fractions = d % f.fractions := by
    rw [Nat.add_comm, Nat.add_mul_mod_self_right]
  have htop : E + d / f.fractions ≠ 2 ^ f.exponentWidth - 1 := by
    rw [← hfield]
    exact Nat.ne_of_lt ((Nat.div_lt_iff_lt_mul hF).mpr h)
  simp only [decode, hneg, Nat.mod_eq_of_lt hsign, hfield, hfrac, if_neg htop]
  by_cases hlow : d < f.fractions
  · have hE0 : E = 0 := by omega
    refine ⟨d, 0, ?_, by omega⟩
    simp [hE0, Nat.div_eq_of_lt hlow, Nat.mod_eq_of_lt hlow]
  · by_cases hhigh : d < 2 * f.fractions
    · have hq : d / f.fractions = 1 := by
        rw [Nat.div_eq_sub_div hF (by omega), Nat.div_eq_of_lt (by omega)]
      have hr : d % f.fractions = d - f.fractions := by
        rw [Nat.mod_eq_sub_mod (by omega), Nat.mod_eq_of_lt (by omega)]
      refine ⟨d, 0, ?_, by omega⟩
      rw [hq, hr, if_neg (by omega)]
      congr 1 <;> omega
    · have hcarry : d = 2 * f.fractions := by omega
      refine ⟨f.fractions, 1, ?_, by omega⟩
      rw [hcarry, Nat.mul_div_cancel _ hF, Nat.mul_mod_left, if_neg (by omega)]
      congr 1
      omega

theorem decode_magnitude (hf : 0 < f.precision) {m : Nat} (hm : m ≠ 0) (q : Int)
    (h : f.magnitude m q < f.infinity) :
    ∃ m' c : Nat, f.decode (f.magnitude m q) = .finite false m' (f.keptExponent m q + c) ∧
      m' * 2 ^ c = f.keptDigits m q := by
  have hle := f.leastExponent_le_keptExponent m q
  have hpow : 2 * f.fractions = 2 ^ f.precision := by
    rw [fractions, ← Nat.pow_add_one', Nat.sub_add_cancel hf]
  have hdigits := f.keptDigits_le m q
  have hlead : (f.keptExponent m q - f.leastExponent).toNat = 0 ∨
      f.fractions ≤ f.keptDigits m q := by
    by_cases he : f.leastExponent < f.keptExponent m q
    · exact Or.inr (f.fractions_le_keptDigits hf hm q he)
    · exact Or.inl (by omega)
  rw [f.magnitude_of_ne_zero hm] at h ⊢
  rw [Nat.min_eq_right (by omega)] at h ⊢
  obtain ⟨m', c, hdecode, hvalue⟩ := f.decode_digits (hpow ▸ hdigits) hlead h
  refine ⟨m', c, ?_, hvalue⟩
  rw [hdecode]
  congr 1
  omega

end Format

end WordMachine
