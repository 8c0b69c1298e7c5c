import WordMachine.Proofs.Coercion

/-!
# Exact arithmetic of words

Sums, differences and products of integers are not rounded up to `2 ^ 53`, zero and its two words
included.
-/

set_option autoImplicit false

namespace WordMachine.Word

variable {a b w : Word} {x y z : Int}

theorem integer?_ofInt_mul {k : Nat} (hz : z.natAbs < 2 ^ 53)
    (h : z.natAbs * 2 ^ k < Address.limit) :
    (ofInt (z * 2 ^ k)).integer? = some (z * 2 ^ k) := by
  have habs : (z * 2 ^ k).natAbs = z.natAbs * 2 ^ k := by
    rw [Int.natAbs_mul, Int.natAbs_pow]
    rfl
  rw [ofInt, habs, integer?_round_mul _ hz h, ← habs, signed_natAbs]

theorem integer?_round_le (s : Bool) {m : Nat} (h : m ≤ 2 ^ 53) :
    (round s m 0).integer? = some (signed s m) := by
  by_cases hlt : m < 2 ^ 53
  · exact integer?_round s hlt
  · -- the one magnitude left is a power of two
    obtain rfl : m = 2 ^ 52 * 2 ^ 1 := by omega
    exact integer?_round_mul s (by decide) (by decide)

theorem integer?_ofInt_le (h : z.natAbs ≤ 2 ^ 53) : (ofInt z).integer? = some z := by
  rw [ofInt, integer?_round_le _ h, signed_natAbs]

theorem integer?_zero (s : Bool) : (zero s).integer? = some 0 := by
  cases s <;> decide +kernel

theorem of_signed_scaled {s : Bool} {m unit : Nat} (hunit : 0 < unit)
    (h : signed s m = x * unit) : m = x.natAbs * unit ∧ signed s x.natAbs = x := by
  have habs : m = x.natAbs * unit := by
    have := congrArg Int.natAbs h
    rwa [natAbs_signed, Int.natAbs_mul, Int.natAbs_natCast] at this
  refine ⟨habs, ?_⟩
  rw [habs, signed_mul] at h
  exact Int.eq_of_mul_eq_mul_right (Int.natCast_ne_zero.mpr (Nat.ne_of_gt hunit)) h

theorem datum_of_zero (h : w.integer? = some 0) : ∃ s q, w.datum = .finite s 0 q := by
  obtain ⟨s, m, q, hd, hvalue⟩ := value_of_integer? h
  have hzero := (of_signed_scaled (Nat.two_pow_pos _) (hvalue (-q).toNat (by omega))).1
  rw [Int.natAbs_zero, Nat.zero_mul] at hzero
  obtain rfl : m = 0 :=
    (Nat.mul_eq_zero.mp hzero).resolve_right (Nat.ne_of_gt (Nat.two_pow_pos _))
  exact ⟨s, q, hd⟩

theorem integer?_add (ha : a.integer? = some x) (hb : b.integer? = some y)
    (h : (x + y).natAbs ≤ 2 ^ 53) : (a.add b).integer? = some (x + y) := by
  by_cases hne : x ≠ 0 ∨ y ≠ 0
  · rw [add_of_integers ha hb hne, integer?_ofInt_le h]
  · obtain ⟨rfl, rfl⟩ : x = 0 ∧ y = 0 := by omega
    obtain ⟨s, p, hda⟩ := datum_of_zero ha
    obtain ⟨t, q, hdb⟩ := datum_of_zero hb
    have hsum : a.add b = zero (s && t) := by
      simp [add, hda, hdb, signed]
    rw [hsum, integer?_zero, Int.add_zero]

theorem toNat_negate (w : Word) : w.negate.bits.toNat = w.bits.toNat ^^^ binary64.signBit :=
  UInt64.toNat_xor w.bits _

theorem isNegative_negate (w : Word) :
    binary64.isNegative w.negate.bits.toNat = !binary64.isNegative w.bits.toNat := by
  have hbit : w.bits.toNat / 2 ^ 63 < 2 := Nat.div_lt_of_lt_mul w.bits.toNat_lt
  have htop : (w.bits.toNat ^^^ 2 ^ 63) / 2 ^ 63 = w.bits.toNat / 2 ^ 63 ^^^ 1 :=
    Nat.xor_div_two_pow
  have hsign : binary64.signBit = 2 ^ 63 := by decide
  rw [toNat_negate, Format.isNegative, Format.isNegative, hsign, htop]
  generalize w.bits.toNat / 2 ^ 63 = bit at hbit
  obtain rfl | rfl : bit = 0 ∨ bit = 1 := by omega
  · rfl
  · rfl

theorem magnitude_negate (w : Word) :
    w.negate.bits.toNat % binary64.signBit = w.bits.toNat % binary64.signBit := by
  have hlow : (w.bits.toNat ^^^ 2 ^ 63) % 2 ^ 63 = w.bits.toNat % 2 ^ 63 ^^^ 0 :=
    Nat.xor_mod_two_pow
  have hsign : binary64.signBit = 2 ^ 63 := by decide
  rw [toNat_negate, hsign, hlow, Nat.xor_zero]

theorem datum_negate {s : Bool} {m : Nat} {q : Int} (h : w.datum = .finite s m q) :
    w.negate.datum = .finite (!s) m q := by
  have hfraction (n : Nat) : n % binary64.fractions = n % binary64.signBit % binary64.fractions :=
    (Nat.mod_mod_of_dvd n (Nat.dvd_mul_left _ _)).symm
  rw [datum, Format.decode, hfraction] at h ⊢
  rw [isNegative_negate, magnitude_negate]
  split at h
  · split at h <;> cases h
  · rename_i hfinite
    rw [if_neg hfinite]
    split at h <;> obtain ⟨rfl, rfl, rfl⟩ := Datum.finite.inj h
    · rename_i hzero
      rw [if_pos hzero]
    · rename_i hzero
      rw [if_neg hzero]

theorem signed_not (s : Bool) (m : Nat) : signed (!s) m = -signed s m := by
  cases s <;> simp [signed]

theorem integer?_negate (h : w.integer? = some x) : w.negate.integer? = some (-x) := by
  cases hd : w.datum with
  | nan => simp [integer?, hd] at h
  | infinite s => simp [integer?, hd] at h
  | finite s m q =>
    simp only [integer?, hd] at h
    simp only [integer?, datum_negate hd, signed_not]
    split at h
    · rename_i hq
      rw [if_pos hq, ← Option.some.inj h]
    · rename_i hq
      rw [if_neg hq]
      split at h
      · rename_i hdvd
        rw [if_pos hdvd, ← Option.some.inj h]
      · cases h

theorem isNan_of_integer? (h : w.integer? = some x) : w.isNan = false := by
  obtain ⟨s, m, q, hd, -⟩ := value_of_integer? h
  simp only [isNan, hd]

theorem integer?_sub (ha : a.integer? = some x) (hb : b.integer? = some y)
    (h : (x - y).natAbs ≤ 2 ^ 53) : (a.sub b).integer? = some (x - y) := by
  rw [sub, isNan_of_integer? hb, if_neg Bool.false_ne_true]
  exact integer?_add ha (integer?_negate hb) h

theorem signed_bne (s t : Bool) (m n : Nat) :
    signed (s != t) (m * n) = signed s m * signed t n := by
  have hproduct := Int.natCast_mul m n
  cases s with
  | false =>
    cases t with
    | false => exact hproduct
    | true => exact (congrArg Neg.neg hproduct).trans (Int.mul_neg ..).symm
  | true =>
    cases t with
    | false => exact (congrArg Neg.neg hproduct).trans (Int.neg_mul ..).symm
    | true => exact hproduct.trans (Int.neg_mul_neg ..).symm

theorem mul_of_integers (ha : a.integer? = some x) (hb : b.integer? = some y) :
    ∃ s, a.mul b = round s (x * y).natAbs 0 ∧ signed s (x * y).natAbs = x * y := by
  obtain ⟨s, m, p, hda, hx⟩ := value_of_integer? ha
  obtain ⟨t, n, q, hdb, hy⟩ := value_of_integer? hb
  have hx := hx (-p).toNat (by omega)
  have hy := hy (-q).toNat (by omega)
  generalize hj : (-p).toNat = j at hx
  generalize hk : (-q).toNat = k at hy
  have hexponent : ((j + k : Nat) + (p + q)).toNat = (j + p).toNat + (k + q).toNat := by omega
  have hproduct : signed (s != t) (m * n * 2 ^ ((j + k : Nat) + (p + q)).toNat) =
      x * y * (2 ^ (j + k) : Nat) := by
    calc signed (s != t) (m * n * 2 ^ ((j + k : Nat) + (p + q)).toNat)
        = signed (s != t) (m * 2 ^ (j + p).toNat * (n * 2 ^ (k + q).toNat)) := by
          rw [hexponent, Nat.pow_add, Nat.mul_mul_mul_comm]
      _ = x * (2 ^ j : Nat) * (y * (2 ^ k : Nat)) := by rw [signed_bne, hx, hy]
      _ = x * y * (2 ^ (j + k) : Nat) := by rw [Nat.pow_add, Int.natCast_mul]; ac_rfl
  obtain ⟨habs, hsigned⟩ := of_signed_scaled (Nat.two_pow_pos _) hproduct
  refine ⟨s != t, ?_, hsigned⟩
  simp only [mul, hda, hdb, round, binary64.magnitude_of_value (by omega) habs]

theorem integer?_mul (ha : a.integer? = some x) (hb : b.integer? = some y)
    (h : (x * y).natAbs ≤ 2 ^ 53) : (a.mul b).integer? = some (x * y) := by
  obtain ⟨s, hmul, hsigned⟩ := mul_of_integers ha hb
  rw [hmul, integer?_round_le s h, hsigned]

end WordMachine.Word
