import WordMachine.Proofs.Integers

/-!
# Conversion between formats

A pattern is its sign and the magnitude of its datum, so rounding the datum of a pattern gives the
pattern back. The datum of a narrow format is exact in a wide one: a pattern widened and narrowed
again is the same pattern, or the quiet one of a pattern that is no number.
-/

set_option autoImplicit false

namespace WordMachine.Format

variable (f : Format)

theorem fractions_pos : 0 < f.fractions := Nat.two_pow_pos _

theorem signBit_pos : 0 < f.signBit := Nat.mul_pos (Nat.two_pow_pos _) f.fractions_pos

theorem infinity_lt_signBit : f.infinity + f.fractions = f.signBit := by
  rw [infinity, signBit, Nat.sub_mul, Nat.one_mul]
  exact Nat.sub_add_cancel (Nat.le_mul_of_pos_left _ (Nat.two_pow_pos _))

variable {f}

theorem isNegative_withSign {magnitude : Nat} (negative : Bool) (h : magnitude < f.signBit) :
    f.isNegative (f.withSign negative magnitude) = negative := by
  cases negative with
  | false => simp [isNegative, withSign, Nat.div_eq_of_lt h]
  | true =>
    have hone : (f.signBit + magnitude) / f.signBit = 1 := by
      rw [Nat.add_div_left _ f.signBit_pos, Nat.div_eq_of_lt h]
    simp [isNegative, withSign, hone]

theorem withSign_mod {magnitude : Nat} (negative : Bool) (h : magnitude < f.signBit) :
    f.withSign negative magnitude % f.signBit = magnitude := by
  cases negative <;> simp [withSign, Nat.mod_eq_of_lt h]

theorem withSign_fraction (negative : Bool) (magnitude : Nat) :
    f.withSign negative magnitude % f.fractions = magnitude % f.fractions := by
  cases negative <;> simp [withSign, signBit]

theorem withSign_isNegative {pattern : Nat} (h : pattern < 2 * f.signBit) :
    f.withSign (f.isNegative pattern) (pattern % f.signBit) = pattern := by
  have hsplit := Nat.div_add_mod pattern f.signBit
  have hsign : pattern / f.signBit < 2 := Nat.div_lt_of_lt_mul (by rwa [Nat.mul_comm])
  rw [isNegative]
  generalize pattern / f.signBit = b at hsplit hsign ⊢
  obtain rfl | rfl : b = 0 ∨ b = 1 := by omega
  · simpa [withSign] using hsplit
  · simpa [withSign] using hsplit

theorem withSign_lt {magnitude : Nat} (negative : Bool) (h : magnitude < f.signBit) :
    f.withSign negative magnitude < 2 * f.signBit := by
  cases negative <;> simp only [withSign, Bool.false_eq_true, if_false, if_true] <;> omega

theorem decode_withSign {magnitude m : Nat} {q : Int} (negative : Bool)
    (h : magnitude < f.signBit) (hd : f.decode magnitude = .finite false m q) :
    f.decode (f.withSign negative magnitude) = .finite negative m q := by
  simp only [decode, Nat.mod_eq_of_lt h] at hd
  simp only [decode, isNegative_withSign negative h, withSign_mod negative h, withSign_fraction]
  split at hd
  · split at hd <;> cases hd
  · rename_i htop
    rw [if_neg htop]
    split at hd <;> rename_i hfield
    · obtain ⟨-, rfl, rfl⟩ := Datum.finite.inj hd
      rw [if_pos hfield]
    · obtain ⟨-, rfl, rfl⟩ := Datum.finite.inj hd
      rw [if_neg hfield]

theorem magnitude_congr {m n k : Nat} {p q : Int} (hp : 0 ≤ k + p) (hq : 0 ≤ k + q)
    (h : m * 2 ^ (k + p).toNat = n * 2 ^ (k + q).toNat) : f.magnitude m p = f.magnitude n q := by
  have hm : f.magnitude (m * 2 ^ (k + p).toNat) (-k) = f.magnitude m p := by
    rw [magnitude_mul]
    congr 1
    omega
  have hn : f.magnitude (n * 2 ^ (k + q).toNat) (-k) = f.magnitude n q := by
    rw [magnitude_mul]
    congr 1
    omega
  rw [← hm, h, hn]

theorem keptExponent_le {m : Nat} {q : Int} (hm : m < 2 ^ f.precision) (h0 : m ≠ 0)
    (hq : f.leastExponent ≤ q) : f.keptExponent m q ≤ q := by
  have hlog : Nat.log2 m < f.precision := (Nat.log2_lt h0).mpr hm
  simp only [keptExponent]
  omega

theorem magnitude_lt_infinity (hf : 0 < f.precision) {m : Nat} {q : Int}
    (h : (f.keptExponent m q - f.leastExponent).toNat + 2 < 2 ^ f.exponentWidth - 1) :
    f.magnitude m q < f.infinity := by
  have hpos : 0 < f.infinity := Nat.mul_pos (by omega) f.fractions_pos
  by_cases h0 : m = 0
  · simpa [magnitude, h0] using hpos
  · have hpow : 2 * f.fractions = 2 ^ f.precision := by
      rw [fractions, ← Nat.pow_add_one', Nat.sub_add_cancel hf]
    have hdigits := f.keptDigits_le m q
    have hlt : ((f.keptExponent m q - f.leastExponent).toNat + 2) * f.fractions < f.infinity :=
      Nat.mul_lt_mul_of_pos_right h f.fractions_pos
    rw [f.magnitude_of_ne_zero h0]
    rw [Nat.add_mul] at hlt
    omega

theorem decode_magnitude_exact (hf : 0 < f.precision) (hw : 0 < f.exponentWidth) {m : Nat} {q : Int}
    (hm : m < 2 ^ f.precision) (hq : f.leastExponent ≤ q) (h : f.magnitude m q < f.infinity) :
    ∃ (m' : Nat) (q' : Int), f.decode (f.magnitude m q) = .finite false m' q' ∧
      ∃ k : Nat, 0 ≤ k + q ∧ 0 ≤ k + q' ∧ m' * 2 ^ (k + q').toNat = m * 2 ^ (k + q).toNat := by
  by_cases h0 : m = 0
  · have hzero : f.decode 0 = .finite false 0 f.leastExponent := by
      have hwidth : 0 ≠ 2 ^ f.exponentWidth - 1 := by
        have := Nat.one_lt_two_pow (Nat.ne_of_gt hw)
        omega
      simp [decode, isNegative, hwidth]
    rw [h0, magnitude, if_pos rfl, hzero]
    exact ⟨0, _, rfl, (-q).toNat + (-f.leastExponent).toNat, by omega, by omega, by omega⟩
  · obtain ⟨m', c, hd, hvalue⟩ := f.decode_magnitude hf h0 q h
    have he := keptExponent_le hm h0 hq
    rw [keptDigits, if_pos he] at hvalue
    obtain ⟨e, hkept⟩ : ∃ e, f.keptExponent m q = e := ⟨_, rfl⟩
    rw [hkept] at hd he hvalue
    refine ⟨m', _, hd, (-e).toNat, by omega, by omega, ?_⟩
    have hsplit : ((-e).toNat + (e + c)).toNat = c + ((-e).toNat + e).toNat := by omega
    have hsplit' : ((-e).toNat + q).toNat = (q - e).toNat + ((-e).toNat + e).toNat := by omega
    rw [hsplit, hsplit', Nat.pow_add, Nat.pow_add, ← Nat.mul_assoc, ← Nat.mul_assoc, hvalue]

theorem magnitude_decode (hf : 0 < f.precision) {pattern m : Nat} {s : Bool} {q : Int}
    (h : f.decode pattern = .finite s m q) : f.magnitude m q = pattern % f.signBit := by
  have hF := f.fractions_pos
  have hfraction : pattern % f.fractions = pattern % f.signBit % f.fractions :=
    (Nat.mod_mod_of_dvd pattern (Nat.dvd_mul_left _ _)).symm
  have hlt : pattern % f.signBit < 2 ^ f.exponentWidth * f.fractions :=
    Nat.mod_lt _ f.signBit_pos
  simp only [decode, hfraction] at h
  generalize pattern % f.signBit = M at h hlt ⊢
  have hfield : M / f.fractions < 2 ^ f.exponentWidth := (Nat.div_lt_iff_lt_mul hF).mpr hlt
  have hsplit : M / f.fractions * f.fractions + M % f.fractions = M := Nat.div_add_mod' M f.fractions
  have hrest : M % f.fractions < f.fractions := Nat.mod_lt _ hF
  have hfinite : M / f.fractions ≠ 2 ^ f.exponentWidth - 1 → M < f.infinity := by
    intro htop
    exact (Nat.div_lt_iff_lt_mul hF).mp (by omega)
  generalize M / f.fractions = E at h hfield hsplit hfinite
  generalize M % f.fractions = F at h hsplit hrest
  split at h
  · split at h <;> cases h
  · rename_i htop
    have htop := hfinite htop
    split at h <;> rename_i hzero
    · -- below the smallest normal magnitude the fraction is the pattern
      obtain ⟨-, rfl, rfl⟩ := Datum.finite.inj h
      obtain rfl : F = M := by rw [← hsplit, hzero, Nat.zero_mul, Nat.zero_add]
      by_cases h0 : F = 0
      · simp [magnitude, h0]
      · have hlog : Nat.log2 F < f.precision - 1 := (Nat.log2_lt h0).mpr hrest
        have hkept : f.keptExponent F f.leastExponent = f.leastExponent := by
          simp only [keptExponent]
          omega
        rw [f.magnitude_of_ne_zero h0, keptDigits, hkept, if_pos (Int.le_refl _), Int.sub_self,
          Int.toNat_zero, Nat.zero_mul, Nat.zero_add, Nat.pow_zero, Nat.mul_one,
          Nat.min_eq_right (Nat.le_of_lt htop)]
    · obtain ⟨-, rfl, rfl⟩ := Datum.finite.inj h
      have h0 : f.fractions + F ≠ 0 := by omega
      have hlog : Nat.log2 (f.fractions + F) = f.precision - 1 := by
        apply (Nat.log2_eq_iff h0).mpr
        rw [Nat.pow_succ, ← fractions]
        omega
      have hkept : f.keptExponent (f.fractions + F) (f.leastExponent + E - 1) =
          f.leastExponent + E - 1 := by
        simp only [keptExponent, hlog]
        omega
      have hexponent : (f.leastExponent + E - 1 - f.leastExponent).toNat = E - 1 := by omega
      have hvalue : (E - 1) * f.fractions + (f.fractions + F) = M := by
        rw [← Nat.add_assoc, ← Nat.succ_mul, Nat.succ_eq_add_one, Nat.sub_add_cancel (by omega),
          hsplit]
      rw [f.magnitude_of_ne_zero h0, keptDigits, hkept, if_pos (Int.le_refl _), Int.sub_self,
        hexponent, Int.toNat_zero, Nat.pow_zero, Nat.mul_one, hvalue,
        Nat.min_eq_right (Nat.le_of_lt htop)]

theorem decode_finite {pattern m : Nat} {s : Bool} {q : Int} (h : f.decode pattern = .finite s m q) :
    s = f.isNegative pattern ∧ f.leastExponent ≤ q ∧
      q < f.leastExponent + (2 ^ f.exponentWidth : Nat) := by
  have hlt : pattern % f.signBit / f.fractions < 2 ^ f.exponentWidth :=
    (Nat.div_lt_iff_lt_mul f.fractions_pos).mpr (Nat.mod_lt _ f.signBit_pos)
  simp only [decode] at h
  generalize pattern % f.signBit / f.fractions = field at h hlt
  split at h
  · split at h <;> cases h
  · split at h <;> obtain ⟨rfl, -, rfl⟩ := Datum.finite.inj h <;> exact ⟨rfl, by omega, by omega⟩

theorem decode_infinite {pattern : Nat} {s : Bool} (h : f.decode pattern = .infinite s) :
    s = f.isNegative pattern ∧ pattern % f.signBit = f.infinity := by
  have hfraction : pattern % f.fractions = pattern % f.signBit % f.fractions :=
    (Nat.mod_mod_of_dvd pattern (Nat.dvd_mul_left _ _)).symm
  have hsplit := Nat.div_add_mod' (pattern % f.signBit) f.fractions
  simp only [decode, hfraction] at h
  split at h
  · rename_i hfield
    split at h <;> cases h
    rename_i hzero
    rw [hfield, hzero] at hsplit
    exact ⟨rfl, hsplit.symm⟩
  · split at h <;> cases h

theorem decode_nan {fraction : Nat} (negative : Bool) (h0 : fraction ≠ 0)
    (h : fraction < f.fractions) :
    f.decode (f.withSign negative (f.infinity + fraction)) = .nan ∧
      f.isNegative (f.withSign negative (f.infinity + fraction)) = negative ∧
      f.withSign negative (f.infinity + fraction) % f.fractions = fraction := by
  have hlt : f.infinity + fraction < f.signBit := by
    rw [← f.infinity_lt_signBit]
    omega
  have hfield : (f.infinity + fraction) / f.fractions = 2 ^ f.exponentWidth - 1 := by
    rw [infinity, Nat.add_comm, Nat.add_mul_div_right _ _ f.fractions_pos, Nat.div_eq_of_lt h,
      Nat.zero_add]
  have hfraction : f.withSign negative (f.infinity + fraction) % f.fractions = fraction := by
    rw [withSign_fraction, infinity, Nat.add_comm, Nat.add_mul_mod_self_right, Nat.mod_eq_of_lt h]
  refine ⟨?_, isNegative_withSign negative hlt, hfraction⟩
  simp only [decode, withSign_mod negative hlt, hfield, hfraction, if_pos, if_neg h0]

theorem decode_infinity (negative : Bool) :
    f.decode (f.withSign negative f.infinity) = .infinite negative := by
  have hlt : f.infinity < f.signBit := by
    have := f.fractions_pos
    rw [← f.infinity_lt_signBit]
    omega
  have hfield : f.infinity / f.fractions = 2 ^ f.exponentWidth - 1 :=
    Nat.mul_div_cancel _ f.fractions_pos
  have hfraction : f.withSign negative f.infinity % f.fractions = 0 := by
    rw [withSign_fraction]
    exact Nat.mul_mod_left _ _
  simp only [decode, withSign_mod negative hlt, isNegative_withSign negative hlt, hfield, hfraction,
    if_pos]

/-- The fraction that a pattern of no number has in another format. -/
def quietFraction (f g : Format) (fraction : Nat) : Nat :=
  fraction * 2 ^ (g.precision - f.precision) / 2 ^ (f.precision - g.precision) ||| g.fractions / 2

theorem convert_nan {f g : Format} {pattern : Nat} (h : f.decode pattern = .nan) :
    f.convert g pattern = g.withSign (f.isNegative pattern)
      (g.infinity + f.quietFraction g (pattern % f.fractions)) := by
  rw [convert, h]
  rfl

theorem convert_infinite {f g : Format} {pattern : Nat} {s : Bool}
    (h : f.decode pattern = .infinite s) :
    f.convert g pattern = g.withSign (f.isNegative pattern) g.infinity := by
  rw [convert, h]

theorem convert_finite {f g : Format} {pattern m : Nat} {s : Bool} {q : Int}
    (h : f.decode pattern = .finite s m q) :
    f.convert g pattern = g.withSign (f.isNegative pattern) (g.magnitude m q) := by
  rw [convert, h]

theorem quietFraction_lt {f g : Format} (hf : 0 < f.precision) (hg : 1 < g.precision)
    {fraction : Nat} (h : fraction < f.fractions) : f.quietFraction g fraction < g.fractions := by
  apply Nat.or_lt_two_pow
  · apply Nat.div_lt_of_lt_mul
    rw [← Nat.pow_add]
    calc fraction * 2 ^ (g.precision - f.precision)
        < f.fractions * 2 ^ (g.precision - f.precision) :=
          Nat.mul_lt_mul_of_pos_right h (Nat.two_pow_pos _)
      _ = 2 ^ (f.precision - 1 + (g.precision - f.precision)) := (Nat.pow_add 2 _ _).symm
      _ ≤ 2 ^ (f.precision - g.precision + (g.precision - 1)) :=
          Nat.pow_le_pow_right (by omega) (by omega)
  · exact Nat.div_lt_self g.fractions_pos (by decide)

theorem quietFraction_ne_zero {f g : Format} (hg : 1 < g.precision) (fraction : Nat) :
    f.quietFraction g fraction ≠ 0 := by
  have hhalf : 0 < g.fractions / 2 :=
    Nat.div_pos (Nat.le_self_pow (by omega) 2) (by decide)
  exact Nat.ne_of_gt (Nat.lt_of_lt_of_le hhalf Nat.right_le_or)

theorem convert_lt {f g : Format} (hf : 0 < f.precision) (hg : 1 < g.precision) (pattern : Nat) :
    f.convert g pattern < 2 * g.signBit := by
  have hinfinity := g.infinity_lt_signBit
  have hpos := g.fractions_pos
  cases h : f.decode pattern with
  | nan =>
    have hq := quietFraction_lt hf hg (Nat.mod_lt pattern f.fractions_pos)
    rw [convert_nan h]
    exact withSign_lt _ (by omega)
  | infinite s =>
    rw [convert_infinite h]
    exact withSign_lt _ (by omega)
  | finite s m q =>
    have hle := g.magnitude_le_infinity m q
    rw [convert_finite h]
    exact withSign_lt _ (by omega)

theorem narrow_widen {pattern : Nat} (hpattern : pattern < 2 ^ 32)
    (hnumber : binary32.decode pattern ≠ .nan) :
    binary64.convert binary32 (binary32.convert binary64 pattern) = pattern := by
  have hwhole := withSign_isNegative (f := binary32) hpattern
  cases h : binary32.decode pattern with
  | nan => exact absurd h hnumber
  | infinite s =>
    obtain ⟨rfl, hmagnitude⟩ := decode_infinite h
    have hinfinity : binary64.infinity < binary64.signBit := by decide
    rw [convert_infinite h, convert_infinite (decode_infinity _), isNegative_withSign _ hinfinity,
      ← hmagnitude, hwhole]
  | finite s m q =>
    obtain ⟨rfl, hlow, hhigh⟩ := decode_finite h
    have hm : m < 2 ^ 24 := binary32.decode_finite_lt h
    have hleast : binary64.leastExponent = -1074 := by decide
    have hleast' : binary32.leastExponent = -149 := by decide
    have hwidth : (2 ^ binary32.exponentWidth : Nat) = 256 := by decide
    have hfits : binary64.magnitude m q < binary64.infinity := by
      apply magnitude_lt_infinity (by decide)
      have hprecision : (binary64.precision : Int) = 53 := rfl
      have hlog : Nat.log2 m < 24 := by
        by_cases h0 : m = 0
        · rw [h0]
          decide
        · exact (Nat.log2_lt h0).mpr hm
      have hroom : 2 ^ binary64.exponentWidth - 1 = 2047 := by decide
      rw [hroom]
      simp only [keptExponent, hleast, hprecision]
      omega
    have hsign : binary64.magnitude m q < binary64.signBit :=
      Nat.lt_trans hfits (by decide)
    obtain ⟨m', q', hdecode, k, hk, hk', hvalue⟩ :=
      decode_magnitude_exact (f := binary64) (by decide) (by decide)
        (Nat.lt_trans hm (by decide)) (by omega) hfits
    have hback := decode_withSign (binary32.isNegative pattern) hsign hdecode
    rw [convert_finite h, convert_finite hback, isNegative_withSign _ hsign,
      magnitude_congr hk' hk hvalue, magnitude_decode (by decide) h, hwhole]

theorem quietFraction_widen (fraction : Nat) :
    binary32.quietFraction binary64 fraction = fraction <<< 29 ||| 2 ^ 51 := by
  simp [quietFraction, binary32, binary64, fractions, Nat.shiftLeft_eq]

theorem quietFraction_narrow (fraction : Nat) :
    binary64.quietFraction binary32 fraction = fraction >>> 29 ||| 2 ^ 22 := by
  simp [quietFraction, binary32, binary64, fractions, Nat.shiftRight_eq_div_pow]

theorem widen_narrow_widen {pattern : Nat} (hpattern : pattern < 2 ^ 32) :
    binary32.convert binary64 (binary64.convert binary32 (binary32.convert binary64 pattern)) =
      binary32.convert binary64 pattern := by
  by_cases h : binary32.decode pattern = .nan
  · have hfraction := Nat.mod_lt pattern binary32.fractions_pos
    generalize hF : pattern % binary32.fractions = fraction at hfraction
    have hwide := quietFraction_lt (f := binary32) (g := binary64) (by decide) (by decide) hfraction
    have hnarrow := quietFraction_lt (f := binary64) (g := binary32) (by decide) (by decide) hwide
    obtain ⟨hd, hs, hf⟩ := decode_nan (binary32.isNegative pattern)
      (quietFraction_ne_zero (f := binary32) (by decide) fraction) hwide
    obtain ⟨hd', hs', hf'⟩ := decode_nan (binary32.isNegative pattern)
      (quietFraction_ne_zero (f := binary64) (by decide) _) hnarrow
    have hsame : binary32.quietFraction binary64 (binary64.quietFraction binary32
        (binary32.quietFraction binary64 fraction)) = binary32.quietFraction binary64 fraction := by
      have hquiet : (2 ^ 51) >>> 29 = 2 ^ 22 := by decide
      have hquiet' : (2 ^ 22) <<< 29 = 2 ^ 51 := by decide
      have hdropped : fraction <<< 29 >>> 29 = fraction := Nat.shiftLeft_shiftRight fraction 29
      rw [quietFraction_widen, quietFraction_narrow, quietFraction_widen,
        Nat.shiftRight_or_distrib, hdropped, hquiet, Nat.or_assoc, Nat.or_self,
        Nat.shiftLeft_or_distrib, hquiet', Nat.or_assoc, Nat.or_self]
    rw [convert_nan h, hF, convert_nan hd, hs, hf, convert_nan hd', hs', hf', hsame]
  · rw [narrow_widen hpattern h]

end WordMachine.Format
