import WordMachine.Proofs.Conversion
import WordMachine.Proofs.Store

/-!
# Stored words

An integer of few enough digits is a word. A word that has been stored is one of the words of its
kind, and storing it once more leaves it as it is.
-/

set_option autoImplicit false

namespace WordMachine

namespace Word

theorem datum_signed {s : Bool} {n : Nat} (h : n < binary64.signBit) :
    (ofMagnitude s n).datum = binary64.decode (binary64.withSign s n) := by
  have hlt : binary64.withSign s n < 2 ^ 64 := Format.withSign_lt s h
  rw [datum, ofMagnitude, UInt64.toNat_ofNat_of_lt' hlt]

theorem integer?_round_mul (s : Bool) {m k : Nat} (hm : m < 2 ^ 53)
    (h : m * 2 ^ k < Address.limit) :
    (round s (m * 2 ^ k) 0).integer? = some (signed s (m * 2 ^ k)) := by
  have hfits : binary64.magnitude (m * 2 ^ k) 0 < binary64.infinity :=
    Address.magnitude_lt_infinity h
  have hscaled : binary64.magnitude (m * 2 ^ k) 0 = binary64.magnitude m k := by
    rw [Format.magnitude_mul, Int.zero_add]
  have hleast : binary64.leastExponent ≤ k := Int.le_trans (by decide) (Int.natCast_nonneg k)
  obtain ⟨m', q, hd, j, hj, hj', hvalue⟩ :=
    Format.decode_magnitude_exact (f := binary64) (by decide) (by decide) hm hleast
      (hscaled ▸ hfits)
  have hsign : binary64.magnitude (m * 2 ^ k) 0 < binary64.signBit := Nat.lt_trans hfits (by decide)
  rw [← hscaled] at hd
  rw [show ((j : Int) + k).toNat = k + j by omega, Nat.pow_add, ← Nat.mul_assoc] at hvalue
  rw [round]
  exact integer?_of_value ((datum_signed hsign).trans (Format.decode_withSign s hsign hd)) hj' hvalue

theorem integer?_round (s : Bool) {m : Nat} (h : m < 2 ^ 53) :
    (round s m 0).integer? = some (signed s m) := by
  have hlimit : m * 2 ^ 0 < Address.limit := by
    rw [Nat.pow_zero, Nat.mul_one]
    exact Nat.lt_trans h (by decide)
  have hinteger := integer?_round_mul s h hlimit
  rwa [Nat.pow_zero, Nat.mul_one] at hinteger

theorem signed_natAbs (z : Int) : signed (decide (z < 0)) z.natAbs = z := by
  by_cases h : z < 0
  · simp only [signed, h, decide_true, if_true]
    omega
  · simp only [signed, h, decide_false, Bool.false_eq_true, if_false]
    omega

theorem integer?_ofInt {z : Int} (h : z.natAbs < 2 ^ 53) : (ofInt z).integer? = some z := by
  rw [ofInt, integer?_round _ h, signed_natAbs]

theorem integer?_ofNat {n : Nat} (h : n < 2 ^ 53) : (ofNat n).integer? = some (n : Int) :=
  integer?_round false h

theorem eq_ofInt {w : Word} {x : Int} (h : w.integer? = some x) (hx : x ≠ 0) : w = ofInt x := by
  obtain ⟨s, m, q, hd, hvalue⟩ := value_of_integer? h
  obtain ⟨hs, -, -⟩ := Format.decode_finite hd
  have hvalue := hvalue (-q).toNat (by omega)
  have hscale : (0 : Int) < (2 ^ (-q).toNat : Nat) := Int.natCast_pos.mpr (Nat.two_pow_pos _)
  have hsign : s = decide (x < 0) := by
    cases s with
    | false =>
      have hnonneg : 0 ≤ x * (2 ^ (-q).toNat : Nat) := by
        rw [← hvalue]
        exact Int.natCast_nonneg _
      have := Int.nonneg_of_mul_nonneg_left hnonneg hscale
      exact (decide_eq_false (by omega)).symm
    | true =>
      have := nonpos_of_integer? hd h
      exact (decide_eq_true (by omega)).symm
  have hmagnitude : binary64.magnitude m q = binary64.magnitude x.natAbs 0 := by
    apply binary64.magnitude_of_value (k := (-q).toNat) (by omega)
    have := congrArg Int.natAbs hvalue
    rwa [natAbs_signed, Int.natAbs_mul, Int.natAbs_natCast] at this
  have hpattern : binary64.withSign (binary64.isNegative w.bits.toNat)
      (w.bits.toNat % binary64.signBit) = w.bits.toNat :=
    Format.withSign_isNegative w.bits.toNat_lt
  rw [← hs, ← Format.magnitude_decode (by decide) hd, hsign, hmagnitude] at hpattern
  rw [ofInt, round, ofMagnitude, hpattern, UInt64.ofNat_toNat]

theorem eq_ofNat {w : Word} {n : Nat} (h : w.integer? = some (n : Int)) (hn : 0 < n) :
    w = ofNat n := by
  rw [eq_ofInt h (by omega), ofInt_natCast]

theorem truncate?_of_integer? {w : Word} {x : Int} (h : w.integer? = some x) :
    w.truncate? = some x := by
  cases hd : w.datum with
  | nan => simp [integer?, hd] at h
  | infinite s => simp [integer?, hd] at h
  | finite s m q =>
    simp only [integer?, hd] at h
    simp only [truncate?, hd]
    split at h
    · rename_i hq
      rwa [if_pos hq]
    · rename_i hq
      rw [if_neg hq]
      split at h
      · exact h
      · cases h

theorem integer?_truncate {w : Word} {x : Int} (h : w.truncate? = some x) :
    w.truncate.integer? = some x := by
  cases hd : w.datum with
  | nan => simp [truncate?, hd] at h
  | infinite s => simp [truncate?, hd] at h
  | finite s m q =>
    simp only [truncate?, hd, Option.some.injEq] at h
    simp only [truncate, hd]
    by_cases hq : 0 ≤ q
    · rw [if_pos hq] at h ⊢
      rw [integer?, hd]
      simp only [if_pos hq, h]
    · rw [if_neg hq] at h ⊢
      have hm : m / 2 ^ (-q).toNat < 2 ^ 53 :=
        Nat.lt_of_le_of_lt (Nat.div_le_self _ _) (datum_finite_lt hd)
      rw [integer?_round s hm, h]

theorem compare?_of_integers {a b : Word} {x y : Int} (ha : a.integer? = some x)
    (hb : b.integer? = some y) : a.compare? b = some (compare x y) := by
  obtain ⟨s, m, p, hda, hx⟩ := value_of_integer? ha
  obtain ⟨t, n, q, hdb, hy⟩ := value_of_integer? hb
  simp only [compare?, hda, hdb, Option.some.injEq]
  generalize he : min p q = e
  have hp : ((-e).toNat + p).toNat = (p - e).toNat + ((-e).toNat + e).toNat := by omega
  have hq : ((-e).toNat + q).toNat = (q - e).toNat + ((-e).toNat + e).toNat := by omega
  have hx := hx (-e).toNat (by omega)
  have hy := hy (-e).toNat (by omega)
  rw [hp, Nat.pow_add, ← Nat.mul_assoc, signed_mul] at hx
  rw [hq, Nat.pow_add, ← Nat.mul_assoc, signed_mul] at hy
  have hunit : (0 : Int) < (2 ^ ((-e).toNat + e).toNat : Nat) :=
    Int.natCast_pos.mpr (Nat.two_pow_pos _)
  have hscale : (0 : Int) < (2 ^ (-e).toNat : Nat) := Int.natCast_pos.mpr (Nat.two_pow_pos _)
  generalize signed s (m * 2 ^ (p - e).toNat) = u at hx ⊢
  generalize signed t (n * 2 ^ (q - e).toNat) = v at hy ⊢
  have hlt : u < v ↔ x < y := by
    rw [← Int.mul_lt_mul_right hunit, hx, hy, Int.mul_lt_mul_right hscale]
  have heq : u = v ↔ x = y := by
    rw [← Int.mul_eq_mul_right_iff (Int.ne_of_gt hunit), hx, hy,
      Int.mul_eq_mul_right_iff (Int.ne_of_gt hscale)]
  simp only [compare, compareOfLessAndEq, hlt, heq]

end Word

namespace Kind

theorem pattern_lt (k : Kind) (w : Word) : k.pattern w < 2 ^ k.bits := by
  have hinteger : ∀ n : Int, ∀ b : Nat, (n % (2 : Int) ^ b).toNat < 2 ^ b := by
    intro n b
    have hpos : (0 : Int) < 2 ^ b := Int.pow_pos (by decide)
    have hlt := Int.emod_lt_of_pos n hpos
    have hnonneg := Int.emod_nonneg n (Int.ne_of_gt hpos)
    have hcast : ((2 ^ b : Nat) : Int) = 2 ^ b := Int.natCast_pow 2 b
    omega
  cases k with
  | float32 => exact Format.convert_lt (g := binary32) (by decide) (by decide) _
  | float64 => exact w.bits.toNat_lt
  | int8 => exact hinteger _ 8
  | uint8 => exact hinteger _ 8
  | int16 => exact hinteger _ 16
  | uint16 => exact hinteger _ 16
  | int32 => exact hinteger _ 32
  | uint32 => exact hinteger _ 32

theorem two_pow_bits (k : Kind) : 256 ^ k.byteWidth = 2 ^ k.bits := by
  rw [bits, Nat.pow_mul]

theorem coerce_eq (k : Kind) (w : Word) : k.coerce w = k.ofPattern (k.pattern w) := by
  rw [coerce, encode, decode, if_pos (Bytes.length_ofNat _ _), Bytes.toNat_ofNat, k.two_pow_bits,
    Nat.mod_eq_of_lt (k.pattern_lt w)]

theorem coerce_float32 {n : Nat} (h : n < 2 ^ 32) :
    float32.coerce (float32.ofPattern n) = float32.ofPattern n := by
  have hwide : binary32.convert binary64 n < 2 ^ 64 :=
    Format.convert_lt (g := binary64) (by decide) (by decide) n
  simp only [coerce_eq, pattern, ofPattern, UInt64.toNat_ofNat_of_lt' hwide,
    Format.widen_narrow_widen h]

theorem coerce_float64 {n : Nat} (h : n < 2 ^ 64) :
    float64.coerce (float64.ofPattern n) = float64.ofPattern n := by
  simp only [coerce_eq, pattern, ofPattern, UInt64.toNat_ofNat_of_lt' h]

def residue (k : Kind) (n : Nat) : Int :=
  if k.isSigned ∧ 2 ^ (k.bits - 1) ≤ n then n - 2 ^ k.bits else n

theorem ofPattern_integer {k : Kind} (hk : k.isInteger) (n : Nat) :
    k.ofPattern n = Word.ofInt (k.residue n) := by
  cases k <;> first | rfl | cases hk

theorem pattern_integer {k : Kind} (hk : k.isInteger) (w : Word) :
    k.pattern w = (w.truncate?.getD 0 % 2 ^ k.bits).toNat := by
  cases k <;> first | rfl | cases hk

theorem natAbs_residue {k : Kind} {n : Nat} (h : n < 2 ^ k.bits) :
    (k.residue n).natAbs ≤ 2 ^ k.bits := by
  have hcast : ((2 ^ k.bits : Nat) : Int) = 2 ^ k.bits := Int.natCast_pow 2 _
  rw [residue]
  split <;> omega

theorem residue_emod {k : Kind} {n : Nat} (h : n < 2 ^ k.bits) :
    (k.residue n % 2 ^ k.bits).toNat = n := by
  have hcast : ((2 ^ k.bits : Nat) : Int) = 2 ^ k.bits := Int.natCast_pow 2 _
  have hmod : (n : Int) % 2 ^ k.bits = n := Int.emod_eq_of_lt (by omega) (by omega)
  rw [residue]
  split
  · rw [Int.sub_emod_right, hmod, Int.toNat_natCast]
  · rw [hmod, Int.toNat_natCast]

theorem bits_integer {k : Kind} (hk : k.isInteger) : k.bits ≤ 32 := by
  cases k <;> first | decide | cases hk

theorem pattern_ofPattern {k : Kind} (hk : k.isInteger) {n : Nat} (h : n < 2 ^ k.bits) :
    k.pattern (k.ofPattern n) = n := by
  have hsmall : (k.residue n).natAbs < 2 ^ 53 :=
    calc (k.residue n).natAbs ≤ 2 ^ k.bits := natAbs_residue h
      _ ≤ 2 ^ 32 := Nat.pow_le_pow_right (by decide) (bits_integer hk)
      _ < 2 ^ 53 := by decide
  have hinteger := Word.truncate?_of_integer? (Word.integer?_ofInt hsmall)
  rw [pattern_integer hk, ofPattern_integer hk, hinteger, Option.getD_some, residue_emod h]

theorem coerce_integer {k : Kind} (hk : k.isInteger) {n : Nat} (h : n < 2 ^ k.bits) :
    k.coerce (k.ofPattern n) = k.ofPattern n := by
  rw [coerce_eq, pattern_ofPattern hk h]

theorem coerce_ofPattern {k : Kind} {n : Nat} (h : n < 2 ^ k.bits) :
    k.coerce (k.ofPattern n) = k.ofPattern n := by
  cases k with
  | float32 => exact coerce_float32 h
  | float64 => exact coerce_float64 h
  | int8 | uint8 | int16 | uint16 | int32 | uint32 => exact coerce_integer rfl h

theorem coerce_coerce (k : Kind) (w : Word) : k.coerce (k.coerce w) = k.coerce w := by
  rw [k.coerce_eq w, coerce_ofPattern (k.pattern_lt w)]

theorem coerce_decode {k : Kind} {bytes : List UInt8} {w : Word} (h : k.decode bytes = .ok w) :
    k.coerce w = w := by
  rw [decode] at h
  split at h
  · rename_i hlength
    have hlt := Bytes.toNat_lt bytes
    rw [hlength, k.two_pow_bits] at hlt
    obtain rfl := Except.ok.inj h
    exact coerce_ofPattern hlt
  · cases h

end Kind

theorem Bank.coerce_word (b : Bank) {i : Nat} (h : (i + 1) * b.kind.byteWidth ≤ b.bytes.size) :
    b.kind.coerce (b.word i) = b.word i :=
  Kind.coerce_decode (b.read_eq_ok i h)

theorem Registers.coerce_word {r : Registers} (hr : r.WellFormed) {i : Nat} (hi : i < r.size) :
    r.kind.coerce (r.word i) = r.word i :=
  r.bank.coerce_word (r.bank.word_lies_in hi hr.size_bytes)

theorem Memory.coerce_read {m : Memory} {a : Nat} {w : Word} (h : m.read a = .ok w) :
    m.kind.coerce w = w := by
  obtain ⟨b, -, hb⟩ := Check.bind_eq_ok.mp h
  exact Kind.coerce_decode hb

end WordMachine
