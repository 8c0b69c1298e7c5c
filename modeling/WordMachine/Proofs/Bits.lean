import Mathlib.Data.BitVec
import WordMachine.Proofs.Calculation
import WordMachine.Proofs.Exact
import WordMachine.Proofs.Residue

/-!
# Bits of stored words

Bitwise operators work on 64 bits, and shifts on at most 63 places, whatever the kind. None of the
bits that are added and dropped again, nor the word in between, makes a difference to the bits that
an integer kind stores.
-/

set_option autoImplicit false

namespace WordMachine

namespace Kind

variable {k : Kind} {a b w : Word} {x y : Int}

theorem toInteger_of_represents (hk : k.isInteger) (h : k.Represents w x) :
    toInteger w = Int64.ofInt x := by
  have hsmall := h.natAbs_le hk
  have hclamped : max (-2 ^ 63) (min x (2 ^ 63 - 1)) = x := by omega
  rw [toInteger, Word.truncate?_of_integer? (h.integer? hk)]
  exact congrArg Int64.ofInt hclamped

theorem ofInt_congr {n : Nat} (h : x ≡ y [ZMOD 2 ^ n]) : BitVec.ofInt n x = BitVec.ofInt n y := by
  have hcast : ((2 ^ n : Nat) : Int) = 2 ^ n := Int.natCast_pow 2 n
  apply BitVec.eq_of_toNat_eq
  rw [BitVec.toNat_ofInt, BitVec.toNat_ofInt, hcast, h]

theorem toInt_ofInt_small {m : Nat} (hm : 34 ≤ m) (hx : x.natAbs ≤ 2 ^ 32) :
    (BitVec.ofInt m x).toInt = x := by
  have hroom : 2 ^ 34 ≤ 2 ^ m := Nat.pow_le_pow_right (by decide) hm
  rw [BitVec.toInt_ofInt]
  exact Int.bmod_eq_of_le_mul_two (by omega) (by omega)

theorem signExtend_ofInt {m : Nat} (hm : 34 ≤ m) (hx : x.natAbs ≤ 2 ^ 32) (n : Nat) :
    (BitVec.ofInt m x).signExtend n = BitVec.ofInt n x := by
  rw [BitVec.signExtend, toInt_ofInt_small hm hx]

def Extends (f : ∀ n, BitVec n → BitVec n → BitVec n) : Prop :=
  ∀ {m n : Nat} (u v : BitVec m), 0 < m →
    (f m u v).signExtend n = f n (u.signExtend n) (v.signExtend n)

section

variable {f : ∀ n, BitVec n → BitVec n → BitVec n} (hf : Extends f)
include hf

theorem operator_small (hx : x.natAbs ≤ 2 ^ 32) (hy : y.natAbs ≤ 2 ^ 32) :
    (f 64 (BitVec.ofInt 64 x) (BitVec.ofInt 64 y)).toInt.natAbs ≤ 2 ^ 33 := by
  have hnarrow : f 64 (BitVec.ofInt 64 x) (BitVec.ofInt 64 y) =
      (f 34 (BitVec.ofInt 34 x) (BitVec.ofInt 34 y)).signExtend 64 := by
    rw [hf _ _ (by decide), signExtend_ofInt (by decide) hx, signExtend_ofInt (by decide) hy]
  rw [hnarrow, BitVec.toInt_signExtend_of_le (by decide)]
  have hlow := BitVec.le_toInt (f 34 (BitVec.ofInt 34 x) (BitVec.ofInt 34 y))
  have hhigh := BitVec.toInt_lt (x := f 34 (BitVec.ofInt 34 x) (BitVec.ofInt 34 y))
  omega

theorem coerce_operator (hk : k.isInteger) (ha : k.Represents a x) (hb : k.Represents b y)
    {n : Int64} (hn : n.toBitVec = f 64 (toInteger a).toBitVec (toInteger b).toBitVec) :
    ∃ z, k.Represents (k.coerce (ofInteger n)) z ∧
      BitVec.ofInt k.bits z = f k.bits (BitVec.ofInt k.bits x) (BitVec.ofInt k.bits y) := by
  have hx := ha.natAbs_le hk
  have hy := hb.natAbs_le hk
  rw [toInteger_of_represents hk ha, toInteger_of_represents hk hb, Int64.toBitVec_ofInt,
    Int64.toBitVec_ofInt] at hn
  have hsmall := operator_small hf hx hy
  rw [← hn, Int64.toInt_toBitVec] at hsmall
  have hword : (ofInteger n).integer? = some n.toInt :=
    Word.integer?_ofInt (Nat.lt_of_le_of_lt hsmall (by decide))
  refine ⟨_, coerce_integer? hk hword, ?_⟩
  calc BitVec.ofInt k.bits (k.wrap n.toInt) = n.toBitVec.signExtend k.bits := by
        rw [ofInt_congr (k.wrap_modEq _), BitVec.signExtend, Int64.toInt_toBitVec]
    _ = f k.bits (BitVec.ofInt k.bits x) (BitVec.ofInt k.bits y) := by
        rw [hn, hf _ _ (by decide), signExtend_ofInt (by decide) hx, signExtend_ofInt (by decide) hy]

end

def places (y : Int) : Nat := min y.toNat 63

theorem shiftAmount_eq (hy : y.natAbs ≤ 2 ^ 32) :
    Bitwise.shiftAmount (Int64.ofInt y) = Int64.ofInt (places y) := by
  have hround : (Int64.ofInt y).toInt = y := by
    rw [Int64.toInt_ofInt]
    exact Int.bmod_eq_of_le_mul_two (by simp [Int64.size]; omega) (by simp [Int64.size]; omega)
  have hplaces : max 0 (min y 63) = (places y : Int) := by
    rw [places]
    omega
  rw [Bitwise.shiftAmount, hround, hplaces]

theorem places_lt (y : Int) : places y < 64 :=
  Nat.lt_succ_of_le (Nat.min_le_right _ _)

theorem places_smod (y : Int) : ((Int64.ofInt (places y)).toBitVec.smod 64).toNat = places y := by
  have hcast : (Int64.ofInt (places y)).toBitVec = BitVec.ofNat 64 (places y) := rfl
  have hpattern : (BitVec.ofNat 64 (places y)).toNat = places y :=
    Nat.mod_eq_of_lt (Nat.lt_trans (places_lt y) (by decide))
  have hsign : (BitVec.ofNat 64 (places y)).msb = false := by
    rw [BitVec.msb_eq_false_iff_two_mul_lt, hpattern]
    exact Nat.lt_trans (Nat.mul_lt_mul_of_pos_left (places_lt y) (by decide)) (by decide)
  have hwidth : (64 : BitVec 64).msb = false := by decide
  rw [hcast, BitVec.smod, hsign, hwidth]
  change (BitVec.ofNat 64 (places y) % 64).toNat = places y
  rw [BitVec.toNat_umod, hpattern]
  exact Nat.mod_eq_of_lt (places_lt y)

theorem shiftLeft_places (hk : k.isInteger) (x y : Int) :
    x * 2 ^ places y ≡ x * 2 ^ y.toNat [ZMOD 2 ^ k.bits] := by
  have hbits := bits_integer hk
  by_cases h : y.toNat ≤ 63
  · rw [places, Nat.min_eq_left h]
  · have hzero {n : Nat} (hn : k.bits ≤ n) : x * 2 ^ n ≡ 0 [ZMOD 2 ^ k.bits] :=
      Int.modEq_zero_iff_dvd.mpr (Dvd.dvd.mul_left (pow_dvd_pow 2 hn) x)
    exact (hzero (by rw [places]; omega)).trans (hzero (by omega)).symm

theorem shiftRight_places (hx : x.natAbs ≤ 2 ^ 32) (y : Int) :
    x / 2 ^ places y = x / 2 ^ y.toNat := by
  by_cases h : y.toNat ≤ 63
  · rw [places, Nat.min_eq_left h]
  · -- past its digits only the sign of a number is left
    have hsign {n : Nat} (hn : 63 ≤ n) : x / 2 ^ n = if x < 0 then -1 else 0 := by
      have hroom : (2 : Int) ^ 63 ≤ 2 ^ n := pow_le_pow_right₀ (by decide) hn
      split
      · exact Int.ediv_eq_neg_one_of_neg_of_le (by omega) (by omega)
      · exact Int.ediv_eq_zero_of_lt (by omega) (by omega)
    rw [hsign (by rw [places]; omega), hsign (by omega)]

theorem toInt_shiftLeft (hy : y.natAbs ≤ 2 ^ 32) :
    (Bitwise.shiftLeft.apply (Int64.ofInt x) (Int64.ofInt y)).toInt =
      (x * 2 ^ places y).bmod (2 ^ 64) := by
  have hpower : BitVec.twoPow 64 (places y) = BitVec.ofInt 64 (2 ^ places y) := by
    apply BitVec.eq_of_toNat_eq
    rw [BitVec.toNat_twoPow, BitVec.toNat_ofInt]
    exact (Int.toNat_natCast _).symm
  rw [Bitwise.apply, shiftAmount_eq hy, ← Int64.toInt_toBitVec, Int64.toBitVec_shiftLeft,
    BitVec.shiftLeft_eq', places_smod, Int64.toBitVec_ofInt, BitVec.shiftLeft_eq_mul_twoPow, hpower,
    ← BitVec.ofInt_mul, BitVec.toInt_ofInt]

theorem toInt_shiftRight (hx : x.natAbs ≤ 2 ^ 32) (hy : y.natAbs ≤ 2 ^ 32) :
    (Bitwise.shiftRight.apply (Int64.ofInt x) (Int64.ofInt y)).toInt = x / 2 ^ places y := by
  rw [Bitwise.apply, shiftAmount_eq hy, ← Int64.toInt_toBitVec, Int64.toBitVec_shiftRight,
    BitVec.sshiftRight_eq', places_smod, Int64.toBitVec_ofInt, BitVec.toInt_sshiftRight,
    toInt_ofInt_small (by decide) hx, Int.shiftRight_eq_div_pow, Int.natCast_pow]
  rfl

theorem integer?_shifted (hx : x.natAbs ≤ 2 ^ 32) (c : Nat) :
    (Word.ofInt ((x * 2 ^ c).bmod (2 ^ 64))).integer? = some ((x * 2 ^ c).bmod (2 ^ 64)) := by
  by_cases hc : c < 11
  · have hpower : 2 ^ c ≤ 2 ^ 10 := Nat.pow_le_pow_right (by decide) (by omega)
    have habs : (x * 2 ^ c).natAbs ≤ 2 ^ 32 * 2 ^ 10 := by
      rw [Int.natAbs_mul, Int.natAbs_pow]
      exact Nat.mul_le_mul hx hpower
    rw [Int.bmod_eq_of_le_mul_two (by omega) (by omega)]
    exact Word.integer?_ofInt (by omega)
  · -- the lowest eleven bits are empty, and there are 53 more at most
    have hempty : (2 ^ 11 : Int) ∣ (x * 2 ^ c).bmod (2 ^ 64) := by
      have hshift : (2 ^ 11 : Int) ∣ x * 2 ^ c := Dvd.dvd.mul_left (pow_dvd_pow 2 (by omega)) x
      have hwhole : (2 ^ 11 : Int) ∣ (x * 2 ^ c).bmod (2 ^ 64) - x * 2 ^ c :=
        Int.dvd_trans (by decide) Int.dvd_bmod_sub_self
      exact (Int.dvd_iff_dvd_of_dvd_sub hwhole).mpr hshift
    obtain ⟨t, ht⟩ := hempty
    have hlow := @Int.le_bmod (x * 2 ^ c) (2 ^ 64) (by decide)
    have hhigh := @Int.bmod_lt (x * 2 ^ c) (2 ^ 64) (by decide)
    rw [ht, Int.mul_comm]
    exact Word.integer?_ofInt_mul (by omega) (by simp only [Address.limit]; omega)

theorem coerce_shiftLeft (hk : k.isInteger) (ha : k.Represents a x) (hb : k.Represents b y) :
    k.Represents (k.coerce (ofInteger (Bitwise.shiftLeft.apply (toInteger a) (toInteger b))))
      (k.wrap (x * 2 ^ y.toNat)) := by
  have hword : (ofInteger (Bitwise.shiftLeft.apply (toInteger a) (toInteger b))).integer? =
      some ((x * 2 ^ places y).bmod (2 ^ 64)) := by
    rw [ofInteger, toInteger_of_represents hk ha, toInteger_of_represents hk hb,
      toInt_shiftLeft (hb.natAbs_le hk), integer?_shifted (ha.natAbs_le hk)]
  have hdropped : (x * 2 ^ places y).bmod (2 ^ 64) ≡ x * 2 ^ places y [ZMOD 2 ^ k.bits] :=
    Int.ModEq.of_dvd (pow_dvd_pow 2 (Nat.le_trans (bits_integer hk) (by decide))) Int.bmod_emod
  rw [← wrap_congr (hdropped.trans (shiftLeft_places hk x y))]
  exact coerce_integer? hk hword

theorem ediv_between (x : Int) {d : Int} (hd : 0 < d) : min x 0 ≤ x / d ∧ x / d ≤ max x 0 := by
  by_cases h0 : 0 ≤ x
  · have hlow := Int.ediv_nonneg h0 (Int.le_of_lt hd)
    have hhigh := Int.ediv_le_self d h0
    omega
  · have hmul : x * d ≤ x * 1 := Int.mul_le_mul_of_nonpos_left (by omega) hd
    have hlow := (Int.le_ediv_iff_mul_le hd).mpr (Int.mul_one x ▸ hmul)
    have hhigh := Int.ediv_neg_of_neg_of_pos (Int.not_le.mp h0) hd
    omega

theorem coerce_shiftRight (hk : k.isInteger) (ha : k.Represents a x) (hb : k.Represents b y) :
    k.Represents (k.coerce (ofInteger (Bitwise.shiftRight.apply (toInteger a) (toInteger b))))
      (x / 2 ^ y.toNat) := by
  have hbetween := ediv_between x (d := 2 ^ y.toNat) (Int.pow_pos (by decide))
  have hzero := k.zero_range
  have hleast := ha.least
  have hgreatest := ha.greatest
  have hx := ha.natAbs_le hk
  have hword : (ofInteger (Bitwise.shiftRight.apply (toInteger a) (toInteger b))).integer? =
      some (x / 2 ^ y.toNat) := by
    rw [ofInteger, toInteger_of_represents hk ha, toInteger_of_represents hk hb,
      toInt_shiftRight hx (hb.natAbs_le hk), shiftRight_places hx, Word.integer?_ofInt (by omega)]
  rw [← wrap_of_range (k := k) (x := x / 2 ^ y.toNat) (by omega) (by omega)]
  exact coerce_integer? hk hword

end Kind

theorem Bitwise.extends_and : Kind.Extends fun _ u v => u &&& v :=
  fun _ _ _ => BitVec.signExtend_and

theorem Bitwise.extends_or : Kind.Extends fun _ u v => u ||| v :=
  fun _ _ _ => BitVec.signExtend_or

theorem Bitwise.extends_xor : Kind.Extends fun _ u v => u ^^^ v :=
  fun _ _ _ => BitVec.signExtend_xor

theorem Bitwise.extends_complement : Kind.Extends fun _ u _ => ~~~u :=
  fun _ _ h => BitVec.signExtend_not h

namespace Processor

variable {p : Processor}

/-- A cycle of two operands leaves the integer in the accumulator whose bits, as many as the kind
has, are those that an operator makes of the bits of the operands. -/
def LeavesBits (p : Processor) (op : Bitwise) (f : ∀ n, BitVec n → BitVec n → BitVec n) : Prop :=
  p.core.mnemonic? = some op.mnemonic →
    ∃ a b x y z, p.core.calculation? = some (op.mnemonic, [a, b]) ∧
      p.core.kind.Represents a x ∧ p.core.kind.Represents b y ∧
      p.cycle.2.core.readNamed accumulator = .ok (Word.ofInt z) ∧
      p.core.kind.least ≤ z ∧ z ≤ p.core.kind.greatest ∧
      BitVec.ofInt p.core.kind.bits z =
        f p.core.kind.bits (BitVec.ofInt p.core.kind.bits x) (BitVec.ofInt p.core.kind.bits y)

/-- A cycle of two operands leaves an integer in the accumulator that is told from the integers of
the operands. -/
def LeavesInteger (p : Processor) (op : Bitwise) (f : Int → Int → Int) : Prop :=
  p.core.mnemonic? = some op.mnemonic →
    ∃ a b x y, p.core.calculation? = some (op.mnemonic, [a, b]) ∧
      p.core.kind.Represents a x ∧ p.core.kind.Represents b y ∧
      p.cycle.2.core.readNamed accumulator = .ok (Word.ofInt (f x y))

section

variable (hp : p.Sound .extended) (hk : p.core.kind.isInteger) (h : p.Succeeds)
include hp hk h

theorem leavesBits {op : Bitwise} {f : ∀ n, BitVec n → BitVec n → BitVec n} (hf : Kind.Extends f)
    (hop : ∀ l r, (op.apply l r).toBitVec = f 64 l.toBitVec r.toBitVec) : p.LeavesBits op f := by
  intro hm
  obtain ⟨a, b, hoperands, ha, hb, hacc⟩ := cycle_bitwise hp h hm
  obtain ⟨x, hx⟩ := Kind.exists_represents hk ha
  obtain ⟨y, hy⟩ := Kind.exists_represents hk hb
  obtain ⟨z, hz, hbits⟩ := Kind.coerce_operator hf hk hx hy (hop _ _)
  exact ⟨a, b, x, y, z, hoperands, hx, hy, hz.word ▸ hacc, hz.least, hz.greatest, hbits⟩

theorem leavesInteger {op : Bitwise} {f : Int → Int → Int}
    (hop : ∀ {a b x y}, p.core.kind.Represents a x → p.core.kind.Represents b y →
      p.core.kind.Represents (p.core.kind.coerce (ofInteger (op.apply (toInteger a) (toInteger b))))
        (f x y)) : p.LeavesInteger op f := by
  intro hm
  obtain ⟨a, b, hoperands, ha, hb, hacc⟩ := cycle_bitwise hp h hm
  obtain ⟨x, hx⟩ := Kind.exists_represents hk ha
  obtain ⟨y, hy⟩ := Kind.exists_represents hk hb
  exact ⟨a, b, x, y, hoperands, hx, hy, (hop hx hy).word ▸ hacc⟩

end

/-- Bitwise operators and shifts leave what the same operation on as many bits as the kind has
leaves. A shift takes any amount: a negative one is no shift, and nothing is left but the sign past
the bits of the kind. -/
theorem bits_of_the_kind (hp : p.Reachable .extended) (hk : p.core.kind.isInteger)
    (h : p.Succeeds) :
    p.LeavesBits .and (fun _ u v => u &&& v) ∧
    p.LeavesBits .or (fun _ u v => u ||| v) ∧
    p.LeavesBits .xor (fun _ u v => u ^^^ v) ∧
    (p.core.mnemonic? = some "NOT" →
      ∃ a x z, p.core.calculation? = some ("NOT", [a]) ∧ p.core.kind.Represents a x ∧
        p.cycle.2.core.readNamed accumulator = .ok (Word.ofInt z) ∧
        p.core.kind.least ≤ z ∧ z ≤ p.core.kind.greatest ∧
        BitVec.ofInt p.core.kind.bits z = ~~~BitVec.ofInt p.core.kind.bits x) ∧
    p.LeavesInteger .shiftLeft (fun x y => p.core.kind.wrap (x * 2 ^ (max y 0).toNat)) ∧
    p.LeavesInteger .shiftRight (fun x y => x / 2 ^ (max y 0).toNat) := by
  have hs := hp.sound
  have hamount (y : Int) : (max y 0).toNat = y.toNat := by omega
  simp only [hamount]
  refine ⟨leavesBits hs hk h Bitwise.extends_and Int64.toBitVec_and,
    leavesBits hs hk h Bitwise.extends_or Int64.toBitVec_or,
    leavesBits hs hk h Bitwise.extends_xor Int64.toBitVec_xor, ?_,
    leavesInteger hs hk h (Kind.coerce_shiftLeft hk),
    leavesInteger hs hk h (Kind.coerce_shiftRight hk)⟩
  intro hm
  obtain ⟨a, hoperands, ha, hacc⟩ := cycle_complement hs h hm
  obtain ⟨x, hx⟩ := Kind.exists_represents hk ha
  obtain ⟨z, hz, hbits⟩ := Kind.coerce_operator Bitwise.extends_complement hk hx hx
    (n := ~~~toInteger a) Int64.toBitVec_not
  exact ⟨a, x, z, hoperands, hx, hz.word ▸ hacc, hz.least, hz.greatest, hbits⟩

theorem left_shift_wraps :
    ∃ new, create (.ofModel .extended) ⟨some .int8, 8, some ["x"]⟩ = .ok new ∧
      let p := new.after [.registers (.write (.name "x") (Word.ofNat 3)),
        .memory (.loadWords 0 [Word.ofNat 0x48, Word.ofNat 0, Word.ofNat 6])]
      p.core.kind.isInteger ∧ p.Succeeds ∧
        p.core.mnemonic? = some Bitwise.shiftLeft.mnemonic ∧
        p.cycle.2.core.readNamed accumulator = .ok (Word.ofInt (-64)) ∧
        ∃ a b x y, p.core.calculation? = some (Bitwise.shiftLeft.mnemonic, [a, b]) ∧
          p.core.kind.Represents a x ∧ p.core.kind.Represents b y ∧
          Word.ofInt (p.core.kind.wrap (x * 2 ^ (max y 0).toNat)) = Word.ofInt (-64) := by
  let session : List HostCall := [.registers (.write (.name "x") (Word.ofNat 3)),
    .memory (.loadWords 0 [Word.ofNat 0x48, Word.ofNat 0, Word.ofNat 6])]
  have hruns : (create (.ofModel .extended) ⟨some .int8, 8, some ["x"]⟩).map (fun new =>
      let p : Processor := new.after session
      (decide (p.core.kind.isInteger ∧ p.Succeeds),
        p.core.mnemonic?, p.cycle.2.core.readNamed accumulator)) =
      .ok (true, some "SHL", .ok (Word.ofInt (-64))) := by decide +kernel
  obtain ⟨new, hnew, hruns⟩ := Check.map_eq_ok.mp hruns
  obtain ⟨hfirst, hruns⟩ := Prod.mk.inj hruns
  obtain ⟨hm, hacc⟩ := Prod.mk.inj hruns
  obtain ⟨hk, hsucceeds⟩ := of_decide_eq_true hfirst
  have hp : (new.after session).Reachable .extended := ⟨_, new, session, hnew, rfl⟩
  obtain ⟨a, b, x, y, hoperands, hx, hy, hshifted⟩ :=
    (bits_of_the_kind hp hk hsucceeds).2.2.2.2.1 hm
  exact ⟨new, hnew, hk, hsucceeds, hm, hacc, a, b, x, y, hoperands, hx, hy,
    Except.ok.inj (hshifted.symm.trans hacc)⟩

end Processor

end WordMachine
