import Mathlib.Data.Rat.Floor
import WordMachine.Proofs.Nearest
import WordMachine.Proofs.Residue

/-!
# What an integer kind stores of a word

The integer part of the number that a word stands for, modulo two to the bits of the kind, whatever
the magnitude of the word; zero for a word that is not finite. The same integer is
reached by operations of words alone: the fraction is dropped, a remainder by a power of two is
taken and made positive, and none of these steps rounds.
-/

set_option autoImplicit false

namespace WordMachine

namespace Word

variable {a b w : Word} {x y : Int}

/-- The word is finite and stands for a rational number. -/
def Denotes (w : Word) (r : ℚ) : Prop := w.number? = some ((r : WithTop ℚ) : WithBot (WithTop ℚ))

def towardZero (r : ℚ) : Int := if 0 ≤ r then ⌊r⌋ else ⌈r⌉

theorem towardZero_signed (s : Bool) {r : ℚ} (h : 0 ≤ r) :
    towardZero (if s then -r else r) = signed s ⌊r⌋₊ := by
  have hfloor : ((⌊r⌋₊ : Nat) : Int) = ⌊r⌋ := Int.natCast_floor_eq_floor h
  cases s with
  | false => simp only [Bool.false_eq_true, if_false, towardZero, if_pos h, signed, hfloor]
  | true =>
    simp only [if_true, towardZero, signed, hfloor]
    split
    · obtain rfl : r = 0 := le_antisymm (by linarith) h
      simp
    · rw [Int.ceil_neg]

theorem signed_scaled (s : Bool) (m : Nat) (q : Int) :
    (signed s m * 2 ^ q : ℚ) = if s then -(m * 2 ^ q : ℚ) else m * 2 ^ q := by
  cases s <;> simp [signed]

theorem denotes_iff {r : ℚ} :
    w.Denotes r ↔ ∃ s m q, w.datum = .finite s m q ∧ r = signed s m * 2 ^ q := by
  rw [Denotes, number?]
  cases hd : w.datum with
  | nan => simp
  | infinite s => cases s <;> simp
  | finite s m q =>
    constructor
    · intro h
      exact ⟨s, m, q, rfl, (WithTop.coe_inj.mp (WithBot.coe_inj.mp (Option.some.inj h))).symm⟩
    · rintro ⟨t, n, p, he, rfl⟩
      obtain ⟨rfl, rfl, rfl⟩ := Datum.finite.inj he
      rfl

theorem denotes_of_integer? (h : w.integer? = some x) : w.Denotes x := by
  obtain ⟨s, m, q, hd, hnumber, hsigned⟩ := number_of_integer? h
  refine denotes_iff.mpr ⟨s, m, q, hd, ?_⟩
  rw [signed_scaled, hnumber]
  conv_lhs => rw [← hsigned]
  cases s <;> simp [signed]

theorem truncate?_of_denotes {r : ℚ} (h : w.Denotes r) : w.truncate? = some (towardZero r) := by
  obtain ⟨s, m, q, hd, rfl⟩ := denotes_iff.mp h
  have hnonneg : (0 : ℚ) ≤ m * 2 ^ q := mul_nonneg (Nat.cast_nonneg m) (zpow_nonneg two_pos.le q)
  rw [signed_scaled, towardZero_signed s hnonneg]
  exact truncate?_of_between hd (Nat.floor_le hnonneg) (Nat.lt_floor_add_one _)

theorem floor?_of_denotes {r : ℚ} (h : w.Denotes r) : w.floor? = some ⌊r⌋ := by
  obtain ⟨s, m, q, hd, rfl⟩ := denotes_iff.mp h
  simp only [floor?, hd, Option.some.injEq]
  by_cases hq : 0 ≤ q
  · rw [if_pos hq, finite_scaled s m hq, Int.sub_zero, zpow_zero, mul_one, Int.floor_intCast]
  · have hscale : ((2 : ℚ) ^ q) = (((2 ^ (-q).toNat : Nat) : ℚ))⁻¹ := by
      rw [Nat.cast_pow, ← zpow_natCast, Int.toNat_of_nonneg (by omega), Nat.cast_ofNat, zpow_neg,
        inv_inv]
    have hpower : ((2 ^ (-q).toNat : Nat) : Int) = 2 ^ (-q).toNat := Int.natCast_pow 2 _
    rw [if_neg hq, hscale, ← div_eq_mul_inv, Rat.floor_intCast_div_natCast, hpower]

/-- The word is a number of the unit that begins at a natural. -/
def Within (w : Word) (n : Nat) : Prop := ∃ r : ℚ, w.Denotes r ∧ (n : ℚ) ≤ r ∧ r < n + 1

theorem within_iff {n : Nat} : w.Within n ↔ w.floor? = some (n : Int) := by
  constructor
  · rintro ⟨r, hr, hle, hlt⟩
    have hfloor : ⌊r⌋ = (n : Int) := Int.floor_eq_iff.mpr ⟨by exact_mod_cast hle, by exact_mod_cast hlt⟩
    rw [floor?_of_denotes hr, hfloor]
  · intro h
    cases hd : w.datum with
    | nan | infinite s => simp [floor?, hd] at h
    | finite s m q =>
      have hr : w.Denotes (signed s m * 2 ^ q) := denotes_iff.mpr ⟨s, m, q, hd, rfl⟩
      rw [floor?_of_denotes hr] at h
      obtain ⟨hle, hlt⟩ := Int.floor_eq_iff.mp (Option.some.inj h)
      exact ⟨_, hr, by exact_mod_cast hle, by exact_mod_cast hlt⟩

theorem within_unique {n k : Nat} (hn : w.Within n) (hk : w.Within k) : n = k :=
  Int.ofNat_inj.mp (Option.some.inj ((within_iff.mp hn).symm.trans (within_iff.mp hk)))

instance decidableWithin (w : Word) (n : Nat) : Decidable (w.Within n) :=
  decidable_of_iff _ within_iff.symm

theorem truncate?_eq_none (h : ∀ r, ¬ w.Denotes r) : w.truncate? = none := by
  cases hd : w.datum with
  | nan | infinite s => simp [truncate?, hd]
  | finite s m q => exact absurd (denotes_iff.mpr ⟨s, m, q, hd, rfl⟩) (h _)

def rem (a b : Word) : Word :=
  match a.datum, b.datum with
  | .nan, _ => a.quiet
  | _, .nan => b.quiet
  | .infinite _, _ => indefinite
  | .finite .., .infinite _ => a
  | .finite s m p, .finite _ n q =>
    if n = 0 then indefinite
    else
      let e := min p q
      round s (m * 2 ^ (p - e).toNat % (n * 2 ^ (q - e).toNat)) e

def absolute (w : Word) : Word := if binary64.isNegative w.bits.toNat then w.negate else w

def remEuclid (a b : Word) : Word :=
  let r := a.rem b
  if r.compare? (zero false) = some .lt then r.add b.absolute else r

def toUInt64 (w : Word) : UInt64 :=
  match w.datum with
  | .nan => 0
  | .infinite s => if s then 0 else UInt64.ofNat (2 ^ 64 - 1)
  | .finite .. => UInt64.ofNat (min (w.truncate?.getD 0).toNat (2 ^ 64 - 1))

/-- The low bits of the integer part of a word; none are set for a word that is not finite. -/
def lowBits (w : Word) (bits : Nat) : UInt64 :=
  if w.isFinite then (w.truncate.remEuclid (ofNat (2 ^ bits))).toUInt64 else 0

theorem signed_tmod (s : Bool) (m : Nat) (z : Int) :
    signed s (m % z.natAbs) = (signed s m).tmod z := by
  have hmod : ((m % z.natAbs : Nat) : Int) = (m : Int).tmod z := by
    rw [Int.ofNat_tmod]
    rcases z.natAbs_eq with hz | hz
    · rw [← hz]
    · conv_rhs => rw [hz, Int.tmod_neg]
  cases s with
  | false => exact hmod
  | true => exact (congrArg Neg.neg hmod).trans (Int.neg_tmod ..).symm

theorem integer?_rem (ha : a.integer? = some x) (hb : b.integer? = some y) (hy : y ≠ 0)
    (hsmall : y.natAbs ≤ 2 ^ 53) : (a.rem b).integer? = some (x.tmod y) := by
  obtain ⟨s, m, p, hda, hx⟩ := value_of_integer? ha
  obtain ⟨t, n, q, hdb, hn⟩ := value_of_integer? hb
  obtain ⟨e, he⟩ : ∃ e, min p q = e := ⟨_, rfl⟩
  generalize hk : (-e).toNat = k
  have hx := hx k (by omega)
  have hn := hn k (by omega)
  rw [show ((k : Int) + p).toNat = (p - e).toNat + (k + e).toNat by omega, Nat.pow_add,
    ← Nat.mul_assoc] at hx
  rw [show ((k : Int) + q).toNat = (q - e).toNat + (k + e).toNat by omega, Nat.pow_add,
    ← Nat.mul_assoc] at hn
  obtain ⟨hdividend, hsigned⟩ := of_signed_scaled (Nat.two_pow_pos k) hx
  obtain ⟨hdivisor, -⟩ := of_signed_scaled (Nat.two_pow_pos k) hn
  have hnonzero : n ≠ 0 := by
    rintro rfl
    rw [Nat.zero_mul, Nat.zero_mul] at hdivisor
    have hpower := Nat.two_pow_pos k
    have hzero := Nat.mul_eq_zero.mp hdivisor.symm
    omega
  have hrest : m * 2 ^ (p - e).toNat % (n * 2 ^ (q - e).toNat) * 2 ^ ((k : Int) + e).toNat =
      x.natAbs % y.natAbs * 2 ^ k := by
    rw [← Nat.mul_mod_mul_right, hdividend, hdivisor, Nat.mul_mod_mul_right]
  have hlt : x.natAbs % y.natAbs < y.natAbs := Nat.mod_lt _ (Int.natAbs_pos.mpr hy)
  have hround : a.rem b = round s (x.natAbs % y.natAbs) 0 := by
    simp only [rem, hda, hdb, if_neg hnonzero, he, round,
      binary64.magnitude_of_value (by omega) hrest]
  rw [hround, integer?_round_le s (by omega), signed_tmod, hsigned]

theorem tmod_or_add (x : Int) (hy : 0 < y) :
    (if x.tmod y < 0 then x.tmod y + y else x.tmod y) = x % y := by
  have hlow := Int.emod_nonneg x (Int.ne_of_gt hy)
  have hhigh := Int.emod_lt_of_pos x hy
  rw [Int.tmod_eq_emod]
  split <;> split <;> omega

theorem absolute_of_integer? (h : w.integer? = some x) (hx : 0 < x) : w.absolute = w := by
  obtain ⟨s, m, q, hd, -⟩ := value_of_integer? h
  have hsign := (Format.decode_finite hd).1
  cases s with
  | false => rw [absolute, ← hsign, if_neg Bool.false_ne_true]
  | true =>
    have := nonpos_of_integer? hd h
    omega

theorem integer?_remEuclid (ha : a.integer? = some x) (hb : b.integer? = some y) (hy : 0 < y)
    (hsmall : y ≤ 2 ^ 53) : (a.remEuclid b).integer? = some (x % y) := by
  have hrem := integer?_rem ha hb (Int.ne_of_gt hy) (by omega)
  have hbelow : (a.rem b).compare? (zero false) = some .lt ↔ x.tmod y < 0 := by
    rw [compare?_of_integers hrem (integer?_zero false), Option.some.injEq, compare_lt_iff_lt]
  have hlow := Int.emod_nonneg x (Int.ne_of_gt hy)
  have hhigh := Int.emod_lt_of_pos x hy
  have hresult := tmod_or_add x hy
  simp only [remEuclid, hbelow, absolute_of_integer? hb hy]
  split at hresult
  · rename_i hnegative
    rw [if_pos hnegative, integer?_add hrem hb (by omega), hresult]
  · rename_i hnegative
    rw [if_neg hnegative, hrem, hresult]

theorem isFinite_iff : w.isFinite ↔ ∃ z, w.truncate? = some z := by
  rw [isFinite, truncate?]
  cases w.datum <;> simp

theorem toNat_toUInt64 (h : w.integer? = some x) (hx : 0 ≤ x) (hlt : x < 2 ^ 64) :
    w.toUInt64.toNat = x.toNat := by
  obtain ⟨s, m, q, hd, -⟩ := value_of_integer? h
  have hmin : min x.toNat (2 ^ 64 - 1) = x.toNat := by omega
  simp only [toUInt64, hd, truncate?_of_integer? h, Option.getD_some, hmin]
  exact UInt64.toNat_ofNat_of_lt' (show x.toNat < 2 ^ 64 by omega)

theorem toNat_lowBits (w : Word) {bits : Nat} (hbits : bits ≤ 53) :
    (w.lowBits bits).toNat = (w.truncate?.getD 0 % 2 ^ bits).toNat := by
  have hcast : ((2 ^ bits : Nat) : Int) = 2 ^ bits := Int.natCast_pow 2 bits
  have hsmall : (2 : Nat) ^ bits ≤ 2 ^ 53 := Nat.pow_le_pow_right (by decide) hbits
  have hpositive : (0 : Int) < 2 ^ bits := Int.pow_pos (by decide)
  cases hw : w.truncate? with
  | none =>
    have hinfinite : ¬ w.isFinite := by
      rw [isFinite_iff, hw]
      simp
    rw [lowBits, if_neg hinfinite, Option.getD_none, Int.zero_emod]
    rfl
  | some z =>
    have hfinite : w.isFinite := isFinite_iff.mpr ⟨z, hw⟩
    have hmodulus : (ofNat (2 ^ bits)).integer? = some (2 ^ bits) :=
      hcast ▸ integer?_round_le false hsmall
    have hlow := Int.emod_nonneg z (Int.ne_of_gt hpositive)
    have hhigh := Int.emod_lt_of_pos z hpositive
    have hreduced := integer?_remEuclid (integer?_truncate hw) hmodulus hpositive (by omega)
    rw [lowBits, if_pos hfinite, toNat_toUInt64 hreduced hlow (by omega), Option.getD_some]

end Word

theorem Bytes.ofNat_eq_map (width n : Nat) :
    ofNat width n = (List.range width).map fun i => UInt8.ofNat (n / 256 ^ (width - 1 - i)) := by
  induction width with
  | zero => rfl
  | succ width ih =>
    rw [ofNat, ih, List.range_succ_eq_map, List.map_cons, List.map_map]
    refine congrArg (_ :: ·) (List.map_congr_left fun i _ => ?_)
    rw [Function.comp_apply, show width + 1 - 1 - (i + 1) = width - 1 - i by omega]

namespace Kind

variable {k : Kind} {w : Word} {z : Int}

def bigEndian (k : Kind) (z : Int) : List UInt8 :=
  (List.range k.byteWidth).map fun i =>
    UInt8.ofBitVec ((BitVec.ofInt k.bits z).extractLsb' (8 * (k.byteWidth - 1 - i)) 8)

/-- The word reads back as an integer of the range of the kind, and its bytes are the bits of that
integer. -/
structure Stores (k : Kind) (w : Word) (z : Int) : Prop where
  represents : k.Represents (k.coerce w) z
  denotes : (k.coerce w).Denotes z
  encode : k.encode w = k.bigEndian z

theorem ofNat_emod (k : Kind) (z : Int) :
    Bytes.ofNat k.byteWidth (z % 2 ^ k.bits).toNat = k.bigEndian z := by
  rw [Bytes.ofNat_eq_map, bigEndian]
  refine List.map_congr_left fun i _ => UInt8.toNat_inj.mp ?_
  rw [UInt8.toNat_ofNat', UInt8.toNat_ofBitVec, BitVec.extractLsb'_toNat, BitVec.toNat_ofInt,
    Nat.shiftRight_eq_div_pow, Nat.pow_mul]
  rfl

theorem stores (hk : k.isInteger) (w : Word) : k.Stores w (k.wrap (w.truncate?.getD 0)) where
  represents := coerce_represents hk w
  denotes := Word.denotes_of_integer? ((coerce_represents hk w).integer? hk)
  encode := by rw [Kind.encode, pattern_integer hk, ← ofNat_emod, k.wrap_modEq]

theorem range_denotes (hk : k.isInteger) :
    k.range.1.Denotes k.least ∧ k.range.2.Denotes k.greatest := by
  have hrange : k.range = (Word.ofInt k.least, Word.ofInt k.greatest) := by
    cases k <;> first | rfl | cases hk
  have hzero := k.zero_range
  have hleast : k.Represents (Word.ofInt k.least) k.least :=
    ⟨rfl, le_rfl, hzero.1.trans hzero.2⟩
  have hgreatest : k.Represents (Word.ofInt k.greatest) k.greatest :=
    ⟨rfl, hzero.1.trans hzero.2, le_rfl⟩
  rw [hrange]
  exact ⟨Word.denotes_of_integer? (hleast.integer? hk),
    Word.denotes_of_integer? (hgreatest.integer? hk)⟩

/-- An integer kind stores, of a word with a finite number, the one integer of its range that is
congruent to the number without its fraction modulo two to the bits of the kind, and zero of any
other word. So an integer of the range is stored as it is. Operations of words find the same
bytes. -/
theorem integer_part_is_wrapped (hk : k.isInteger) (w : Word) :
    (k.range.1.Denotes k.least ∧ k.range.2.Denotes k.greatest) ∧
    (∀ r, w.Denotes r → ∃ z, k.Stores w z ∧
      ∀ y, y = z ↔ k.least ≤ y ∧ y ≤ k.greatest ∧ y ≡ Word.towardZero r [ZMOD 2 ^ k.bits]) ∧
    ((∀ r, ¬ w.Denotes r) → k.Stores w 0) ∧
    (∀ z : Int, k.least ≤ z → z ≤ k.greatest → w.Denotes z → k.Stores w z) ∧
    k.encode w = Bytes.ofNat k.byteWidth (w.lowBits k.bits).toNat := by
  have hstores := stores hk w
  refine ⟨range_denotes hk, ?_, ?_, ?_, ?_⟩
  · intro r hr
    rw [Word.truncate?_of_denotes hr, Option.getD_some] at hstores
    refine ⟨_, hstores, fun y => ⟨?_, ?_⟩⟩
    · rintro rfl
      exact ⟨(k.wrap_range _).1, (k.wrap_range _).2, k.wrap_modEq _⟩
    · rintro ⟨hlow, hhigh, hcongruent⟩
      exact eq_wrap hlow hhigh hcongruent
  · intro hr
    rwa [Word.truncate?_eq_none hr, Option.getD_none, wrap_zero] at hstores
  · intro z hlow hhigh hz
    have hwhole : Word.towardZero (z : ℚ) = z := by
      rw [Word.towardZero, Int.floor_intCast, Int.ceil_intCast, ite_self]
    rwa [Word.truncate?_of_denotes hz, hwhole, Option.getD_some, wrap_of_range hlow hhigh] at hstores
  · have hbits : k.bits ≤ 53 := (bits_integer hk).trans (by decide)
    rw [Word.toNat_lowBits w hbits, Kind.encode, pattern_integer hk]

theorem fraction_below_range_is_wrapped :
    let w := Word.round true 601 (-1)
    int8.isInteger ∧ w.Denotes (-601 / 2) ∧ Word.towardZero (-601 / 2) = -300 ∧
      int8.encode w = [0xd4] ∧ int8.Stores w (-44) ∧ int8.Stores (Word.infinity true) 0 := by
  intro w
  have hw : w.Denotes (-601 / 2) := by
    have hdatum : w.datum = .finite true (601 * 2 ^ 43) (-44) := by decide +kernel
    exact Word.denotes_iff.mpr ⟨_, _, _, hdatum, by norm_num [signed]⟩
  have hpart : Word.towardZero (-601 / 2) = -300 := by decide +kernel
  have hbytes : int8.encode w = [0xd4] := by decide +kernel
  have hinfinite : ∀ r, ¬ (Word.infinity true).Denotes r := by
    intro r hr
    have hnone := Word.truncate?_of_denotes hr
    rw [show (Word.infinity true).truncate? = none by decide +kernel] at hnone
    cases hnone
  obtain ⟨-, hfinite, -⟩ := integer_part_is_wrapped (k := int8) rfl w
  obtain ⟨-, -, hothers, -⟩ := integer_part_is_wrapped (k := int8) rfl (Word.infinity true)
  obtain ⟨z, hz, hunique⟩ := hfinite _ hw
  rw [hpart] at hunique
  obtain rfl : -44 = z := (hunique (-44)).mpr (by decide)
  exact ⟨rfl, hw, hpart, hbytes, hz, hothers hinfinite⟩

end Kind

end WordMachine
