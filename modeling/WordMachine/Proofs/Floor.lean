import Mathlib.Data.Rat.Floor
import WordMachine.Proofs.Address
import WordMachine.Proofs.Truncation

/-!
# The floor of a word as an address

A word is accepted as an address only if it is finite, and the address is then the floor of its
number, below the capacity even where the capacity is rounded up before it is compared. Up to
`2 ^ 53` words no floor below the capacity is refused. Operations of words alone come to the same:
the floor is a word, it is compared as one, and converting it never meets the end of the range.
-/

set_option autoImplicit false

namespace WordMachine

namespace Word

variable {w : Word} {z : Int}

theorem datum_quiet (h : w.datum = .nan) : w.quiet.datum = .nan := by
  have hbits : w.quiet.bits.toNat = w.bits.toNat ||| 2 ^ 51 := UInt64.toNat_or w.bits _
  have hsign : binary64.signBit = 2 ^ 63 := rfl
  have hfractions : binary64.fractions = 2 ^ 52 := rfl
  have hfield : (w.bits.toNat ||| 2 ^ 51) % 2 ^ 63 / 2 ^ 52 = w.bits.toNat % 2 ^ 63 / 2 ^ 52 := by
    rw [Nat.or_mod_two_pow, Nat.or_div_two_pow]
    exact Nat.or_zero _
  have hfraction : (w.bits.toNat ||| 2 ^ 51) % 2 ^ 52 ≠ 0 := by
    rw [Nat.or_mod_two_pow]
    have hset : 2 ^ 51 ≤ w.bits.toNat % 2 ^ 52 ||| 2 ^ 51 % 2 ^ 52 := Nat.right_le_or
    omega
  simp only [datum, Format.decode, hbits, hsign, hfractions, hfield, if_neg hfraction] at h ⊢
  split at h
  · rename_i htop
    rw [if_pos htop]
  · split at h <;> cases h

/-- The greatest integer not above a word, as a word with the sign kept: of `-0.5` it is `-1`. -/
def floor (w : Word) : Word :=
  match w.datum with
  | .nan => w.quiet
  | .infinite _ => w
  | .finite s m q => if 0 ≤ q then w else round s (signed s m / 2 ^ (-q).toNat).natAbs 0

theorem integer?_floor (h : w.floor? = some z) : w.floor.integer? = some z := by
  cases hd : w.datum with
  | nan | infinite s => simp [floor?, hd] at h
  | finite s m q =>
    simp only [floor?, hd, Option.some.injEq] at h
    by_cases hq : 0 ≤ q
    · rw [if_pos hq] at h
      simp only [floor, hd, if_pos hq, integer?, h]
    · rw [if_neg hq] at h
      have hsmall : z.natAbs ≤ 2 ^ 53 := by
        have hle := Int.natAbs_ediv_le_natAbs (signed s m) (2 ^ (-q).toNat)
        rw [h, natAbs_signed] at hle
        have hm := datum_finite_lt hd
        omega
      have hsign : signed s z.natAbs = z := by
        have hpower : (0 : Int) < 2 ^ (-q).toNat := Int.pow_pos (by decide)
        cases s with
        | false =>
          have hlow : 0 ≤ z := h ▸ Int.ediv_nonneg (Int.natCast_nonneg m) hpower.le
          exact Int.natAbs_of_nonneg hlow
        | true =>
          have hhigh : z ≤ 0 := h ▸ Int.ediv_nonpos_of_nonpos_of_neg (by simp [signed]) hpower
          exact (congrArg Neg.neg (Int.ofNat_natAbs_of_nonpos hhigh)).trans (Int.neg_neg z)
      simp only [floor, hd, if_neg hq, h]
      rw [integer?_round_le s hsmall, hsign]

end Word

namespace Address

variable {capacity : Nat}

/-- The address of a word by operations of words: its floor is compared with zero and with the
capacity, and converted with what lies outside the range held at its ends. -/
def ofFloor (w : Word) (capacity : Nat) : Except Fault Nat :=
  let floored := w.floor
  let sign := floored.compare? (Word.zero false)
  if (sign = some .eq ∨ sign = some .gt) ∧ floored.compare? (Word.ofNat capacity) = some .lt then
    .ok floored.toUInt64.toNat
  else .error (.outOfBounds w capacity)

theorem integer?_bound (hcapacity : capacity < limit) :
    (Word.ofNat capacity).integer? = some (bound capacity) := by
  by_cases h0 : capacity = 0
  · rw [h0]
    decide +kernel
  · -- the bound is not the zero that stands for a word which is no integer
    have hpositive := le_bound (m := 1) (k := 0) (by decide) (by omega) hcapacity
    rw [bound] at hpositive ⊢
    cases h : (Word.ofNat capacity).integer? with
    | none =>
      rw [h] at hpositive
      simp at hpositive
    | some n => rfl

theorem bound_le_limit (hcapacity : capacity < limit) : bound capacity ≤ limit :=
  bound_le (m := 1) (k := 64) (by decide) hcapacity.le

theorem ofFloor_eq (w : Word) (hcapacity : capacity < limit) :
    ofFloor w capacity = ofWord w capacity := by
  have hbound := integer?_bound hcapacity
  cases hw : w.floor? with
  | none =>
    have hrefused : ofWord w capacity = .error (.outOfBounds w capacity) := by rw [ofWord, hw]
    rw [hrefused, ofFloor]
    refine if_neg ?_
    rintro ⟨hsign, hbelow⟩
    cases hd : w.datum with
    | nan => simp [Word.floor, Word.compare?, hd, Word.datum_quiet hd] at hbelow
    | infinite s =>
      -- an infinity compares with the capacity as it does with zero
      obtain ⟨t, m, q, hfinite, -⟩ := Word.value_of_integer? hbound
      obtain ⟨u, n, e, hzero, -⟩ := Word.value_of_integer? (Word.integer?_zero false)
      simp only [Word.floor, Word.compare?, hd, hfinite, hzero] at hsign hbelow
      rw [hbelow] at hsign
      simp at hsign
    | finite s m q => simp [Word.floor?, hd] at hw
  | some z =>
    have hfloor := Word.integer?_floor hw
    have hcondition : (compare z 0 = .eq ∨ compare z 0 = .gt) ∧ compare z (bound capacity) = .lt ↔
        0 ≤ z ∧ z < bound capacity := by
      rw [compare_eq_iff_eq, compare_gt_iff_gt, compare_lt_iff_lt]
      omega
    simp only [ofFloor, ofWord, hw, Word.compare?_of_integers hfloor (Word.integer?_zero false),
      Word.compare?_of_integers hfloor hbound, Option.some.injEq, hcondition]
    split
    · rename_i hz
      have hlimit : z < limit := hz.2.trans_le (bound_le_limit hcapacity)
      rw [Word.toNat_toUInt64 hfloor hz.1 hlimit]
    · rfl

/-- An address accepted is the floor of a finite word and below the capacity, whatever the capacity
is rounded to. Up to `2 ^ 53` words every floor from zero up to the capacity is accepted. A fault
names the word and the capacity as they were given. Operations of words find the same. -/
theorem accepted_address_is_floor (w : Word) (capacity : Nat) :
    (∀ a, ofWord w capacity = .ok a →
      w.isFinite ∧ (∃ x : ℚ, w.Denotes x ∧ ⌊x⌋ = (a : Int)) ∧ a < capacity) ∧
    (capacity ≤ 2 ^ 53 → ∀ x : ℚ, w.Denotes x → 0 ≤ ⌊x⌋ → ⌊x⌋ < (capacity : Int) →
      ofWord w capacity = .ok ⌊x⌋.toNat) ∧
    (∀ fault, ofWord w capacity = .error fault → fault = .outOfBounds w capacity) ∧
    (capacity < limit → ofFloor w capacity = ofWord w capacity) := by
  refine ⟨fun a ha => ?_, fun hcapacity x hx hlow hhigh => ?_, fun fault => ofWord_error,
    ofFloor_eq w⟩
  · obtain ⟨x, hx, hle, hlt⟩ := Word.within_iff.mpr (ofWord_eq_ok.mp ha).1
    have hfinite : w.isFinite := Word.isFinite_iff.mpr ⟨_, Word.truncate?_of_denotes hx⟩
    exact ⟨hfinite, ⟨x, hx, Int.floor_eq_iff.mpr ⟨hle, hlt⟩⟩, ofWord_lt ha⟩
  · obtain ⟨a, ha⟩ := Int.eq_ofNat_of_zero_le hlow
    rw [ha] at hhigh
    have hfloor : w.floor? = some (a : Int) := ha ▸ Word.floor?_of_denotes hx
    rw [ha, Int.toNat_natCast]
    exact ofWord_eq_ok.mpr ⟨hfloor, hhigh.trans_eq (bound_eq_self hcapacity).symm⟩

theorem rounded_capacity_is_respected :
    let last := Word.ofNat (2 ^ 64 - 2048)
    let between := Word.round false 15 (-2)
    let below := Word.round true 1 (-2)
    (2 ^ 64 - 1 < limit ∧ bound (2 ^ 64 - 1) = 2 ^ 64 ∧
      ofFloor last (2 ^ 64 - 1) = .ok (2 ^ 64 - 2048) ∧
      ofWord last (2 ^ 64 - 1) = .ok (2 ^ 64 - 2048) ∧ last.isFinite ∧
      ∃ x : ℚ, last.Denotes x ∧ ⌊x⌋ = ((2 ^ 64 - 2048 : Nat) : Int)) ∧
    (between.Denotes (15 / 4) ∧ ⌊(15 / 4 : ℚ)⌋ = 3 ∧ ofWord between 4 = .ok 3) ∧
    ∃ fault, ofWord below 16 = .error fault ∧ fault = .outOfBounds below 16 := by
  intro last between below
  have hlast : ofWord last (2 ^ 64 - 1) = .ok (2 ^ 64 - 2048) := by decide +kernel
  have hbound : bound (2 ^ 64 - 1) = 2 ^ 64 := by decide +kernel
  have hlimit : 2 ^ 64 - 1 < limit := by decide
  have hbetween : between.Denotes (15 / 4) := by
    have hdatum : between.datum = .finite false (15 * 2 ^ 49) (-51) := by decide +kernel
    exact Word.denotes_iff.mpr ⟨_, _, _, hdatum, by norm_num [signed]⟩
  have hthree : ⌊(15 / 4 : ℚ)⌋ = 3 := by norm_num
  have hbelow : ofWord below 16 = .error (.outOfBounds below 16) := by decide +kernel
  obtain ⟨hsound, -, -, hsame⟩ := accepted_address_is_floor last (2 ^ 64 - 1)
  obtain ⟨-, hcomplete, -⟩ := accepted_address_is_floor between 4
  obtain ⟨-, -, hfault, -⟩ := accepted_address_is_floor below 16
  obtain ⟨hfinite, hfloor, -⟩ := hsound _ hlast
  have haccepted := hcomplete (by decide) _ hbetween (by omega) (by omega)
  rw [hthree] at haccepted
  exact ⟨⟨hlimit, hbound, (hsame hlimit).trans hlast, hlast, hfinite, hfloor⟩,
    ⟨hbetween, hthree, haccepted⟩, _, hbelow, hfault _ hbelow⟩

end Address

end WordMachine
