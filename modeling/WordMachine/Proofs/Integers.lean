import WordMachine.Proofs.Address

/-!
# Words of integers

A word that is an integer has a datum of that value, whatever its exponent. The sum of two such
words is their sum rounded once, so a kind that stores an integer and the next one exactly counts
from the one to the other.
-/

set_option autoImplicit false

namespace WordMachine

theorem signed_mul (s : Bool) (m n : Nat) : signed s (m * n) = signed s m * n := by
  cases s with
  | false => exact Int.natCast_mul m n
  | true =>
    show -((m * n : Nat) : Int) = -(m : Int) * n
    rw [Int.natCast_mul, Int.neg_mul]

namespace Word

theorem value_of_integer? {w : Word} {x : Int} (h : w.integer? = some x) :
    ∃ s m q, w.datum = .finite s m q ∧
      ∀ k : Nat, 0 ≤ k + q → signed s (m * 2 ^ (k + q).toNat) = x * (2 ^ k : Nat) := by
  cases hd : w.datum with
  | nan => simp [integer?, hd] at h
  | infinite s => simp [integer?, hd] at h
  | finite s m q =>
    refine ⟨s, m, q, rfl, fun k hk => ?_⟩
    simp only [integer?, hd] at h
    split at h
    · have hsplit : (k + q).toNat = q.toNat + k := by omega
      obtain rfl := Option.some.inj h
      rw [hsplit, Nat.pow_add, ← Nat.mul_assoc, signed_mul]
    · split at h
      · rename_i hdvd
        have hsplit : k = (-q).toNat + (k + q).toNat := by omega
        have hm : m = m / 2 ^ (-q).toNat * 2 ^ (-q).toNat :=
          (Nat.div_mul_cancel (Nat.dvd_of_mod_eq_zero hdvd)).symm
        obtain rfl := Option.some.inj h
        rw [← signed_mul]
        conv => rhs; rw [hsplit, Nat.pow_add, ← Nat.mul_assoc, ← hm]
      · cases h

theorem floor_of_integer? {w : Word} {x : Int} (h : w.integer? = some x) : w.floor? = some x := by
  obtain ⟨s, m, q, hd, hvalue⟩ := value_of_integer? h
  simp only [floor?, hd, Option.some.injEq]
  split
  · have := hvalue 0 (by omega)
    simpa using this
  · have hm := hvalue (-q).toNat (by omega)
    have hpos : ((2 ^ (-q).toNat : Nat) : Int) ≠ 0 := by
      have := Nat.two_pow_pos (-q).toNat
      omega
    rw [show ((-q).toNat + q).toNat = 0 by omega, Nat.pow_zero, Nat.mul_one] at hm
    rw [hm]
    exact Int.mul_ediv_cancel x hpos

theorem nonpos_of_integer? {w : Word} {x : Int} {m : Nat} {q : Int}
    (hd : w.datum = .finite true m q) (h : w.integer? = some x) : x ≤ 0 := by
  simp only [integer?, hd, signed, if_true] at h
  split at h
  · obtain rfl := Option.some.inj h
    exact Int.neg_nonpos_of_nonneg (Int.natCast_nonneg _)
  · split at h
    · obtain rfl := Option.some.inj h
      exact Int.neg_nonpos_of_nonneg (Int.natCast_nonneg _)
    · cases h

theorem add_of_integers {a b : Word} {x y : Int} (ha : a.integer? = some x)
    (hb : b.integer? = some y) (hne : x ≠ 0 ∨ y ≠ 0) : a.add b = ofInt (x + y) := by
  obtain ⟨s, m, p, hda, hx⟩ := value_of_integer? ha
  obtain ⟨t, n, q, hdb, hy⟩ := value_of_integer? hb
  obtain ⟨e, he⟩ : ∃ e, min p q = e := ⟨_, rfl⟩
  obtain ⟨total, htotal⟩ :
      ∃ z, signed s (m * 2 ^ (p - e).toNat) + signed t (n * 2 ^ (q - e).toNat) = z := ⟨_, rfl⟩
  obtain ⟨k, hk, hsum⟩ : ∃ k : Nat, 0 ≤ k + e ∧
      total * (2 ^ (k + e).toNat : Nat) = (x + y) * (2 ^ k : Nat) := by
    refine ⟨(-e).toNat, by omega, ?_⟩
    have hp : ((-e).toNat + p).toNat = (p - e).toNat + ((-e).toNat + e).toNat := by omega
    have hq : ((-e).toNat + q).toNat = (q - e).toNat + ((-e).toNat + e).toNat := by omega
    rw [← htotal, Int.add_mul, Int.add_mul, ← hx _ (by omega), ← hy _ (by omega), hp, hq,
      Nat.pow_add 2 (p - e).toNat, Nat.pow_add 2 (q - e).toNat, ← Nat.mul_assoc, ← Nat.mul_assoc]
    simp only [signed_mul]
  have hunit : (0 : Int) < (2 ^ (k + e).toNat : Nat) := Int.natCast_pos.mpr (Nat.two_pow_pos _)
  have hscale : (0 : Int) < (2 ^ k : Nat) := Int.natCast_pos.mpr (Nat.two_pow_pos _)
  have hzero : total = 0 ↔ x + y = 0 := by
    calc total = 0 ↔ total * (2 ^ (k + e).toNat : Nat) = 0 * (2 ^ (k + e).toNat : Nat) :=
          (Int.mul_eq_mul_right_iff (Int.ne_of_gt hunit)).symm
      _ ↔ (x + y) * (2 ^ k : Nat) = 0 * (2 ^ k : Nat) := by rw [hsum, Int.zero_mul, Int.zero_mul]
      _ ↔ x + y = 0 := Int.mul_eq_mul_right_iff (Int.ne_of_gt hscale)
  have hnegative : total < 0 ↔ x + y < 0 := by
    calc total < 0 ↔ total * (2 ^ (k + e).toNat : Nat) < 0 * (2 ^ (k + e).toNat : Nat) :=
          (Int.mul_lt_mul_right hunit).symm
      _ ↔ (x + y) * (2 ^ k : Nat) < 0 * (2 ^ k : Nat) := by rw [hsum, Int.zero_mul, Int.zero_mul]
      _ ↔ x + y < 0 := Int.mul_lt_mul_right hscale
  have hmagnitude : binary64.magnitude total.natAbs e = binary64.magnitude (x + y).natAbs 0 := by
    apply binary64.magnitude_of_value hk
    have := congrArg Int.natAbs hsum
    rwa [Int.natAbs_mul, Int.natAbs_mul, Int.natAbs_natCast, Int.natAbs_natCast] at this
  simp only [add, hda, hdb, he, htotal]
  by_cases h : x + y = 0
  · have hsigns : (s && t) = false := by
      cases s with
      | false => rfl
      | true =>
        cases t with
        | false => rfl
        | true =>
          have hxs := nonpos_of_integer? hda ha
          have hyt := nonpos_of_integer? hdb hb
          omega
    rw [if_pos (hzero.mpr h), hsigns, h]
    rfl
  · rw [if_neg (fun h0 => h (hzero.mp h0))]
    simp only [ofInt, round, hmagnitude, hnegative]

theorem ofInt_natCast (n : Nat) : ofInt (n : Int) = ofNat n := by
  have hn : ¬ (n : Int) < 0 := by omega
  rw [ofInt, ofNat, Int.natAbs_natCast, decide_eq_false hn]

theorem add_one {n : Nat} (h : (ofNat n).integer? = some (n : Int)) :
    (ofNat n).add (ofNat 1) = ofNat (n + 1) := by
  have h1 : (ofNat 1).integer? = some 1 := by decide +kernel
  rw [add_of_integers h h1 (Or.inr (by decide)), ← Int.natCast_succ, ofInt_natCast]

theorem sub_one {w : Word} {x : Int} (h : w.integer? = some x) :
    w.sub (ofNat 1) = ofInt (x - 1) := by
  have hnumber : (ofNat 1).isNan = false := by decide +kernel
  have hminus : (ofNat 1).negate.integer? = some (-1) := by decide +kernel
  rw [sub, hnumber, if_neg Bool.false_ne_true, add_of_integers h hminus (Or.inr (by decide))]
  rfl

end Word

/-- A kind stores a natural as it is. -/
structure Kind.Exact (k : Kind) (n : Nat) : Prop where
  integer : (Word.ofNat n).integer? = some (n : Int)
  stored : k.coerce (Word.ofNat n) = Word.ofNat n

instance Kind.decidableExact (k : Kind) (n : Nat) : Decidable (k.Exact n) :=
  decidable_of_iff
    ((Word.ofNat n).integer? = some (n : Int) ∧ k.coerce (Word.ofNat n) = Word.ofNat n)
    ⟨fun h => ⟨h.1, h.2⟩, fun h => ⟨h.integer, h.stored⟩⟩

namespace Address

theorem ofWord_of_integer? {w : Word} {a capacity : Nat} (ha : w.integer? = some (a : Int))
    (hnext : (Word.ofNat (a + 1)).integer? = some ((a + 1 : Nat) : Int)) (hlt : a < capacity)
    (hcapacity : capacity < limit) : ofWord w capacity = .ok a := by
  obtain ⟨m, j, hm, hvalue⟩ := Word.floor_representable (Word.floor_of_integer? hnext)
  have hbound := le_bound (k := j) hm (by omega) hcapacity
  exact ofWord_eq_ok.mpr ⟨Word.floor_of_integer? ha, by omega⟩

theorem ofWord_ofNat {k : Kind} {a capacity : Nat} (ha : k.Exact a) (hnext : k.Exact (a + 1))
    (hlt : a < capacity) (hcapacity : capacity < limit) : ofWord (Word.ofNat a) capacity = .ok a :=
  ofWord_of_integer? ha.integer hnext.integer hlt hcapacity

theorem ofWord_refused {w : Word} {x : Int} {capacity : Nat} (hw : w.integer? = some x)
    (hx : x < 0 ∨ bound capacity ≤ x) : ofWord w capacity = .error (.outOfBounds w capacity) := by
  have hrange : ¬ (0 ≤ x ∧ x < bound capacity) := by omega
  simp only [ofWord, Word.floor_of_integer? hw, if_neg hrange]

end Address

end WordMachine
