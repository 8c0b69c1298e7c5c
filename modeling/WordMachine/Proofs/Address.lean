import WordMachine.Memory
import WordMachine.Proofs.Rounding

/-!
# Words as addresses

A word is accepted as an address only below the capacity, although the capacity it is compared with
may have been rounded upward: no word lies between a capacity and the word nearest to it.
-/

set_option autoImplicit false

namespace WordMachine

namespace Word

theorem datum_ofMagnitude {n : Nat} (h : n < 2 ^ 64) :
    (ofMagnitude false n).datum = binary64.decode n := by
  simp only [datum, ofMagnitude, Format.withSign, Bool.false_eq_true, if_false]
  rw [UInt64.toNat_ofNat_of_lt' h]

theorem datum_ofNat (n : Nat) : (ofNat n).datum = binary64.decode (binary64.magnitude n 0) := by
  refine datum_ofMagnitude (Nat.lt_of_le_of_lt (binary64.magnitude_le_infinity n 0) ?_)
  decide

theorem datum_finite_lt {w : Word} {s : Bool} {m : Nat} {q : Int} (h : w.datum = .finite s m q) :
    m < 2 ^ 53 :=
  binary64.decode_finite_lt h

theorem floor_representable {w : Word} {n : Nat} (h : w.floor? = some (n : Int)) :
    ∃ m k : Nat, m < 2 ^ 53 ∧ n = m * 2 ^ k := by
  cases hd : w.datum with
  | nan => simp [floor?, hd] at h
  | infinite s => simp [floor?, hd] at h
  | finite s m q =>
    have hm := datum_finite_lt hd
    simp only [floor?, hd, Option.some.injEq] at h
    by_cases hq : 0 ≤ q
    · rw [if_pos hq] at h
      cases s with
      | false =>
        refine ⟨m, q.toNat, hm, ?_⟩
        simp only [signed, Bool.false_eq_true, if_false] at h
        omega
      | true =>
        refine ⟨0, 0, by decide, ?_⟩
        simp only [signed, if_true] at h
        omega
    · rw [if_neg hq] at h
      have hle : (n : Int) ≤ m := by
        rw [← h]
        have hp : (0 : Int) < 2 ^ (-q).toNat := Int.pow_pos (by decide)
        refine Int.le_trans (Int.ediv_le_ediv hp (b := m) ?_) (Int.ediv_le_self _ (by omega))
        cases s <;> simp [signed]
      exact ⟨n, 0, by omega, by simp⟩

theorem integer?_of_value {w : Word} {s : Bool} {m n k : Nat} {q : Int}
    (hd : w.datum = .finite s m q) (hq : 0 ≤ k + q) (h : m * 2 ^ (k + q).toNat = n * 2 ^ k) :
    w.integer? = some (signed s n) := by
  simp only [integer?, hd]
  by_cases hpos : 0 ≤ q
  · have hk : (k + q).toNat = q.toNat + k := by omega
    rw [hk, Nat.pow_add, ← Nat.mul_assoc] at h
    rw [if_pos hpos, Nat.eq_of_mul_eq_mul_right (Nat.two_pow_pos k) h]
  · have hk : k = (-q).toNat + (k + q).toNat := by omega
    have hm : m = n * 2 ^ (-q).toNat := by
      apply Nat.eq_of_mul_eq_mul_right (Nat.two_pow_pos (k + q).toNat)
      rw [h, Nat.mul_assoc, ← Nat.pow_add, ← hk]
    rw [if_neg hpos, hm, Nat.mul_mod_left, if_pos rfl, Nat.mul_div_cancel _ (Nat.two_pow_pos _)]

end Word

namespace Address

theorem bound_eq {capacity : Nat} (h0 : capacity ≠ 0)
    (hfits : binary64.magnitude capacity 0 < binary64.infinity) :
    bound capacity = capacity ∨ ∃ e : Nat, 0 < e ∧ Nat.log2 capacity = e + 52 ∧
      bound capacity = (halfEven capacity e * 2 ^ e : Nat) := by
  obtain ⟨m', c, hdecode, hvalue⟩ := binary64.decode_magnitude (by decide) h0 0 hfits
  rw [← Word.datum_ofNat] at hdecode
  obtain ⟨e, he⟩ : ∃ e, binary64.keptExponent capacity 0 = e := ⟨_, rfl⟩
  have hlog : 0 < e → e = Nat.log2 capacity - 52 := by
    have hleast : binary64.leastExponent = -1074 := by decide
    have hprecision : (binary64.precision : Int) = 53 := rfl
    simp only [Format.keptExponent, hleast, hprecision] at he
    omega
  rw [he] at hdecode
  by_cases hsmall : e ≤ 0
  · rw [Format.keptDigits, he, if_pos hsmall] at hvalue
    have hint := Word.integer?_of_value hdecode (k := (-e).toNat) (n := capacity) (by omega)
      (by rw [show ((-e).toNat + (e + c)).toNat = c by omega, hvalue, show (0 : Int) - e = -e by omega])
    left
    rw [bound, hint]
    rfl
  · rw [Format.keptDigits, he, if_neg hsmall] at hvalue
    have hint := Word.integer?_of_value hdecode (k := 0)
      (n := halfEven capacity e.toNat * 2 ^ e.toNat) (by omega)
      (by
        rw [show ((0 : Nat) + (e + c)).toNat = c + e.toNat by omega, Nat.pow_add,
          ← Nat.mul_assoc, hvalue, show e - 0 = e by omega]
        omega)
    right
    refine ⟨e.toNat, by omega, by omega, ?_⟩
    rw [bound, hint]
    rfl

/-- A capacity is not rounded past a number of 53 digits. -/
theorem bound_le {capacity m k : Nat} (hm : m < 2 ^ 53) (h : capacity ≤ m * 2 ^ k) :
    bound capacity ≤ (m * 2 ^ k : Nat) := by
  by_cases h0 : capacity = 0
  · have hz : bound 0 = 0 := by decide +kernel
    rw [h0, hz]
    omega
  by_cases hfits : binary64.magnitude capacity 0 < binary64.infinity
  · rcases bound_eq h0 hfits with hbound | ⟨e, -, hlog, hbound⟩
    · rw [hbound]
      exact Int.ofNat_le.mpr h
    · rw [hbound]
      apply Int.ofNat_le.mpr
      by_cases hk : e ≤ k
      · have hsplit : m * 2 ^ k = m * 2 ^ (k - e) * 2 ^ e := by
          rw [Nat.mul_assoc, ← Nat.pow_add, Nat.sub_add_cancel hk]
        rw [hsplit] at h ⊢
        exact Nat.mul_le_mul_right _ (halfEven_le h)
      · -- the number has fewer digits than the capacity, so it cannot reach it
        have hlow : capacity < capacity := by
          calc capacity ≤ m * 2 ^ k := h
            _ < 2 ^ 53 * 2 ^ k := Nat.mul_lt_mul_of_pos_right hm (Nat.two_pow_pos k)
            _ = 2 ^ (53 + k) := (Nat.pow_add 2 _ _).symm
            _ ≤ 2 ^ Nat.log2 capacity := Nat.pow_le_pow_right (by omega) (by omega)
            _ ≤ capacity := Nat.log2_self_le h0
        omega
  · have htop : binary64.magnitude capacity 0 = binary64.infinity :=
      Nat.le_antisymm (binary64.magnitude_le_infinity _ _) (Nat.le_of_not_lt hfits)
    have hdatum : (Word.ofNat capacity).datum = .infinite false := by
      rw [Word.datum_ofNat, htop]
      decide
    rw [bound, Word.integer?, hdatum]
    exact Int.natCast_nonneg _

theorem magnitude_lt_infinity {capacity : Nat} (h : capacity < limit) :
    binary64.magnitude capacity 0 < binary64.infinity := by
  by_cases h0 : capacity = 0
  · rw [h0]
    decide
  have hleast : binary64.leastExponent = -1074 := by decide
  have hprecision : (binary64.precision : Int) = 53 := rfl
  have hlog : Nat.log2 capacity < 64 := (Nat.log2_lt h0).mpr h
  have hexponent : (binary64.keptExponent capacity 0 - binary64.leastExponent).toNat ≤ 1085 := by
    simp only [Format.keptExponent, hleast, hprecision]
    omega
  have hdigits : binary64.keptDigits capacity 0 ≤ 2 ^ 53 := binary64.keptDigits_le capacity 0
  have hfractions : binary64.fractions = 2 ^ 52 := rfl
  have hinfinity : binary64.infinity = 2047 * 2 ^ 52 := rfl
  have hshift := Nat.mul_le_mul_right (2 ^ 52) hexponent
  rw [binary64.magnitude_of_ne_zero h0, hfractions, hinfinity]
  omega

theorem le_bound {capacity m k : Nat} (hm : m < 2 ^ 53) (h : m * 2 ^ k ≤ capacity)
    (hcapacity : capacity < limit) : (m * 2 ^ k : Nat) ≤ bound capacity := by
  by_cases h0 : capacity = 0
  · have hz : bound 0 = 0 := by decide +kernel
    rw [h0, hz]
    omega
  rcases bound_eq h0 (magnitude_lt_infinity hcapacity) with hbound | ⟨e, -, hlog, hbound⟩
  · rw [hbound]
    exact Int.ofNat_le.mpr h
  · rw [hbound]
    apply Int.ofNat_le.mpr
    by_cases hk : e ≤ k
    · have hsplit : m * 2 ^ k = m * 2 ^ (k - e) * 2 ^ e := by
        rw [Nat.mul_assoc, ← Nat.pow_add, Nat.sub_add_cancel hk]
      rw [hsplit] at h ⊢
      exact Nat.mul_le_mul_right _ (le_halfEven h)
    · -- the leading digit of the capacity is kept, and is worth more than the number
      have hleading : 2 ^ 52 ≤ halfEven capacity e := by
        apply le_halfEven
        rw [← Nat.pow_add, Nat.add_comm, ← hlog]
        exact Nat.log2_self_le h0
      calc m * 2 ^ k ≤ 2 ^ 53 * 2 ^ k := Nat.mul_le_mul_right _ (Nat.le_of_lt hm)
        _ = 2 ^ (53 + k) := (Nat.pow_add 2 _ _).symm
        _ ≤ 2 ^ (52 + e) := Nat.pow_le_pow_right (by omega) (by omega)
        _ = 2 ^ 52 * 2 ^ e := Nat.pow_add 2 _ _
        _ ≤ halfEven capacity e * 2 ^ e := Nat.mul_le_mul_right _ hleading

theorem lt_bound {a capacity m k : Nat} (hm : m < 2 ^ 53) (hnext : a + 1 = m * 2 ^ k) (ha : a < capacity)
    (hcapacity : capacity < limit) : (a : Int) < bound capacity := by
  have hbound := le_bound (k := k) hm (by omega) hcapacity
  omega

theorem bound_eq_self {capacity : Nat} (h : capacity ≤ 2 ^ 53) : bound capacity = capacity := by
  have hlimit : capacity < limit := Nat.lt_of_le_of_lt h (by decide)
  obtain ⟨m, k, hm, rfl⟩ : ∃ m k, m < 2 ^ 53 ∧ capacity = m * 2 ^ k := by
    rcases Nat.lt_or_eq_of_le h with hlt | heq
    · exact ⟨capacity, 0, hlt, by rw [Nat.pow_zero, Nat.mul_one]⟩
    · exact ⟨1, 53, by decide, by rw [heq, Nat.one_mul]⟩
  exact Int.le_antisymm (bound_le hm (Nat.le_refl _)) (le_bound hm (Nat.le_refl _) hlimit)

theorem ofWord_eq_ok {w : Word} {capacity a : Nat} :
    ofWord w capacity = .ok a ↔ w.floor? = some (a : Int) ∧ (a : Int) < bound capacity := by
  simp only [ofWord]
  cases w.floor? with
  | none => simp
  | some n =>
    simp only [Option.some.injEq]
    split
    · rename_i hn
      simp only [Except.ok.injEq]
      omega
    · rename_i hn
      simp only [reduceCtorEq, false_iff]
      omega

theorem ofWord_error {w : Word} {capacity : Nat} {fault : Fault}
    (h : ofWord w capacity = .error fault) : fault = .outOfBounds w capacity := by
  simp only [ofWord] at h
  split at h
  · split at h <;> cases h
    rfl
  · cases h
    rfl

theorem ofWord_lt {w : Word} {capacity a : Nat} (h : ofWord w capacity = .ok a) :
    a < capacity := by
  obtain ⟨hfloor, hbound⟩ := ofWord_eq_ok.mp h
  obtain ⟨m, k, hm, ha⟩ := Word.floor_representable hfloor
  by_cases hlt : a < capacity
  · exact hlt
  · have := bound_le hm (show capacity ≤ m * 2 ^ k by omega)
    omega

end Address

end WordMachine
