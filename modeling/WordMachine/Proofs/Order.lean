import Mathlib.Algebra.Field.Rat
import Mathlib.Algebra.Order.Field.Power
import Mathlib.Algebra.Order.Field.Rat
import Mathlib.Order.WithBot
import WordMachine.Flag
import WordMachine.Proofs.Integers

/-!
# The order of words

Words are ordered as the numbers that they stand for: finite ones as rationals, the infinities below
and above all of them, and the two zeros not at all. What is no number is neither equal to anything
nor below nor above it. A jump after a comparison asks for this order.
-/

set_option autoImplicit false

namespace WordMachine

theorem compare_eq_cmp {α : Type} [LinearOrder α] {u v : Int} {x y : α} (hlt : u < v ↔ x < y)
    (hgt : v < u ↔ y < x) : compare u v = cmp x y := by
  rw [← cmp_eq_compare]
  simp only [cmp, cmpUsing, hlt, hgt]

namespace Word

variable {a b : Word}

/-- The number that a word stands for, infinite ones included. -/
def number? (w : Word) : Option (WithBot (WithTop ℚ)) :=
  match w.datum with
  | .nan => none
  | .infinite negative => some (if negative then ⊥ else ⊤)
  | .finite s m q => some ((signed s m * 2 ^ q : ℚ) : WithTop ℚ)

theorem zpow_scaled {q e : Int} (h : e ≤ q) :
    (2 : ℚ) ^ q = ((2 ^ (q - e).toNat : Nat) : ℚ) * 2 ^ e := by
  rw [Nat.cast_pow, ← zpow_natCast, Int.toNat_of_nonneg (Int.sub_nonneg_of_le h),
    Nat.cast_ofNat, ← zpow_add₀ two_ne_zero, Int.sub_add_cancel]

theorem finite_scaled (s : Bool) (m : Nat) {q e : Int} (h : e ≤ q) :
    (signed s m * 2 ^ q : ℚ) = (signed s (m * 2 ^ (q - e).toNat) : ℚ) * 2 ^ e := by
  rw [signed_mul, Int.cast_mul, Int.cast_natCast, zpow_scaled h, mul_assoc]

theorem compare_finite (s t : Bool) (m n : Nat) (p q : Int) :
    compare (signed s (m * 2 ^ (p - min p q).toNat)) (signed t (n * 2 ^ (q - min p q).toNat)) =
      cmp (signed s m * 2 ^ p : ℚ) (signed t n * 2 ^ q) := by
  have hunit : (0 : ℚ) < 2 ^ min p q := zpow_pos two_pos _
  rw [finite_scaled s m (Int.min_le_left p q), finite_scaled t n (Int.min_le_right p q)]
  apply compare_eq_cmp
  · rw [mul_lt_mul_iff_left₀ hunit, Int.cast_lt]
  · rw [mul_lt_mul_iff_left₀ hunit, Int.cast_lt]

theorem cmp_coe (x y : ℚ) : cmp ((x : WithTop ℚ) : WithBot (WithTop ℚ)) (y : WithTop ℚ) = cmp x y := by
  simp only [cmp, cmpUsing, WithBot.coe_lt_coe, WithTop.coe_lt_coe]

theorem compare?_of_numbers {x y : WithBot (WithTop ℚ)} (ha : a.number? = some x)
    (hb : b.number? = some y) : a.compare? b = some (cmp x y) := by
  have hbelow (r : ℚ) : ((r : WithTop ℚ) : WithBot (WithTop ℚ)) < ⊤ :=
    WithBot.coe_lt_coe.mpr (WithTop.coe_lt_top r)
  have habove (r : ℚ) : (⊥ : WithBot (WithTop ℚ)) < (r : WithTop ℚ) := WithBot.bot_lt_coe _
  rw [number?] at ha hb
  rw [compare?]
  cases hda : a.datum with
  | nan => simp only [hda, reduceCtorEq] at ha
  | infinite s =>
    simp only [hda, Option.some.injEq] at ha
    cases hdb : b.datum with
    | nan => simp only [hdb, reduceCtorEq] at hb
    | infinite t =>
      simp only [hdb, Option.some.injEq] at hb
      refine congrArg some (compare_eq_cmp ?_ ?_) <;> rw [← ha, ← hb] <;>
        cases s <;> cases t <;> simp [signed]
    | finite t n q =>
      simp only [hdb, Option.some.injEq] at hb
      refine congrArg some (compare_eq_cmp ?_ ?_) <;> rw [← ha, ← hb] <;>
        cases s <;> simp [signed, hbelow, habove]
  | finite s m p =>
    simp only [hda, Option.some.injEq] at ha
    cases hdb : b.datum with
    | nan => simp only [hdb, reduceCtorEq] at hb
    | infinite t =>
      simp only [hdb, Option.some.injEq] at hb
      refine congrArg some (compare_eq_cmp ?_ ?_) <;> rw [← ha, ← hb] <;>
        cases t <;> simp [signed, hbelow, habove]
    | finite t n q =>
      simp only [hdb, Option.some.injEq] at hb
      rw [← ha, ← hb, cmp_coe]
      exact congrArg some (compare_finite s t m n p q)

theorem compare?_of_none (h : a.number? = none ∨ b.number? = none) : a.compare? b = none := by
  rw [number?, number?] at h
  rw [compare?]
  cases ha : a.datum <;> cases hb : b.datum <;> simp_all

end Word

namespace Condition

/-- What a jump asks of the two words compared before it. -/
def Orders (a b : Word) : Condition → Prop
  | always => True
  | equal => ∃ x, a.number? = some x ∧ b.number? = some x
  | notEqual => ¬ ∃ x, a.number? = some x ∧ b.number? = some x
  | less => ∃ x y, a.number? = some x ∧ b.number? = some y ∧ x < y
  | greater => ∃ x y, a.number? = some x ∧ b.number? = some y ∧ y < x

theorem holds_compare (condition : Condition) (a b : Word) :
    condition.holds (some (Flag.compare a b)) ↔ condition.Orders a b := by
  cases ha : a.number? with
  | none =>
    have hflag : Flag.compare a b = .unordered := by
      rw [Flag.compare, Word.compare?_of_none (Or.inl ha)]
    cases condition <;> simp [holds, Orders, hflag, ha]
  | some x =>
    cases hb : b.number? with
    | none =>
      have hflag : Flag.compare a b = .unordered := by
        rw [Flag.compare, Word.compare?_of_none (Or.inr hb)]
      cases condition <;> simp [holds, Orders, hflag, hb]
    | some y =>
      rw [Flag.compare, Word.compare?_of_numbers ha hb]
      rcases lt_trichotomy x y with hlt | rfl | hgt
      · rw [(cmp_eq_lt_iff x y).mpr hlt]
        cases condition <;> simp [holds, Orders, ha, hb, hlt, hlt.ne', hlt.le]
      · rw [(cmp_eq_eq_iff x x).mpr rfl]
        cases condition <;> simp [holds, Orders, ha, hb]
      · rw [(cmp_eq_gt_iff x y).mpr hgt]
        cases condition <;> simp [holds, Orders, ha, hb, hgt, hgt.ne, hgt.le]

end Condition

end WordMachine
