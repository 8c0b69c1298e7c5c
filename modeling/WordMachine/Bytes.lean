/-!
# Bytes

Naturals as byte strings of a fixed width, most significant byte first, and the replacement of a
stretch of a buffer.
-/

set_option autoImplicit false

-- powers of naturals and integers stay the ones of the core library where others are in scope
attribute [instance (high)] instPowNat
attribute [default_instance high] instPowNat

namespace WordMachine.Bytes

def ofNat : Nat → Nat → List UInt8
  | 0, _ => []
  | width + 1, n => UInt8.ofNat (n / 256 ^ width) :: ofNat width n

def toNat : List UInt8 → Nat
  | [] => 0
  | b :: bs => b.toNat * 256 ^ bs.length + toNat bs

theorem length_ofNat (width n : Nat) : (ofNat width n).length = width := by
  induction width with
  | zero => rfl
  | succ width ih => simp [ofNat, ih]

theorem toNat_lt (bs : List UInt8) : toNat bs < 256 ^ bs.length := by
  induction bs with
  | nil => simp [toNat]
  | cons b bs ih =>
    have hb := b.toNat_lt
    have hm : b.toNat * 256 ^ bs.length ≤ 255 * 256 ^ bs.length :=
      Nat.mul_le_mul_right _ (by omega)
    simp only [toNat, List.length_cons, Nat.pow_succ]
    omega

theorem toNat_ofNat (width n : Nat) : toNat (ofNat width n) = n % 256 ^ width := by
  induction width with
  | zero => simp [ofNat, toNat, Nat.mod_one]
  | succ width ih =>
    have hd : UInt8.toNat (UInt8.ofNat (n / 256 ^ width)) = n / 256 ^ width % 256 := by simp
    rw [ofNat, toNat, length_ofNat, ih, hd, Nat.pow_succ, Nat.mod_mul, Nat.mul_comm]
    omega

theorem ofNat_add_mul (width n k : Nat) : ofNat width (k * 256 ^ width + n) = ofNat width n := by
  induction width generalizing k with
  | zero => rfl
  | succ width ih =>
    have hs : k * 256 ^ (width + 1) = k * 256 * 256 ^ width := by
      rw [Nat.pow_succ, Nat.mul_assoc, Nat.mul_comm 256]
    have hd : (k * 256 * 256 ^ width + n) / 256 ^ width = n / 256 ^ width + k * 256 := by
      rw [Nat.add_comm, Nat.add_mul_div_right _ _ (Nat.pow_pos (by omega))]
    rw [ofNat, ofNat, hs, ih, hd]
    congr 1
    apply UInt8.toNat_inj.mp
    simp

theorem ofNat_toNat (bs : List UInt8) : ofNat bs.length (toNat bs) = bs := by
  induction bs with
  | nil => rfl
  | cons b bs ih =>
    have hlt := toNat_lt bs
    have hd : (b.toNat * 256 ^ bs.length + toNat bs) / 256 ^ bs.length = b.toNat := by
      rw [Nat.add_comm, Nat.add_mul_div_right _ _ (Nat.pow_pos (by omega)),
        Nat.div_eq_of_lt hlt, Nat.zero_add]
    simp only [List.length_cons, ofNat, toNat, hd, UInt8.ofNat_toNat, ofNat_add_mul, ih]

/-- Puts bytes over a buffer from a place on; what would fall past its end is dropped. -/
def splice (buffer : Array UInt8) (place : Nat) : List UInt8 → Array UInt8
  | [] => buffer
  | b :: bs => splice (buffer.setIfInBounds place b) (place + 1) bs

theorem size_splice (buffer : Array UInt8) (place : Nat) (bs : List UInt8) :
    (splice buffer place bs).size = buffer.size := by
  induction bs generalizing buffer place with
  | nil => rfl
  | cons b bs ih => rw [splice, ih, Array.size_setIfInBounds]

theorem splice_append (buffer : Array UInt8) (place : Nat) (bs cs : List UInt8) :
    splice buffer place (bs ++ cs) = splice (splice buffer place bs) (place + bs.length) cs := by
  induction bs generalizing buffer place with
  | nil => rfl
  | cons b bs ih =>
    rw [List.cons_append, splice, splice, ih, List.length_cons, Nat.add_assoc, Nat.add_comm 1]

theorem splice_frame (buffer : Array UInt8) (place : Nat) (bs : List UInt8) (i : Nat)
    (h : i < place ∨ place + bs.length ≤ i) : (splice buffer place bs)[i]? = buffer[i]? := by
  induction bs generalizing buffer place with
  | nil => rfl
  | cons b bs ih =>
    simp only [List.length_cons] at h
    rw [splice, ih _ _ (by omega), Array.getElem?_setIfInBounds_ne (by omega)]

theorem splice_get (buffer : Array UInt8) (place : Nat) (bs : List UInt8) (k : Nat)
    (hk : k < bs.length) (h : place + bs.length ≤ buffer.size) :
    (splice buffer place bs)[place + k]? = bs[k]? := by
  induction bs generalizing buffer place k with
  | nil => simp at hk
  | cons b bs ih =>
    simp only [List.length_cons] at hk h
    rw [splice]
    cases k with
    | zero =>
      change (splice _ (place + 1) bs)[place]? = some b
      rw [splice_frame _ _ _ _ (by omega), Array.getElem?_setIfInBounds_self_of_lt (by omega)]
    | succ k =>
      rw [show place + (k + 1) = place + 1 + k by omega,
        ih _ _ _ (by omega) (by rw [Array.size_setIfInBounds]; omega)]
      rfl

theorem splice_extract {a b : Array UInt8} (hsize : a.size = b.size) {lo hi : Nat}
    (hle : lo ≤ hi) (hhi : hi ≤ b.size) (h : ∀ k, k < lo ∨ hi ≤ k → a[k]? = b[k]?) :
    splice a lo (b.extract lo hi).toList = b := by
  have hlength : (b.extract lo hi).toList.length = hi - lo := by
    rw [Array.length_toList, Array.size_extract]
    omega
  apply Array.ext_getElem?
  intro k
  by_cases hk : lo ≤ k ∧ k < hi
  · obtain ⟨j, rfl⟩ := Nat.exists_eq_add_of_le hk.1
    rw [splice_get _ _ _ j (by omega) (by omega), Array.getElem?_toList, Array.getElem?_extract,
      if_pos (by omega)]
  · rw [splice_frame _ _ _ _ (by omega), h k (by omega)]

theorem splice_whole {a b : Array UInt8} (hsize : a.size = b.size) : splice a 0 b.toList = b := by
  have hcopy := splice_extract hsize (Nat.zero_le _) (Nat.le_refl _) fun k hk => by
    rw [Array.getElem?_eq_none (by omega), Array.getElem?_eq_none (by omega)]
  rwa [Array.extract_size] at hcopy

end WordMachine.Bytes
