import WordMachine.Kind

/-!
# Banks of words

A buffer of bytes in which word `i` of a kind takes the bytes from `i * byteWidth` on. Registers
and memory are both kept this way.
-/

set_option autoImplicit false

namespace WordMachine

structure Bank where
  kind : Kind
  bytes : Array UInt8
  deriving DecidableEq, Repr

namespace Bank

def zeroed (kind : Kind) (words : Nat) : Bank := ⟨kind, Array.replicate (words * kind.byteWidth) 0⟩

/-- The bytes of the words from `start` up to `stop`, as far as the buffer goes. -/
def span (b : Bank) (start stop : Nat) : Array UInt8 :=
  b.bytes.extract (start * b.kind.byteWidth) (stop * b.kind.byteWidth)

def read (b : Bank) (i : Nat) : Except Fault Word := b.kind.decode (b.span i (i + 1)).toList

/-- The word at a place; past the end there is no number. -/
def word (b : Bank) (i : Nat) : Word :=
  match b.read i with
  | .ok w => w
  | .error _ => Word.nan

def putBytes (b : Bank) (i : Nat) (bytes : List UInt8) : Bank :=
  { b with bytes := Bytes.splice b.bytes (i * b.kind.byteWidth) bytes }

def put (b : Bank) (i : Nat) (w : Word) : Bank := b.putBytes i (b.kind.encode w)

def clear (b : Bank) : Bank := { b with bytes := Array.replicate b.bytes.size 0 }

theorem size_zeroed (kind : Kind) (words : Nat) :
    (zeroed kind words).bytes.size = words * kind.byteWidth := by
  simp [zeroed]

theorem size_putBytes (b : Bank) (i : Nat) (bytes : List UInt8) :
    (b.putBytes i bytes).bytes.size = b.bytes.size :=
  Bytes.size_splice _ _ _

theorem size_put (b : Bank) (i : Nat) (w : Word) : (b.put i w).bytes.size = b.bytes.size :=
  b.size_putBytes _ _

theorem size_clear (b : Bank) : b.clear.bytes.size = b.bytes.size := by
  simp [clear]

theorem length_span (b : Bank) (i : Nat) (h : (i + 1) * b.kind.byteWidth ≤ b.bytes.size) :
    (b.span i (i + 1)).toList.length = b.kind.byteWidth := by
  rw [Nat.succ_mul] at h
  simp only [span, Array.length_toList, Array.size_extract, Nat.succ_mul]
  omega

theorem read_eq_ok (b : Bank) (i : Nat) (h : (i + 1) * b.kind.byteWidth ≤ b.bytes.size) :
    b.read i = .ok (b.word i) := by
  have hr : b.read i = .ok (b.kind.ofPattern (Bytes.toNat (b.span i (i + 1)).toList)) := by
    rw [read, Kind.decode, if_pos (b.length_span i h)]
  rw [word, hr]

theorem word_lies_in (b : Bank) {i n : Nat} (hi : i < n) (h : b.bytes.size = n * b.kind.byteWidth) :
    (i + 1) * b.kind.byteWidth ≤ b.bytes.size :=
  h ▸ Nat.mul_le_mul_right _ hi

theorem span_putBytes (b : Bank) (i : Nat) {bytes : List UInt8}
    (hlength : bytes.length = b.kind.byteWidth) (h : (i + 1) * b.kind.byteWidth ≤ b.bytes.size) :
    ((b.putBytes i bytes).span i (i + 1)).toList = bytes := by
  rw [Nat.succ_mul] at h
  apply List.ext_getElem?
  intro k
  simp only [span, putBytes, Array.getElem?_toList, Array.getElem?_extract,
    Bytes.size_splice, Nat.succ_mul]
  split
  · exact Bytes.splice_get _ _ _ _ (by omega) (by omega)
  · exact (List.getElem?_eq_none (by omega)).symm

theorem read_putBytes (b : Bank) (i : Nat) {bytes : List UInt8}
    (hlength : bytes.length = b.kind.byteWidth) (h : (i + 1) * b.kind.byteWidth ≤ b.bytes.size) :
    (b.putBytes i bytes).read i = b.kind.decode bytes :=
  congrArg b.kind.decode (b.span_putBytes i hlength h)

theorem read_put (b : Bank) (i : Nat) (w : Word)
    (h : (i + 1) * b.kind.byteWidth ≤ b.bytes.size) : (b.put i w).read i = .ok (b.kind.coerce w) := by
  rw [put, b.read_putBytes i (b.kind.length_encode w) h, Kind.decode_encode]

theorem bytes_putBytes_frame (b : Bank) (i : Nat) {bytes : List UInt8}
    (hlength : bytes.length = b.kind.byteWidth) (k : Nat)
    (h : k < i * b.kind.byteWidth ∨ (i + 1) * b.kind.byteWidth ≤ k) :
    (b.putBytes i bytes).bytes[k]? = b.bytes[k]? := by
  rw [Nat.succ_mul] at h
  exact Bytes.splice_frame _ _ _ _ (by omega)

theorem bytes_put_frame (b : Bank) (i : Nat) (w : Word) (k : Nat)
    (h : k < i * b.kind.byteWidth ∨ (i + 1) * b.kind.byteWidth ≤ k) :
    (b.put i w).bytes[k]? = b.bytes[k]? :=
  b.bytes_putBytes_frame i (b.kind.length_encode w) k h

theorem putBytes_append (b : Bank) (i : Nat) {first : List UInt8}
    (h : first.length = b.kind.byteWidth) (rest : List UInt8) :
    b.putBytes i (first ++ rest) = (b.putBytes i first).putBytes (i + 1) rest := by
  have hbytes : Bytes.splice b.bytes (i * b.kind.byteWidth) (first ++ rest) =
      Bytes.splice (b.putBytes i first).bytes ((i + 1) * b.kind.byteWidth) rest := by
    rw [Bytes.splice_append, h, ← Nat.succ_mul]
    rfl
  exact congrArg (Bank.mk b.kind) hbytes

theorem putBytes_cons (b : Bank) (i : Nat) (w : Word) (ws : List Word) :
    b.putBytes i (b.kind.encodeWords (w :: ws)) =
      (b.put i w).putBytes (i + 1) (b.kind.encodeWords ws) := by
  rw [Kind.encodeWords, List.flatMap_cons]
  exact b.putBytes_append i (b.kind.length_encode w) _

theorem span_of_bytes {b d : Bank} (hkind : d.kind = b.kind) (hsize : d.bytes.size = b.bytes.size)
    {i : Nat} (h : ∀ k, i * b.kind.byteWidth ≤ k → k < (i + 1) * b.kind.byteWidth →
      d.bytes[k]? = b.bytes[k]?) : d.span i (i + 1) = b.span i (i + 1) := by
  apply Array.ext_getElem?
  intro k
  simp only [span, Array.getElem?_extract, hkind, hsize]
  by_cases hk : k < min ((i + 1) * b.kind.byteWidth) b.bytes.size - i * b.kind.byteWidth
  · rw [if_pos hk, if_pos hk, h _ (by omega) (by omega)]
  · rw [if_neg hk, if_neg hk]

theorem span_putBytes_ne (b : Bank) {i j : Nat} {bytes : List UInt8}
    (hlength : bytes.length = b.kind.byteWidth) (hne : j ≠ i) :
    (b.putBytes i bytes).span j (j + 1) = b.span j (j + 1) := by
  have hkind : (b.putBytes i bytes).kind = b.kind := rfl
  apply span_of_bytes hkind (b.size_putBytes i bytes)
  intro k hlow hhigh
  apply b.bytes_putBytes_frame i hlength
  rcases Nat.lt_or_gt_of_ne hne with hlt | hgt
  · have := Nat.mul_le_mul_right b.kind.byteWidth (show j + 1 ≤ i by omega)
    omega
  · have := Nat.mul_le_mul_right b.kind.byteWidth (show i + 1 ≤ j by omega)
    omega

theorem span_put_ne (b : Bank) {i j : Nat} (w : Word) (hne : j ≠ i) :
    (b.put i w).span j (j + 1) = b.span j (j + 1) :=
  b.span_putBytes_ne (b.kind.length_encode w) hne

theorem read_putBytes_ne (b : Bank) {i j : Nat} {bytes : List UInt8}
    (hlength : bytes.length = b.kind.byteWidth) (hne : j ≠ i) :
    (b.putBytes i bytes).read j = b.read j := by
  show b.kind.decode ((b.putBytes i bytes).span j (j + 1)).toList = _
  rw [b.span_putBytes_ne hlength hne, read]

theorem read_put_ne (b : Bank) {i j : Nat} (w : Word) (hne : j ≠ i) :
    (b.put i w).read j = b.read j :=
  b.read_putBytes_ne (b.kind.length_encode w) hne

theorem word_put (b : Bank) (i : Nat) (w : Word)
    (h : (i + 1) * b.kind.byteWidth ≤ b.bytes.size) : (b.put i w).word i = b.kind.coerce w := by
  rw [word, b.read_put i w h]

theorem word_put_ne (b : Bank) {i j : Nat} (w : Word) (hne : j ≠ i) :
    (b.put i w).word j = b.word j := by
  rw [word, b.read_put_ne w hne, word]

end Bank

end WordMachine
