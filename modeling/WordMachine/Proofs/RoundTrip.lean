import WordMachine.Proofs.Coercion

/-!
# Encoding and decoding

The bytes of a word are decoded to the coerced word, and every string of as many bytes as a word
takes is encoded again as it was, but for the patterns of no number in the narrow float kind, which
become quiet ones. A sequence of words is encoded word by word, so it can be cut into words again.
-/

set_option autoImplicit false

namespace WordMachine

namespace Format

variable {f g : Format}

theorem decode_convert_nan (hf : 0 < f.precision) (hg : 1 < g.precision) {pattern : Nat}
    (h : f.decode pattern = .nan) : g.decode (f.convert g pattern) = .nan := by
  have hfraction := quietFraction_lt hf hg (Nat.mod_lt pattern f.fractions_pos)
  rw [convert_nan h]
  exact (decode_nan _ (quietFraction_ne_zero hg _) hfraction).1

theorem decode_withSign_ne_nan {magnitude : Nat} (negative : Bool) (h : magnitude ≤ f.infinity) :
    f.decode (f.withSign negative magnitude) ≠ .nan := by
  have hlt : magnitude < f.signBit := by
    have hpos := f.fractions_pos
    rw [← f.infinity_lt_signBit]
    omega
  intro hnan
  simp only [decode, withSign_mod negative hlt, withSign_fraction] at hnan
  split at hnan
  · rename_i hfield
    split at hnan
    · cases hnan
    · rename_i hfraction
      have hsplit := Nat.div_add_mod' magnitude f.fractions
      rw [hfield, ← infinity] at hsplit
      omega
  · split at hnan <;> cases hnan

theorem decode_convert_ne_nan {pattern : Nat} (h : f.decode pattern ≠ .nan) :
    g.decode (f.convert g pattern) ≠ .nan := by
  cases hd : f.decode pattern with
  | nan => exact absurd hd h
  | infinite s =>
    rw [convert_infinite hd]
    exact decode_withSign_ne_nan _ (Nat.le_refl _)
  | finite s m q =>
    rw [convert_finite hd]
    exact decode_withSign_ne_nan _ (g.magnitude_le_infinity m q)

theorem narrow_widen_narrow (pattern : Nat) :
    binary64.convert binary32 (binary32.convert binary64 (binary64.convert binary32 pattern)) =
      binary64.convert binary32 pattern := by
  have hlt : binary64.convert binary32 pattern < 2 ^ 32 :=
    convert_lt (g := binary32) (by decide) (by decide) pattern
  by_cases h : binary64.decode pattern = .nan
  · have hnarrow := quietFraction_lt (f := binary64) (g := binary32) (by decide) (by decide)
      (Nat.mod_lt pattern binary64.fractions_pos)
    have hwide := quietFraction_lt (f := binary32) (g := binary64) (by decide) (by decide) hnarrow
    obtain ⟨hd, hs, hf⟩ := decode_nan (binary64.isNegative pattern)
      (quietFraction_ne_zero (f := binary64) (by decide) _) hnarrow
    obtain ⟨hd', hs', hf'⟩ := decode_nan (binary64.isNegative pattern)
      (quietFraction_ne_zero (f := binary32) (by decide) _) hwide
    have hsame (fraction : Nat) : binary64.quietFraction binary32 (binary32.quietFraction binary64
        (binary64.quietFraction binary32 fraction)) = binary64.quietFraction binary32 fraction := by
      have hquiet : (2 ^ 51) >>> 29 = 2 ^ 22 := by decide
      rw [quietFraction_widen, quietFraction_narrow, Nat.shiftRight_or_distrib, hquiet,
        Nat.shiftLeft_shiftRight, quietFraction_narrow, Nat.or_assoc, Nat.or_self, Nat.or_assoc,
        Nat.or_self]
    rw [convert_nan h, convert_nan hd, hs, hf, convert_nan hd', hs', hf', hsame]
  · exact narrow_widen hlt (decode_convert_ne_nan h)

end Format

namespace Kind

variable {k : Kind} {w : Word} {bytes : List UInt8}

/-- The bytes are a pattern of no number that the kind does not keep as it is. -/
def Loses (k : Kind) (bytes : List UInt8) : Prop :=
  k = float32 ∧ binary32.decode (Bytes.toNat bytes) = .nan

theorem pattern_coerce (k : Kind) (w : Word) : k.pattern (k.coerce w) = k.pattern w := by
  rw [coerce_eq]
  cases k with
  | float32 =>
    have hwide : binary32.convert binary64 (binary64.convert binary32 w.bits.toNat) < 2 ^ 64 :=
      Format.convert_lt (g := binary64) (by decide) (by decide) _
    simp only [pattern, ofPattern, UInt64.toNat_ofNat_of_lt' hwide, Format.narrow_widen_narrow]
  | float64 => simp only [pattern, ofPattern, UInt64.ofNat_toNat]
  | int8 | uint8 | int16 | uint16 | int32 | uint32 => exact pattern_ofPattern rfl (pattern_lt _ w)

theorem encode_coerce (k : Kind) (w : Word) : k.encode (k.coerce w) = k.encode w := by
  rw [encode, pattern_coerce, encode]

theorem toNat_lt (h : bytes.length = k.byteWidth) : Bytes.toNat bytes < 2 ^ k.bits := by
  rw [← two_pow_bits, ← h]
  exact Bytes.toNat_lt bytes

theorem decode_eq_ok (h : bytes.length = k.byteWidth) :
    k.decode bytes = .ok (k.ofPattern (Bytes.toNat bytes)) := if_pos h

theorem encode_ofPattern (h : bytes.length = k.byteWidth) (hkeeps : ¬ k.Loses bytes) :
    k.encode (k.ofPattern (Bytes.toNat bytes)) = bytes := by
  have hlt := toNat_lt h
  have hpattern : k.pattern (k.ofPattern (Bytes.toNat bytes)) = Bytes.toNat bytes := by
    cases k with
    | float32 =>
      have hwide : binary32.convert binary64 (Bytes.toNat bytes) < 2 ^ 64 :=
        Format.convert_lt (g := binary64) (by decide) (by decide) _
      simp only [pattern, ofPattern, UInt64.toNat_ofNat_of_lt' hwide]
      exact Format.narrow_widen hlt fun hnan => hkeeps ⟨rfl, hnan⟩
    | float64 => exact UInt64.toNat_ofNat_of_lt' hlt
    | int8 | uint8 | int16 | uint16 | int32 | uint32 => exact pattern_ofPattern rfl hlt
  rw [encode, hpattern, ← h, Bytes.ofNat_toNat]

theorem encode_of_loses (h : bytes.length = k.byteWidth) (hloses : k.Loses bytes) :
    (k.ofPattern (Bytes.toNat bytes)).isNan ∧
      k.Loses (k.encode (k.ofPattern (Bytes.toNat bytes))) := by
  obtain ⟨rfl, hnan⟩ := hloses
  have hwide : binary32.convert binary64 (Bytes.toNat bytes) < 2 ^ 64 :=
    Format.convert_lt (g := binary64) (by decide) (by decide) _
  have hdecoded := Format.decode_convert_nan (g := binary64) (by decide) (by decide) hnan
  have hencoded := Format.decode_convert_nan (g := binary32) (by decide) (by decide) hdecoded
  refine ⟨?_, rfl, ?_⟩
  · simp only [Word.isNan, Word.datum, ofPattern, UInt64.toNat_ofNat_of_lt' hwide, hdecoded]
  · rw [encode, Bytes.toNat_ofNat, two_pow_bits, Nat.mod_eq_of_lt (pattern_lt _ _)]
    simpa only [pattern, ofPattern, UInt64.toNat_ofNat_of_lt' hwide] using hencoded

end Kind

theorem mapM_eq_map {M : Type → Type} [Monad M] [LawfulMonad M] {α β : Type} {l : List α}
    {f : α → M β} {g : α → β} (h : ∀ a ∈ l, f a = pure (g a)) : l.mapM f = pure (l.map g) := by
  induction l with
  | nil => rfl
  | cons a l ih =>
    rw [List.mapM_cons, h a List.mem_cons_self, ih fun b hb => h b (List.mem_cons_of_mem a hb),
      pure_bind, pure_bind, List.map_cons]

/-- Stretches of a width, one after the other; what is left over at the end is dropped. -/
def chunks {α : Type} (width : Nat) (l : List α) : List (List α) :=
  (List.range (l.length / width)).map fun i => (l.drop (i * width)).take width

theorem length_of_mem_chunks {α : Type} {width : Nat} {l chunk : List α}
    (h : chunk ∈ chunks width l) : chunk.length = width := by
  obtain ⟨i, hi, rfl⟩ := List.mem_map.mp h
  have hfits : (i + 1) * width ≤ l.length :=
    Nat.le_trans (Nat.mul_le_mul_right width (List.mem_range.mp hi)) (Nat.div_mul_le_self _ _)
  rw [Nat.succ_mul] at hfits
  rw [List.length_take, List.length_drop]
  omega

section

variable {α β : Type} {width : Nat} (hwidth : 0 < width)
include hwidth

theorem chunks_append {first : List α} (h : first.length = width) (rest : List α) :
    chunks width (first ++ rest) = first :: chunks width rest := by
  have hcount : (first ++ rest).length / width = rest.length / width + 1 := by
    rw [List.length_append, h, Nat.add_div_left _ hwidth]
  rw [chunks, hcount, List.range_succ_eq_map, List.map_cons, List.map_map, Nat.zero_mul,
    List.drop_zero, List.take_append_of_le_length (Nat.le_of_eq h.symm),
    List.take_of_length_le (Nat.le_of_eq h)]
  refine congrArg (first :: ·) (List.map_congr_left fun i _ => ?_)
  rw [Function.comp_apply, Nat.succ_mul, Nat.add_comm, ← List.drop_drop, ← h,
    List.drop_left]

theorem chunks_flatMap {f : α → List β} (hf : ∀ a, (f a).length = width) (l : List α) :
    chunks width (l.flatMap f) = l.map f := by
  induction l with
  | nil => simp [chunks]
  | cons a l ih => rw [List.flatMap_cons, chunks_append hwidth (hf a), ih, List.map_cons]

end

def Bank.putAll (b : Bank) (i : Nat) : List Word → Bank
  | [] => b
  | w :: ws => (b.put i w).putAll (i + 1) ws

theorem Bank.putAll_eq (b : Bank) (i : Nat) (ws : List Word) :
    b.putAll i ws = b.putBytes i (b.kind.encodeWords ws) := by
  induction ws generalizing b i with
  | nil => rfl
  | cons w ws ih =>
    rw [putAll, ih, putBytes_cons]
    rfl

namespace Kind

variable {k : Kind}

def decodeWords (k : Kind) (bytes : List UInt8) : List Word :=
  (chunks k.byteWidth bytes).map fun chunk => k.ofPattern (Bytes.toNat chunk)

theorem mapM_decode_chunks (k : Kind) (bytes : List UInt8) :
    (chunks k.byteWidth bytes).mapM k.decode = .ok (k.decodeWords bytes) :=
  mapM_eq_map fun _ hchunk => decode_eq_ok (length_of_mem_chunks hchunk)

theorem decodeWords_append {first : List UInt8} (h : first.length = k.byteWidth)
    (rest : List UInt8) :
    k.decodeWords (first ++ rest) = k.ofPattern (Bytes.toNat first) :: k.decodeWords rest := by
  rw [decodeWords, chunks_append k.byteWidth_pos h, List.map_cons, decodeWords]

theorem ofPattern_encode (k : Kind) (w : Word) :
    k.ofPattern (Bytes.toNat (k.encode w)) = k.coerce w := by
  have hdecode := k.decode_encode w
  rw [decode_eq_ok (k.length_encode w)] at hdecode
  exact Except.ok.inj hdecode

theorem decodeWords_encodeWords (k : Kind) (ws : List Word) :
    k.decodeWords (k.encodeWords ws) = ws.map k.coerce := by
  rw [decodeWords, encodeWords, chunks_flatMap k.byteWidth_pos k.length_encode, List.map_map]
  exact List.map_congr_left fun w _ => k.ofPattern_encode w

theorem putAll_zeroed (k : Kind) (ws : List Word) :
    ((Bank.zeroed k ws.length).putAll 0 ws).bytes.toList = k.encodeWords ws := by
  have hsize : (Bank.zeroed k ws.length).bytes.size = (k.encodeWords ws).toArray.size := by
    rw [Bank.size_zeroed, List.size_toArray, length_encodeWords]
  have hwhole := Bytes.splice_whole hsize
  rw [Bank.putAll_eq, Bank.putBytes, Nat.zero_mul]
  exact congrArg Array.toList hwhole

/-- Bytes of a word are decoded and encoded again as they were, but for the patterns of no number in
the narrow float kind, which are decoded to no number and encoded to such a pattern. A word is
encoded and decoded to the coerced word, which is stored by the same bytes. Words are encoded back
to back, as if put one by one into zeroed bytes, and are cut into words and decoded again. -/
theorem encoding_and_decoding_invert (k : Kind) :
    (∀ bytes : List UInt8, bytes.length = k.byteWidth → ∃ w, k.decode bytes = .ok w ∧
      (¬ k.Loses bytes → k.encode w = bytes) ∧
      (k.Loses bytes → w.isNan ∧ k.Loses (k.encode w))) ∧
    (∀ w, k.decode (k.encode w) = .ok (k.coerce w) ∧ k.coerce (k.coerce w) = k.coerce w ∧
      k.encode (k.coerce w) = k.encode w) ∧
    ∀ ws : List Word, k.encodeWords ws = (ws.map k.encode).flatten ∧
      ((Bank.zeroed k ws.length).putAll 0 ws).bytes.toList = k.encodeWords ws ∧
      (chunks k.byteWidth (k.encodeWords ws)).mapM k.decode = .ok (ws.map k.coerce) := by
  refine ⟨?_, ?_, ?_⟩
  · intro bytes h
    exact ⟨_, decode_eq_ok h, encode_ofPattern h, encode_of_loses h⟩
  · intro w
    exact ⟨k.decode_encode w, k.coerce_coerce w, k.encode_coerce w⟩
  · intro ws
    refine ⟨List.flatMap_def .., k.putAll_zeroed ws, ?_⟩
    rw [k.mapM_decode_chunks, k.decodeWords_encodeWords]

theorem signalling_pattern_becomes_quiet :
    let narrow : List UInt8 := [0x7f, 0x80, 0, 1]
    let wide : List UInt8 := [0xff, 0xf0, 0, 0, 0, 0, 0, 1]
    narrow.length = float32.byteWidth ∧ float32.Loses narrow ∧
      float32.encode (float32.ofPattern 0x7f800001) = [0x7f, 0xc0, 0, 1] ∧
      (∃ w, float32.decode narrow = .ok w ∧ w.isNan ∧ float32.Loses (float32.encode w)) ∧
      wide.length = float64.byteWidth ∧ ¬ float64.Loses wide ∧
      ∃ w, float64.decode wide = .ok w ∧ float64.encode w = wide := by
  intro narrow wide
  have hloses : float32.Loses narrow := ⟨rfl, by decide⟩
  have hkeeps : ¬ float64.Loses wide := fun h => nomatch h.1
  obtain ⟨hnarrow, -⟩ := encoding_and_decoding_invert float32
  obtain ⟨hwide, -⟩ := encoding_and_decoding_invert float64
  obtain ⟨w, hw, -, hquiet⟩ := hnarrow narrow rfl
  obtain ⟨v, hv, hsame, -⟩ := hwide wide rfl
  exact ⟨rfl, hloses, by decide +kernel, ⟨w, hw, hquiet hloses⟩, rfl, hkeeps, v, hv, hsame hkeeps⟩

end Kind

end WordMachine
