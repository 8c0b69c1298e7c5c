import WordMachine.Kind.Hex
import WordMachine.Proofs.RoundTrip

/-!
# Reading and writing hex dumps

A dump is read just when it is two digits for every byte of a word, in either case, and the word
that those bytes make is answered. What is written is in lower case and is read back as the coerced
word; what was read is written again in lower case.
-/

set_option autoImplicit false

namespace WordMachine

def hexDigits : List Char :=
  ['0', '1', '2', '3', '4', '5', '6', '7', '8', '9', 'a', 'b', 'c', 'd', 'e', 'f']

def IsHexDigit (c : Char) : Prop := c.toLower ∈ hexDigits

instance : DecidablePred IsHexDigit := fun c => inferInstanceAs (Decidable (c.toLower ∈ hexDigits))

def hexValue (c : Char) : Nat := hexDigits.idxOf c.toLower

def hexNumber (digits : List Char) : Nat := digits.foldl (fun n c => 16 * n + hexValue c) 0

def hexDenoted (digits : List Char) : List UInt8 :=
  (chunks hexGroupWidth digits).map fun group => UInt8.ofNat (hexNumber group)

theorem toNat_lt_of_isHexDigit {c : Char} (h : IsHexDigit c) : c.toNat < 128 := by
  have hascii : ∀ d ∈ hexDigits, d.toNat < 128 := by simp [hexDigits]
  by_cases hupper : c.val ≥ 'A'.val ∧ c.val ≤ 'Z'.val
  · exact Nat.lt_of_le_of_lt (UInt32.le_iff_toNat_le.mp hupper.2) (by decide)
  · have hsame : c.toLower = c := dif_neg hupper
    exact hsame ▸ hascii _ h

theorem toNat_lt_of_hexDigit? {c : Char} {n : Nat} (h : hexDigit? c = some n) : c.toNat < 128 := by
  have hbelow {d : Char} (hle : c ≤ d) (hd : d.toNat < 128) : c.toNat < 128 :=
    Nat.lt_of_le_of_lt (Char.le_def.mp hle) hd
  rw [hexDigit?] at h
  split at h
  · rename_i hdigit
    exact hbelow hdigit.2 (by decide)
  · split at h
    · rename_i hletter
      exact hbelow hletter.2 (by decide)
    · split at h
      · rename_i hletter
        exact hbelow hletter.2 (by decide)
      · cases h

theorem hexDigit?_eq (c : Char) :
    hexDigit? c = if IsHexDigit c then some (hexValue c) else none := by
  by_cases hc : c.toNat < 128
  · have hascii : ∀ n < 128, hexDigit? (Char.ofNat n) =
        if IsHexDigit (Char.ofNat n) then some (hexValue (Char.ofNat n)) else none := by
      decide +kernel
    have hdigit := hascii c.toNat hc
    rwa [Char.ofNat_toNat] at hdigit
  · rw [if_neg fun h => hc (toNat_lt_of_isHexDigit h)]
    exact Option.eq_none_iff_forall_ne_some.mpr fun n h => hc (toNat_lt_of_hexDigit? h)

theorem hexDigit?_eq_some {c : Char} {n : Nat} :
    hexDigit? c = some n ↔ IsHexDigit c ∧ n = hexValue c := by
  rw [hexDigit?_eq]
  split <;> simp_all [eq_comm]

theorem hexValue_lt {c : Char} (h : IsHexDigit c) : hexValue c < 16 := List.idxOf_lt_length_of_mem h

theorem digitChar_mem {n : Nat} (h : n < 16) : Nat.digitChar n ∈ hexDigits := by
  have hall : ∀ n < 16, Nat.digitChar n ∈ hexDigits := by decide
  exact hall n h

theorem isHexDigit_digitChar {n : Nat} (h : n < 16) :
    IsHexDigit (Nat.digitChar n) ∧ hexValue (Nat.digitChar n) = n := by
  have hall : ∀ n < 16, IsHexDigit (Nat.digitChar n) ∧ hexValue (Nat.digitChar n) = n := by decide
  exact hall n h

theorem digitChar_hexValue {c : Char} (h : IsHexDigit c) : Nat.digitChar (hexValue c) = c.toLower := by
  have hall : ∀ d ∈ hexDigits, Nat.digitChar (hexDigits.idxOf d) = d := by
    rw [List.forall_mem_iff_forall_getElem]
    decide
  exact hall c.toLower h

theorem hexPair_ofNat {high low : Nat} (hhigh : high < 16) (hlow : low < 16) :
    hexPair (UInt8.ofNat (16 * high + low)) = [Nat.digitChar high, Nat.digitChar low] := by
  have hbyte : (UInt8.ofNat (16 * high + low)).toNat = 16 * high + low :=
    UInt8.toNat_ofNat_of_lt' (show 16 * high + low < 2 ^ 8 by omega)
  rw [hexPair, hbyte, show (16 * high + low) / 16 = high by omega,
    show (16 * high + low) % 16 = low by omega]

theorem hexDenoted_cons (c d : Char) (rest : List Char) :
    hexDenoted (c :: d :: rest) = UInt8.ofNat (16 * hexValue c + hexValue d) :: hexDenoted rest := by
  have hwidth : 0 < hexGroupWidth := by decide
  have hlength : [c, d].length = hexGroupWidth := rfl
  have hpair : chunks hexGroupWidth (c :: d :: rest) = [c, d] :: chunks hexGroupWidth rest :=
    chunks_append hwidth hlength rest
  rw [hexDenoted, hpair, List.map_cons, hexDenoted]
  simp [hexNumber]

theorem hexBytes?_of_digits {n : Nat} {digits : List Char}
    (hlength : digits.length = hexGroupWidth * n) (hdigits : ∀ c ∈ digits, IsHexDigit c) :
    hexBytes? digits = some (hexDenoted digits) := by
  rw [hexGroupWidth] at hlength
  induction n generalizing digits with
  | zero =>
    obtain rfl := List.eq_nil_of_length_eq_zero hlength
    rfl
  | succ n ih =>
    match digits, hlength with
    | c :: d :: rest, hlength =>
      have hc : hexDigit? c = some (hexValue c) := hexDigit?_eq_some.mpr ⟨hdigits c (by simp), rfl⟩
      have hd : hexDigit? d = some (hexValue d) := hexDigit?_eq_some.mpr ⟨hdigits d (by simp), rfl⟩
      have hpairs : rest.length = 2 * n := by
        simp only [List.length_cons] at hlength
        omega
      have hrest := ih hpairs fun e he => hdigits e (by simp [he])
      simp only [hexBytes?, hc, hd, hrest, hexDenoted_cons]

theorem hexBytes?_eq_some {digits : List Char} {bytes : List UInt8}
    (h : hexBytes? digits = some bytes) :
    digits.length = hexGroupWidth * bytes.length ∧ (∀ c ∈ digits, IsHexDigit c) ∧
      bytes.flatMap hexPair = digits.map Char.toLower := by
  fun_induction hexBytes? digits generalizing bytes with
  | case1 =>
    cases h
    simp
  | case2 => cases h
  | case3 c d rest high low more hmore hlow hhigh ih =>
    cases h
    obtain ⟨hlength, hdigits, hlower⟩ := ih hmore
    obtain ⟨hc, rfl⟩ := hexDigit?_eq_some.mp hhigh
    obtain ⟨hd, rfl⟩ := hexDigit?_eq_some.mp hlow
    refine ⟨?_, ?_, ?_⟩
    · simp only [List.length_cons, hlength, hexGroupWidth]
      omega
    · intro e he
      rcases List.mem_cons.mp he with rfl | he
      · exact hc
      · rcases List.mem_cons.mp he with rfl | he
        · exact hd
        · exact hdigits e he
    · rw [List.flatMap_cons, hexPair_ofNat (hexValue_lt hc) (hexValue_lt hd),
        digitChar_hexValue hc, digitChar_hexValue hd, hlower]
      rfl
  | case4 => cases h

theorem halves_lt (b : UInt8) : b.toNat / 16 < 16 ∧ b.toNat % 16 < 16 := by
  have := b.toNat_lt
  omega

theorem hexBytes?_flatMap (bytes : List UInt8) : hexBytes? (bytes.flatMap hexPair) = some bytes := by
  induction bytes with
  | nil => rfl
  | cons b bytes ih =>
    obtain ⟨hhigh, hlow⟩ := halves_lt b
    obtain ⟨hdigit, hvalue⟩ := isHexDigit_digitChar hhigh
    obtain ⟨hdigit', hvalue'⟩ := isHexDigit_digitChar hlow
    have hbyte : UInt8.ofNat (16 * (b.toNat / 16) + b.toNat % 16) = b := by
      rw [Nat.div_add_mod, UInt8.ofNat_toNat]
    have hc := hexDigit?_eq_some.mpr ⟨hdigit, hvalue.symm⟩
    have hd := hexDigit?_eq_some.mpr ⟨hdigit', hvalue'.symm⟩
    rw [List.flatMap_cons, hexPair]
    simp only [List.cons_append, List.nil_append, hexBytes?, hc, hd, ih, hbyte]

theorem mem_flatMap_hexPair {bytes : List UInt8} {c : Char} (h : c ∈ bytes.flatMap hexPair) :
    c ∈ hexDigits := by
  obtain ⟨b, -, hc⟩ := List.mem_flatMap.mp h
  simp only [hexPair, List.mem_cons, List.not_mem_nil, or_false] at hc
  rcases hc with rfl | rfl
  · exact digitChar_mem (halves_lt b).1
  · exact digitChar_mem (halves_lt b).2

namespace Kind

variable {k : Kind} {w : Word} {s : String}

/-- Two digits for every byte of a word. -/
def IsDump (k : Kind) (s : String) : Prop :=
  s.length = hexGroupWidth * k.byteWidth ∧ ∀ c ∈ s.toList, IsHexDigit c

instance (k : Kind) (s : String) : Decidable (k.IsDump s) :=
  haveI := List.decidableBAll IsHexDigit s.toList
  inferInstanceAs (Decidable (_ ∧ ∀ c ∈ s.toList, IsHexDigit c))

theorem ofHex_of_isDump (h : k.IsDump s) : k.ofHex s = k.decode (hexDenoted s.toList) := by
  obtain ⟨hlength, hdigits⟩ := h
  rw [← String.length_toList] at hlength
  have hascii : ¬ s.toList.any (127 < ·.toNat) := by
    simp only [List.any_eq_true, decide_eq_true_eq, not_exists, not_and]
    intro c hc
    have := toNat_lt_of_isHexDigit (hdigits c hc)
    omega
  have heven : s.toList.length % hexGroupWidth = 0 := by rw [hlength, Nat.mul_mod_right]
  have hcount : s.toList.length / hexGroupWidth = k.byteWidth := by
    rw [hlength, Nat.mul_div_cancel_left _ (by decide)]
  have hbytes := hexBytes?_of_digits hlength hdigits
  simp only [ofHex, hascii, heven, hcount, hbytes, ne_eq, not_true_eq_false, or_self, if_false,
    Bool.false_eq_true]

theorem ofHex_refused (h : ¬ k.IsDump s) : ∃ flaw, k.ofHex s = .error (.malformedEncoding s flaw) := by
  simp only [ofHex]
  split
  · exact ⟨_, rfl⟩
  · split
    · exact ⟨_, rfl⟩
    · rename_i hshape hcount
      cases hbytes : hexBytes? s.toList with
      | none => exact ⟨_, rfl⟩
      | some bytes =>
        obtain ⟨hlength, hdigits, -⟩ := hexBytes?_eq_some hbytes
        rw [hlength, Nat.mul_div_cancel_left _ (by decide), Decidable.not_not] at hcount
        exact absurd ⟨by rw [← String.length_toList, hlength, hcount], hdigits⟩ h

theorem isDump_of_ofHex (h : k.ofHex s = .ok w) : k.IsDump s := by
  refine Decidable.byContradiction fun hdump => ?_
  obtain ⟨flaw, hflaw⟩ := ofHex_refused hdump
  rw [hflaw] at h
  cases h

theorem length_hexDenoted (h : k.IsDump s) : (hexDenoted s.toList).length = k.byteWidth := by
  rw [hexDenoted, List.length_map, chunks, List.length_map, List.length_range,
    String.length_toList, h.1, Nat.mul_div_cancel_left _ (by decide)]

theorem toList_toHex (k : Kind) (w : Word) : (k.toHex w).toList = (k.encode w).flatMap hexPair :=
  String.toList_ofList

theorem isDump_toHex (k : Kind) (w : Word) : k.IsDump (k.toHex w) := by
  obtain ⟨hlength, hdigits, -⟩ := hexBytes?_eq_some (hexBytes?_flatMap (k.encode w))
  rw [← toList_toHex] at hlength hdigits
  rw [String.length_toList, length_encode] at hlength
  exact ⟨hlength, hdigits⟩

theorem hexDenoted_toHex (k : Kind) (w : Word) : hexDenoted (k.toHex w).toList = k.encode w := by
  obtain ⟨hlength, hdigits⟩ := k.isDump_toHex w
  rw [← String.length_toList] at hlength
  have hread := hexBytes?_of_digits hlength hdigits
  rw [toList_toHex, hexBytes?_flatMap] at hread
  rw [toList_toHex]
  exact (Option.some.inj hread).symm

theorem toHex_ofPattern (h : k.IsDump s) (hkeeps : ¬ k.Loses (hexDenoted s.toList)) :
    k.toHex (k.ofPattern (Bytes.toNat (hexDenoted s.toList))) = s.toLower := by
  obtain ⟨-, -, hlower⟩ := hexBytes?_eq_some (hexBytes?_of_digits (s.length_toList.trans h.1) h.2)
  have hmap : s.toLower.toList = s.toList.map Char.toLower := String.toList_map
  apply String.toList_inj.mp
  rw [toList_toHex, encode_ofPattern (length_hexDenoted h) hkeeps, hlower, hmap]

/-- A string is read just when it is a dump of a word; then the word that its bytes make is
answered, and otherwise a fault that carries the string. What is written of a word is a dump in lower
case that is read as the coerced word, and a dump that is read is written again in lower case. -/
theorem hex_dumps_are_read (k : Kind) :
    (∀ s, (k.IsDump s → ∃ w, k.ofHex s = .ok w ∧ k.decode (hexDenoted s.toList) = .ok w) ∧
      (¬ k.IsDump s → ∃ flaw, k.ofHex s = .error (.malformedEncoding s flaw))) ∧
    (∀ w, (k.toHex w).length = 2 * k.byteWidth ∧ (∀ c ∈ (k.toHex w).toList, c ∈ hexDigits) ∧
      k.ofHex (k.toHex w) = .ok (k.coerce w)) ∧
    ∀ s w, k.ofHex s = .ok w → ¬ k.Loses (hexDenoted s.toList) → k.toHex w = s.toLower := by
  refine ⟨fun s => ⟨?_, ofHex_refused⟩, ?_, ?_⟩
  · intro h
    have hdecode := decode_eq_ok (length_hexDenoted h)
    exact ⟨_, (ofHex_of_isDump h).trans hdecode, hdecode⟩
  · intro w
    have hdump := k.isDump_toHex w
    refine ⟨hdump.1, ?_, ?_⟩
    · rw [toList_toHex]
      exact fun c => mem_flatMap_hexPair
    · rw [ofHex_of_isDump hdump, hexDenoted_toHex, decode_encode]
  · intro s w h hkeeps
    have hdump := isDump_of_ofHex h
    rw [ofHex_of_isDump hdump, decode_eq_ok (length_hexDenoted hdump)] at h
    obtain rfl := Except.ok.inj h
    exact toHex_ofPattern hdump hkeeps

theorem mixed_case_is_read :
    int16.IsDump "fF0a" ∧ int16.ofHex "fF0a" = .ok (Word.ofInt (-246)) ∧
      ¬ int16.Loses (hexDenoted "fF0a".toList) ∧ int16.toHex (Word.ofInt (-246)) = "ff0a" ∧
      int16.toHex (Word.ofInt (-246)) = "fF0a".toLower ∧
      ¬ int16.IsDump "+F0a" ∧
      ∃ flaw, int16.ofHex "+F0a" = .error (.malformedEncoding "+F0a" flaw) := by
  have hdump : int16.IsDump "fF0a" := by decide +kernel
  have hsign : ¬ int16.IsDump "+F0a" := fun h => absurd (h.2 '+' (by decide +kernel)) (by decide)
  have hread : int16.ofHex "fF0a" = .ok (Word.ofInt (-246)) := by decide +kernel
  have hkeeps : ¬ int16.Loses (hexDenoted "fF0a".toList) := fun h => nomatch h.1
  obtain ⟨hstrings, -, hwritten⟩ := hex_dumps_are_read int16
  exact ⟨hdump, hread, hkeeps, by decide +kernel, hwritten _ _ hread hkeeps, hsign,
    (hstrings _).2 hsign⟩

end Kind

end WordMachine
