import WordMachine.Proofs.Truncation
import WordMachine.Proofs.WordArray

/-!
# Registers as a map

The names of a register file are distinct, so a name, an index and the instruction pointer of its own
are ways to one and the same register. Whatever way is taken, what is read is what a map from places
to words has after the same calls, and a selector of no place changes nothing.
-/

set_option autoImplicit false

namespace WordMachine

/-- The place of a name in a list of distinct ones, or the place that an index is not below and less
than one above. -/
def Selector.Picks (names : List String) (i : Nat) : Selector → Prop
  | .name n => names[i]? = some n
  | .index w => i < names.length ∧ w.Within i

instance Selector.decidablePicks (names : List String) (i : Nat) :
    (s : Selector) → Decidable (s.Picks names i)
  | .name n => inferInstanceAs (Decidable (names[i]? = some n))
  | .index w => inferInstanceAs (Decidable (i < names.length ∧ w.Within i))

theorem Selector.picks_name (names : List String) (n : String) :
    (∃ i, (Selector.name n).Picks names i) ↔ n ∈ names :=
  List.mem_iff_getElem?.symm

theorem Selector.picks_index (names : List String) (w : Word) :
    (∃ i, (Selector.index w).Picks names i) ↔ ∃ x : ℚ, w.Denotes x ∧ 0 ≤ x ∧ x < names.length := by
  constructor
  · rintro ⟨i, hi, x, hx, hle, hlt⟩
    have hlast : ((i + 1 : Nat) : ℚ) ≤ names.length := Nat.cast_le.mpr hi
    rw [Nat.cast_succ] at hlast
    exact ⟨x, hx, (Nat.cast_nonneg i).trans hle, hlt.trans_le hlast⟩
  · rintro ⟨x, hx, hnonneg, hlt⟩
    exact ⟨⌊x⌋₊, (Nat.floor_lt hnonneg).mpr hlt, x, hx, Nat.floor_le hnonneg,
      Nat.lt_floor_add_one x⟩

/-- What a call makes of a map from places to words; a selector of no place makes nothing of it. -/
def RegisterCall.step (k : Kind) (names : List String) (cells : Nat → Word) :
    RegisterCall → Nat → Word
  | write s w => fun i => if s.Picks names i then k.coerce w else cells i
  | setIp w => fun i => if names[i]? = some instructionPointer then k.coerce w else cells i
  | clear => fun _ => Word.zero false
  | observe _ => cells

namespace Registers

variable {r : Registers} {s : Selector} {i : Nat} {cells : Nat → Word}

theorem place?_iff (hr : r.WellFormed) : r.place? s = some i ↔ s.Picks r.names i := by
  cases s with
  | name n =>
    constructor
    · intro h
      obtain ⟨hi, hn, -⟩ := List.findIdx?_eq_some_iff_getElem.mp h
      exact List.getElem?_eq_some_iff.mpr ⟨hi, beq_iff_eq.mp hn⟩
    · exact place_name_of_getElem hr
  | index w =>
    have hsize : r.size = r.names.length := rfl
    rw [place?, Selector.Picks, Word.within_iff]
    cases w.floor? with
    | none => simp
    | some n =>
      simp only [Option.some.injEq]
      by_cases hn : 0 ≤ n ∧ n < r.size
      · rw [if_pos hn, Option.some.injEq]
        omega
      · rw [if_neg hn]
        simp only [reduceCtorEq, false_iff]
        omega

theorem picks_unique (hr : r.WellFormed) {j : Nat} (hi : s.Picks r.names i)
    (hj : s.Picks r.names j) : i = j :=
  Option.some.inj (((place?_iff hr).mpr hi).symm.trans ((place?_iff hr).mpr hj))

theorem picks_ip (hr : r.WellFormed) : r.names[i]? = some instructionPointer ↔ i = r.ipIndex := by
  constructor
  · intro h
    have hname : (Selector.name instructionPointer).Picks r.names i := h
    exact picks_unique hr hname hr.ip_name
  · rintro rfl
    exact hr.ip_name

structure StandsFor (r : Registers) (cells : Nat → Word) : Prop where
  wellFormed : r.WellFormed
  word : ∀ i, i < r.size → r.word i = cells i

theorem serve_write (hr : r.WellFormed) (hs : s.Picks r.names i) (w : Word) :
    r.serve (.write s w) = (.ok (.word (r.kind.coerce w)), r.put i w, (r.put i w).report i) := by
  have hplace := (place?_iff hr).mpr hs
  have hstored := word_put hr (place_lt hplace) w
  simp only [serve, RegisterCall.apply, write, resolve_eq_ok.mpr hplace, ← hstored]
  rfl

theorem serve_refused (hr : r.WellFormed) (hs : ∀ i, ¬ s.Picks r.names i) (w : Word) :
    r.serve (.write s w) = (.error (.invalidRegister s), r, []) := by
  have hplace : r.place? s = none :=
    Option.eq_none_iff_forall_ne_some.mpr fun i h => hs i ((place?_iff hr).mp h)
  simp only [serve, RegisterCall.apply, write, resolve_eq_error.mpr ⟨hplace, rfl⟩]
  rfl

theorem serve_setIp (hr : r.WellFormed) (hs : s.Picks r.names r.ipIndex) (w : Word) :
    r.serve (.setIp w) = r.serve (.write s w) := by
  have hstored := word_put hr hr.ipIndex_lt w
  rw [serve_write hr hs, ← hstored]
  rfl

theorem StandsFor.put (h : r.StandsFor cells) (hi : i < r.size) (w : Word) :
    (r.put i w).StandsFor fun j => if j = i then r.kind.coerce w else cells j := by
  refine ⟨h.wellFormed.of_shape (r.shape_put i w), fun j hj => ?_⟩
  by_cases hne : j = i
  · rw [if_pos hne, hne, word_put h.wellFormed hi]
  · rw [if_neg hne, word_put_ne r w hne, h.word j hj]

theorem StandsFor.zeroed (hr : r.WellFormed)
    (hbytes : r.bank.bytes = Array.replicate r.bank.bytes.size 0) :
    r.StandsFor fun _ => Word.zero false :=
  ⟨hr, fun _ hi => r.bank.word_zero hbytes (r.bank.word_lies_in hi hr.size_bytes)⟩

theorem StandsFor.serve (h : r.StandsFor cells) (call : RegisterCall) :
    (r.serve call).2.1.StandsFor (call.step r.kind r.names cells) := by
  have hr := h.wellFormed
  cases call with
  | write s w =>
    by_cases hpicks : ∃ i, s.Picks r.names i
    · obtain ⟨i, hi⟩ := hpicks
      have hiff : ∀ j, s.Picks r.names j ↔ j = i := fun j =>
        ⟨fun hj => picks_unique hr hj hi, fun he => he ▸ hi⟩
      rw [serve_write hr hi]
      simp only [RegisterCall.step, hiff]
      exact h.put (place_lt ((place?_iff hr).mpr hi)) w
    · have hnone : ∀ i, ¬ s.Picks r.names i := not_exists.mp hpicks
      rw [serve_refused hr hnone]
      simp only [RegisterCall.step, hnone, if_false]
      exact h
  | setIp w =>
    simp only [RegisterCall.step, picks_ip hr]
    exact h.put hr.ipIndex_lt w
  | clear =>
    refine .zeroed (hr.of_shape r.shape_clear) ?_
    simp [Registers.serve, RegisterCall.apply, settle, clear, Bank.clear]
  | observe tag => exact ⟨⟨hr.distinct, hr.ip_name, hr.size_bytes⟩, h.word⟩

theorem StandsFor.session (h : r.StandsFor cells) (calls : List RegisterCall) :
    (session Registers.serve r calls).1.StandsFor
      (calls.foldl (RegisterCall.step r.kind r.names) cells) := by
  induction calls generalizing r cells with
  | nil => exact h
  | cons call calls ih =>
    have hs := r.session_shape [call]
    have hkind : (r.serve call).2.1.kind = r.kind := congrArg (·.kind) hs
    have hnames : (r.serve call).2.1.names = r.names := congrArg (·.names) hs
    have hrest := ih (h.serve call)
    rw [hkind, hnames] at hrest
    exact hrest

/-- The selectors of a place agree on it, and the registers are read and written as a map is. -/
structure Maps (r : Registers) (k : Kind) (names : List String) (cells : Nat → Word) : Prop where
  unique : ∀ s i j, Selector.Picks names i s → Selector.Picks names j s → i = j
  read : ∀ s i, Selector.Picks names i s → r.read s = .ok (cells i)
  ip : ∀ i, names[i]? = some instructionPointer → r.ip = cells i
  write : ∀ s i w, Selector.Picks names i s →
    (r.serve (.write s w)).1 = .ok (.word (k.coerce w)) ∧
      (∀ t, Selector.Picks names i t → (r.serve (.write s w)).2.1.read t = .ok (k.coerce w)) ∧
      (∀ t, Selector.Picks names i t → r.serve (.write t w) = r.serve (.write s w)) ∧
      (names[i]? = some instructionPointer → r.serve (.setIp w) = r.serve (.write s w)) ∧
      ∀ j, j ≠ i → (r.serve (.write s w)).2.1.cell j = r.cell j
  refused : ∀ s, (∀ i, ¬ Selector.Picks names i s) → r.read s = .error (.invalidRegister s) ∧
    ∀ w, r.serve (.write s w) = (.error (.invalidRegister s), r, [])
  clear : ∀ s i, Selector.Picks names i s →
    (r.serve .clear).2.1.read s = .ok (Word.zero false)

theorem StandsFor.maps (h : r.StandsFor cells) : r.Maps r.kind r.names cells := by
  have hr := h.wellFormed
  have hread {r : Registers} {cells : Nat → Word} (h : r.StandsFor cells) (s : Selector) (i : Nat)
      (hs : s.Picks r.names i) : r.read s = .ok (cells i) :=
    have hplace := (place?_iff h.wellFormed).mpr hs
    read_eq_ok.mpr ⟨i, hplace, h.word i (place_lt hplace)⟩
  constructor
  · exact fun s i j => picks_unique hr
  · exact hread h
  · rintro i hi
    rw [(picks_ip hr).mp hi]
    exact h.word _ hr.ipIndex_lt
  · intro s i w hs
    have hplace := place_lt ((place?_iff hr).mpr hs)
    rw [serve_write hr hs]
    refine ⟨rfl, fun t ht => ?_, fun t ht => serve_write hr ht w, fun hip => ?_,
      fun j hj => r.cell_put_ne w hj⟩
    · rw [hread (h.put hplace w) t i ht, if_pos rfl]
    · obtain rfl := (picks_ip hr).mp hip
      rw [serve_setIp hr hs, serve_write hr hs]
  · intro s hs
    have hplace : r.place? s = none :=
      Option.eq_none_iff_forall_ne_some.mpr fun i h => hs i ((place?_iff hr).mp h)
    exact ⟨read_eq_error.mpr ⟨hplace, rfl⟩, serve_refused hr hs⟩
  · exact hread (h.serve .clear)

theorem create_standsFor {k : Kind} {names : List String} (h : create k names = .ok r) :
    r.StandsFor fun _ => Word.zero false :=
  .zeroed (create_wellFormed h) (create_bytes h)

end Registers

/-- A register file is there for distinct names with the instruction pointer's among them. After any
session with it, the name of a register, the numbers from its place up to the next and, for the
instruction pointer, the access of its own come to the same word, the one that the same calls leave
at that place of a map. Any other selector is refused: a name that is not among them, an index below
zero or not below their number, and one that is no finite number. -/
theorem registers_refine_map (k : Kind) (names : List String) :
    ((∃ r, Registers.create k names = .ok r) ↔ names.Nodup ∧ instructionPointer ∈ names) ∧
    (∀ n, (∃ i, (Selector.name n).Picks names i) ↔ n ∈ names) ∧
    (∀ w, (∃ i, (Selector.index w).Picks names i) ↔
      ∃ x : ℚ, w.Denotes x ∧ 0 ≤ x ∧ x < names.length) ∧
    ∀ r, Registers.create k names = .ok r → ∀ calls : List RegisterCall,
      (session Registers.serve r calls).1.Maps k names
        (calls.foldl (RegisterCall.step k names) fun _ => Word.zero false) := by
  refine ⟨Registers.create_iff k names, Selector.picks_name names, Selector.picks_index names,
    fun r hr calls => ?_⟩
  obtain ⟨hnames, hkind⟩ := Registers.create_names hr
  have hs := r.session_shape calls
  have hnames' : (session Registers.serve r calls).1.names = names :=
    (congrArg (·.names) hs).trans hnames
  have hkind' : (session Registers.serve r calls).1.kind = k := (congrArg (·.kind) hs).trans hkind
  have hmaps := ((Registers.create_standsFor hr).session calls).maps
  rwa [hnames', hkind', hnames, hkind] at hmaps

theorem negative_zero_picks_first :
    let names := ["x", instructionPointer]
    let half := (Word.ofNat 1).div (Word.ofNat 2)
    let calls : List RegisterCall := [.setIp (Word.ofInt (-1)), .write (.index half) (Word.ofNat 300),
      .write (.index half.negate) (Word.ofNat 5), .write (.name "y") (Word.ofNat 6)]
    ∃ r, Registers.create .int8 names = .ok r ∧
      let q := (session Registers.serve r calls).1
      (Selector.index (Word.zero true)).Picks names 0 ∧
        q.read (.index (Word.zero true)) = .ok (Word.ofNat 44) ∧
        q.read (.name "x") = .ok (Word.ofNat 44) ∧ q.ip = Word.ofInt (-1) ∧
        q.read (.index half.negate) = .error (.invalidRegister (.index half.negate)) ∧
        (q.serve (.write (.index half.negate) (Word.ofNat 5))).2 = (q, []) := by
  intro names half calls
  obtain ⟨hcreate, -, -, hmaps⟩ := registers_refine_map .int8 names
  obtain ⟨r, hr⟩ := hcreate.mpr (by decide)
  have hq := hmaps r hr calls
  have hcells : calls.foldl (RegisterCall.step .int8 names) (fun _ => Word.zero false) 0 =
      Word.ofNat 44 ∧ calls.foldl (RegisterCall.step .int8 names) (fun _ => Word.zero false) 1 =
      Word.ofInt (-1) := by
    decide +kernel
  have hzero : (Selector.index (Word.zero true)).Picks names 0 := by decide +kernel
  have hnone : ∀ i, ¬ (Selector.index half.negate).Picks names i := by
    rintro i ⟨hi, hwithin⟩
    have hfloor : half.negate.floor? = some (-1) := by decide +kernel
    have hsame := hfloor.symm.trans (Word.within_iff.mp hwithin)
    have hi : (-1 : Int) = i := Option.some.inj hsame
    omega
  obtain ⟨hread, hwrite⟩ := hq.refused _ hnone
  refine ⟨r, hr, hzero, ?_, ?_, ?_, hread, congrArg Prod.snd (hwrite _)⟩
  · rw [hq.read _ 0 hzero, hcells.1]
  · rw [hq.read (.name "x") 0 rfl, hcells.1]
  · rw [hq.ip 1 rfl, hcells.2]

end WordMachine
