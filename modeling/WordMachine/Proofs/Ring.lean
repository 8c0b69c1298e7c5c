import Mathlib.Data.Int.ModEq
import WordMachine.Proofs.Calculation
import WordMachine.Proofs.Exact
import WordMachine.Proofs.Residue

/-!
# Chains of exact arithmetic

Sums, differences, products and copies go from register to register. Done on integers without
bounds instead, they stay congruent to the words that are stored, however many there are: each
write takes a residue, and congruences are kept by all three operators.
-/

set_option autoImplicit false

namespace WordMachine

inductive Source where
  | register (place : Nat)
  | constant (x : Int)
  deriving DecidableEq, Repr

inductive RingOperator where
  | add
  | sub
  | mul
  deriving DecidableEq, Repr

inductive Formula where
  | copy (source : Source)
  | combine (op : RingOperator) (left right : Source)
  deriving DecidableEq, Repr

structure Assignment where
  place : Nat
  formula : Formula
  deriving DecidableEq, Repr

def Source.value (e : Nat → Int) : Source → Int
  | register i => e i
  | constant x => x

def RingOperator.apply : RingOperator → Int → Int → Int
  | add, x, y => x + y
  | sub, x, y => x - y
  | mul, x, y => x * y

def RingOperator.arithmetic : RingOperator → Arithmetic
  | add => .add
  | sub => .sub
  | mul => .mul

namespace Formula

def value (e : Nat → Int) : Formula → Int
  | copy s => s.value e
  | combine op l r => op.apply (l.value e) (r.value e)

/-- A product is small enough for a word to hold it exactly. -/
def Fits (e : Nat → Int) : Formula → Prop
  | combine .mul l r => (l.value e * r.value e).natAbs ≤ 2 ^ 53
  | _ => True

instance decidableFits (e : Nat → Int) : (f : Formula) → Decidable (f.Fits e)
  | combine .mul l r => inferInstanceAs (Decidable ((l.value e * r.value e).natAbs ≤ 2 ^ 53))
  | combine .add _ _ | combine .sub _ _ | copy _ => isTrue trivial

end Formula

namespace Assignment

def run (s : Assignment) (e : Nat → Int) : Nat → Int := Function.update e s.place (s.formula.value e)

def runAll (steps : List Assignment) (e : Nat → Int) : Nat → Int :=
  steps.foldl (fun e s => s.run e) e

def ofMnemonic? (acc : Nat) : String → List Source → Option Assignment
  | "ADD", [l, r] => some ⟨acc, .combine .add l r⟩
  | "SUB", [l, r] => some ⟨acc, .combine .sub l r⟩
  | "MUL", [l, r] => some ⟨acc, .combine .mul l r⟩
  | "INC", [.register i] => some ⟨i, .combine .add (.register i) (.constant 1)⟩
  | "DEC", [.register i] => some ⟨i, .combine .sub (.register i) (.constant 1)⟩
  | "MOV", [.register i, s] => some ⟨i, .copy s⟩
  | _, _ => none

end Assignment

namespace Core

variable {c : Core}

def general? (c : Core) (w : Word) : Option Nat :=
  (c.registers.place? (.index w)).filter (· ≠ c.registers.ipIndex)

def source? (c : Core) : Argument → Word → Option Source
  | .register, w => (c.general? w).map .register
  | .constant, w => w.integer?.map .constant
  | _, _ => none

def sources? (c : Core) (arguments : List Argument) (ws : List Word) : Option (List Source) :=
  (arguments.zip ws).mapM fun (a, w) => c.source? a w

/-- The assignment that the instruction at the instruction pointer makes, if it is a sum, a
difference, a product or a copy of registers and constants. The instruction pointer takes no part in
it; any other register may. -/
def assignment? (c : Core) : Option Assignment := do
  let (row, ws) ← c.instruction?
  let sources ← c.sources? row.arguments ws
  let acc ← c.registers.place? (.name accumulator)
  Assignment.ofMnemonic? acc row.mnemonic sources

/-- The instruction at the instruction pointer is a sum, a difference, a product or a copy of
registers and constants, and none of the registers is the instruction pointer. -/
def InChain (c : Core) : Prop :=
  ∃ found ∈ c.instruction?, found.1.mnemonic ∈ ["INC", "DEC"] ++ ["ADD", "SUB", "MUL", "MOV"] ∧
    ∀ aw ∈ found.1.arguments.zip found.2,
      aw.1 = .constant ∨ aw.1 = .register ∧ c.registers.place? (.index aw.2) ≠ some c.registers.ipIndex

instance decidableInChain (c : Core) : Decidable c.InChain :=
  inferInstanceAs (Decidable (∃ found ∈ c.instruction?, _ ∧ _))

def integers (c : Core) (i : Nat) : Int := (c.registers.word i).integer?.getD 0

/-- All registers but the instruction pointer hold integers congruent to those given. -/
def Agrees (c : Core) (e : Nat → Int) : Prop :=
  ∀ i < c.registers.size, i ≠ c.registers.ipIndex → c.integers i ≡ e i [ZMOD 2 ^ c.kind.bits]

end Core

theorem RingOperator.apply_modEq (op : RingOperator) {n x x' y y' : Int} (hx : x ≡ x' [ZMOD n])
    (hy : y ≡ y' [ZMOD n]) : op.apply x y ≡ op.apply x' y' [ZMOD n] := by
  cases op with
  | add => exact hx.add hy
  | sub => exact hx.sub hy
  | mul => exact hx.mul hy

theorem Assignment.ofMnemonic?_eq_some {acc : Nat} {m : String} {sources : List Source}
    {s : Assignment} (h : ofMnemonic? acc m sources = some s) :
    (∃ op l r, m = op.arithmetic.mnemonic ∧ sources = [l, r] ∧ s = ⟨acc, .combine op l r⟩) ∨
    (∃ i, m = "INC" ∧ sources = [.register i] ∧
      s = ⟨i, .combine .add (.register i) (.constant 1)⟩) ∨
    (∃ i, m = "DEC" ∧ sources = [.register i] ∧
      s = ⟨i, .combine .sub (.register i) (.constant 1)⟩) ∨
    (∃ i source, m = "MOV" ∧ sources = [.register i, source] ∧ s = ⟨i, .copy source⟩) := by
  unfold ofMnemonic? at h
  split at h
  · exact Or.inl ⟨.add, _, _, rfl, rfl, (Option.some.inj h).symm⟩
  · exact Or.inl ⟨.sub, _, _, rfl, rfl, (Option.some.inj h).symm⟩
  · exact Or.inl ⟨.mul, _, _, rfl, rfl, (Option.some.inj h).symm⟩
  · exact Or.inr (Or.inl ⟨_, rfl, rfl, (Option.some.inj h).symm⟩)
  · exact Or.inr (Or.inr (Or.inl ⟨_, rfl, rfl, (Option.some.inj h).symm⟩))
  · exact Or.inr (Or.inr (Or.inr ⟨_, _, rfl, rfl, (Option.some.inj h).symm⟩))
  · cases h

theorem Assignment.exists_ofMnemonic?_one (acc i : Nat) {m : String} (hm : m ∈ ["INC", "DEC"]) :
    ∃ s, ofMnemonic? acc m [.register i] = some s := by
  simp only [List.mem_cons, List.not_mem_nil, or_false] at hm
  rcases hm with rfl | rfl <;> exact ⟨_, rfl⟩

theorem Assignment.exists_ofMnemonic?_two (acc i : Nat) (r : Source) {m : String}
    (hm : m ∈ ["ADD", "SUB", "MUL", "MOV"]) :
    ∃ s, ofMnemonic? acc m [.register i, r] = some s := by
  simp only [List.mem_cons, List.not_mem_nil, or_false] at hm
  rcases hm with rfl | rfl | rfl | rfl <;> exact ⟨_, rfl⟩

namespace Model

variable {row : Instruction}

theorem chain_row (h : row ∈ Model.extended.instructions) :
    (row.mnemonic ∈ ["INC", "DEC"] → row.arguments = [.register]) ∧
      (row.mnemonic ∈ ["ADD", "SUB", "MUL", "MOV"] →
        row.arguments.length = 2 ∧ row.arguments.head? ≠ some .constant) ∧
      (row.mnemonic = "MOV" →
        ∃ op ∈ [TwoOperand.move, .storeThrough, .loadThrough, .moveConstant, .copyIn, .copyOut],
          row.operation = .two op) := by
  revert row
  decide +kernel

end Model

namespace Core

variable {c : Core} {e : Nat → Int}

theorem general?_eq_some {w : Word} {i : Nat} :
    c.general? w = some i ↔ c.registers.place? (.index w) = some i ∧ i ≠ c.registers.ipIndex := by
  simp [general?, Option.filter_eq_some_iff]

theorem source?_register {w : Word} {s : Source} (h : c.source? .register w = some s) :
    ∃ i, c.registers.place? (.index w) = some i ∧ i ≠ c.registers.ipIndex ∧ s = .register i := by
  obtain ⟨i, hi, rfl⟩ := Option.map_eq_some_iff.mp h
  obtain ⟨hplace, hne⟩ := general?_eq_some.mp hi
  exact ⟨i, hplace, hne, rfl⟩

theorem sources?_singleton {a : Argument} {w : Word} {s : Source} :
    c.sources? [a] [w] = some [s] ↔ c.source? a w = some s := by
  simp [sources?, Option.bind_eq_some_iff]

theorem sources?_pair {a b : Argument} {v w : Word} {l r : Source} :
    c.sources? [a, b] [v, w] = some [l, r] ↔ c.source? a v = some l ∧ c.source? b w = some r := by
  simp [sources?, Option.bind_eq_some_iff]

theorem Agrees.source (h : c.Agrees e) {a : Argument} {w : Word} {s : Source}
    (hs : c.source? a w = some s) : s.value c.integers ≡ s.value e [ZMOD 2 ^ c.kind.bits] := by
  cases a with
  | register =>
    obtain ⟨i, hplace, hne, rfl⟩ := source?_register hs
    exact h i (Registers.place_lt hplace) hne
  | constant =>
    obtain ⟨x, -, rfl⟩ := Option.map_eq_some_iff.mp hs
    rfl
  | registerPointer | address | symbol => cases hs

theorem assignment?_eq_some {s : Assignment} (h : c.assignment? = some s) :
    ∃ row ws sources acc, c.instruction? = some (row, ws) ∧
      c.sources? row.arguments ws = some sources ∧
      c.registers.place? (.name accumulator) = some acc ∧
      Assignment.ofMnemonic? acc row.mnemonic sources = some s := by
  obtain ⟨⟨row, ws⟩, hi, h⟩ := Option.bind_eq_some_iff.mp h
  obtain ⟨sources, hsources, h⟩ := Option.bind_eq_some_iff.mp h
  obtain ⟨acc, hacc, h⟩ := Option.bind_eq_some_iff.mp h
  exact ⟨row, ws, sources, acc, hi, hsources, hacc, h⟩

theorem step_adds {w delta : Word} {sign : String} {f : Effect String}
    (h : c.step w delta sign = .ok f) :
    ∃ i a, c.registers.place? (.index w) = some i ∧ c.readRegister w = .ok a ∧
      f.writes = [.register i (a.add delta)] := by
  obtain ⟨a, ha, h⟩ := Check.bind_eq_ok.mp h
  obtain ⟨i, hi, hwrites⟩ := assign_eq_ok h
  exact ⟨i, a, hi, ha, hwrites⟩

theorem advanced_word (c : Core) (n : Nat) {i : Nat} (hi : i ≠ c.registers.ipIndex) :
    (c.advanced n).registers.word i = c.registers.word i :=
  Registers.word_of_cell (kind_of_shape (c.advanced_shape n)) (c.advanced_cell n hi)

end Core

namespace Kind

variable {k : Kind} {a b : Word} {x y : Int}

theorem Represents.natAbs_narrow (h : k.Represents a x) (hbits : k.bits ≤ 16) :
    x.natAbs ≤ 2 ^ 16 := by
  have hleast : -2 ^ 16 ≤ k.least := by revert hbits; cases k <;> decide
  have hgreatest : k.greatest ≤ 2 ^ 16 := by revert hbits; cases k <;> decide
  have hlow := h.least
  have hhigh := h.greatest
  omega

theorem integer?_ring (hk : k.isInteger) (ha : k.Represents a x) (hb : k.Represents b y)
    (op : RingOperator) (hfits : op = .mul → (x * y).natAbs ≤ 2 ^ 53) :
    (op.arithmetic.apply a b).integer? = some (op.apply x y) := by
  have hx := ha.natAbs_le hk
  have hy := hb.natAbs_le hk
  cases op with
  | add => exact Word.integer?_add (ha.integer? hk) (hb.integer? hk) (by omega)
  | sub => exact Word.integer?_sub (ha.integer? hk) (hb.integer? hk) (by omega)
  | mul => exact Word.integer?_mul (ha.integer? hk) (hb.integer? hk) (hfits rfl)

end Kind

namespace Processor

variable {p : Processor}

theorem Sound.represents_source (hp : p.Sound .extended) (hk : p.core.kind.isInteger) {o : Operand}
    {n k : Nat} {w v : Word} {s : Source} (hw : p.core.readMemory (p.core.pointer k) = .ok w)
    (hs : p.core.source? o.argument w = some s) (hv : o.value (p.core.advanced n) w = .ok v) :
    p.core.kind.Represents v (s.value p.core.integers) := by
  obtain ⟨x, hx⟩ := Kind.exists_represents hk (hp.coerce_operand hw hv)
  have hinteger := hx.integer? hk
  have hvalue : s.value p.core.integers = x := by
    cases o with
    | register =>
      obtain ⟨i, hplace, hne, rfl⟩ := Core.source?_register hs
      obtain ⟨j, hj, rfl⟩ := Registers.read_eq_ok.mp hv
      rw [Core.place_of_shape (p.core.advanced_shape n), hplace] at hj
      cases hj
      rw [p.core.advanced_word n hne] at hinteger
      exact congrArg (·.getD 0) hinteger
    | constant =>
      obtain ⟨y, hy, rfl⟩ := Option.map_eq_some_iff.mp hs
      cases hv
      exact Option.some.inj (hy.symm.trans hinteger)
  exact hvalue ▸ hx

theorem Sound.exists_source (hp : p.Sound .extended) (hk : p.core.kind.isInteger) {k : Nat}
    {a : Argument} {w : Word} (hw : p.core.readMemory (p.core.pointer k) = .ok w)
    (hresolves : a.isRegister → p.core.Resolves w)
    (ha : a = .constant ∨
      a = .register ∧ p.core.registers.place? (.index w) ≠ some p.core.registers.ipIndex) :
    ∃ s, p.core.source? a w = some s ∧ (a = .register → ∃ i, s = .register i) := by
  rcases ha with rfl | ⟨rfl, hne⟩
  · obtain ⟨x, hx⟩ := Kind.exists_represents hk (hp.coerce_operand (o := .constant) (n := 0) hw rfl)
    exact ⟨.constant x, congrArg (·.map Source.constant) (hx.integer? hk), fun h => by cases h⟩
  · obtain ⟨i, hi⟩ := hresolves rfl
    have hne : i ≠ p.core.registers.ipIndex := fun h => hne (h ▸ hi)
    have hgeneral := Core.general?_eq_some.mpr ⟨hi, hne⟩
    exact ⟨.register i, congrArg (·.map Source.register) hgeneral, fun _ => ⟨i, rfl⟩⟩

theorem Sound.exists_sources (hp : p.Sound .extended) (hk : p.core.kind.isInteger)
    {row : Instruction} {ws : List Word} (hrow : row ∈ Model.extended.instructions)
    (hstreams : p.core.Streams 1 ws) (hready : row.Ready ws p.core)
    (hm : row.mnemonic ∈ ["INC", "DEC"] ++ ["ADD", "SUB", "MUL", "MOV"])
    (hoperands : ∀ aw ∈ row.arguments.zip ws, aw.1 = .constant ∨
      aw.1 = .register ∧ p.core.registers.place? (.index aw.2) ≠ some p.core.registers.ipIndex)
    (acc : Nat) :
    ∃ sources s, p.core.sources? row.arguments ws = some sources ∧
      Assignment.ofMnemonic? acc row.mnemonic sources = some s := by
  obtain ⟨hone, htwo, -⟩ := Model.chain_row hrow
  have hlength := hready.operands.1
  have hresolves : p.core.RegistersResolve row.arguments ws := by
    intro aw haw ha
    obtain ⟨i, hplace⟩ := hready.registers aw haw ha
    exact ⟨i, Core.place_of_shape (p.core.advanced_shape _) _ ▸ hplace⟩
  rcases List.mem_append.mp hm with hm | hm
  · have harguments := hone hm
    rw [harguments] at hoperands hresolves hlength ⊢
    obtain ⟨w, rfl⟩ := List.length_eq_one_iff.mp hlength
    obtain ⟨s, hs, hregister⟩ := hp.exists_source hk (a := .register) (w := w) hstreams.1
      (hresolves (_, _) (by simp)) (hoperands (_, _) (by simp))
    obtain ⟨i, rfl⟩ := hregister rfl
    obtain ⟨s, hassigns⟩ := Assignment.exists_ofMnemonic?_one acc i hm
    exact ⟨_, s, Core.sources?_singleton.mpr hs, hassigns⟩
  · obtain ⟨htwo, hhead⟩ := htwo hm
    obtain ⟨a, b, harguments⟩ : ∃ a b, row.arguments = [a, b] :=
      ⟨_, _, List.eq_getElem_of_length_eq_two _ htwo⟩
    rw [harguments] at hoperands hresolves hlength hhead ⊢
    obtain ⟨v, w, rfl⟩ : ∃ v w, ws = [v, w] := ⟨_, _, List.eq_getElem_of_length_eq_two _ hlength⟩
    obtain ⟨l, hl, hregister⟩ := hp.exists_source hk (a := a) (w := v) hstreams.1
      (hresolves (_, _) (by simp)) (hoperands (_, _) (by simp))
    obtain ⟨r, hr, -⟩ := hp.exists_source hk (a := b) (w := w) hstreams.2.1
      (hresolves (_, _) (by simp)) (hoperands (_, _) (by simp))
    have ha : a = .register :=
      ((hoperands (a, v) (by simp)).resolve_left fun h => hhead (congrArg some h)).1
    obtain ⟨i, rfl⟩ := hregister ha
    obtain ⟨s, hassigns⟩ := Assignment.exists_ofMnemonic?_two acc i r hm
    exact ⟨_, s, Core.sources?_pair.mpr ⟨hl, hr⟩, hassigns⟩

theorem exists_assignment (hp : p.Sound .extended) (hk : p.core.kind.isInteger) (h : p.Succeeds)
    (hc : p.core.InChain) : ∃ s, p.core.assignment? = some s := by
  obtain ⟨⟨row, ws⟩, hi, hm, hoperands⟩ := hc
  obtain ⟨continues, hresult⟩ := h
  obtain ⟨opcode, row', ws', hrow, hstreams, hready, -⟩ := cycle_ready hp hresult
  have hi' := Core.instruction?_eq_some.mpr ⟨opcode, hrow, hstreams, hready.operands.1⟩
  obtain ⟨rfl, rfl⟩ := Prod.mk.inj (Option.some.inj (hi.symm.trans hi'))
  obtain ⟨acc, hacc⟩ := Registers.exists_place_of_mem (hp.required accumulator (by decide))
  obtain ⟨sources, s, hsources, hs⟩ := hp.exists_sources hk (Model.mem_of_lookup hrow) hstreams.2
    hready hm hoperands acc
  exact ⟨s, by simp [Core.assignment?, hi', hsources, hacc, hs]⟩

/-- A cycle makes an assignment: it stores a word of the integer assigned, and integers that agree
with the registers assign a congruent one. -/
structure Assigns (p : Processor) (s : Assignment) : Prop where
  place_lt : s.place < p.core.registers.size
  place_ne : s.place ≠ p.core.registers.ipIndex
  agrees : ∀ e, p.core.Agrees e →
    s.formula.value p.core.integers ≡ s.formula.value e [ZMOD 2 ^ p.core.kind.bits]
  stores : ∃ n w, w.integer? = some (s.formula.value p.core.integers) ∧
    p.cycle.2.core = (p.core.advanced n).store (.register s.place w)

section

variable (hp : p.Sound .extended) (hk : p.core.kind.isInteger) (h : p.Succeeds)
  {row : Instruction} {ws : List Word} (hi : p.core.instruction? = some (row, ws))
include hp hk h hi

theorem cycle_combines {op : RingOperator} {o : Operand} {l r : Source} {acc : Nat}
    (hop : row.operation = .two (.arithmetic op.arithmetic o))
    (hsources : p.core.sources? row.arguments ws = some [l, r])
    (hacc : p.core.registers.place? (.name accumulator) = some acc) :
    (∀ e, p.core.Agrees e → (Formula.combine op l r).value p.core.integers ≡
      (Formula.combine op l r).value e [ZMOD 2 ^ p.core.kind.bits]) ∧
    ∃ a b, p.core.kind.Represents a (l.value p.core.integers) ∧
      p.core.kind.Represents b (r.value p.core.integers) ∧
      p.cycle.2.core = (p.core.advanced 3).store (.register acc (op.arithmetic.apply a b)) := by
  obtain ⟨v, w, e, rfl, harguments, hv, hw, he, hd⟩ := cycle_of_two hp h hi hop
  obtain ⟨a, b, acc', ha, hb, hacc', hwrites⟩ := Core.accumulate_two_eq_ok he
  rw [Core.place_of_shape (p.core.advanced_shape 3), hacc] at hacc'
  cases hacc'
  rw [harguments] at hsources
  obtain ⟨hl, hr⟩ := Core.sources?_pair.mp hsources
  refine ⟨fun e he => op.apply_modEq (he.source hl) (he.source hr), a, b,
    hp.represents_source hk (o := .register) hv hl ha, hp.represents_source hk hw hr hb, ?_⟩
  rw [hd, hwrites]
  rfl

theorem assigns_combine {op : RingOperator} {o : Operand} {l r : Source} {acc : Nat}
    (hop : row.operation = .two (.arithmetic op.arithmetic o))
    (hsources : p.core.sources? row.arguments ws = some [l, r])
    (hacc : p.core.registers.place? (.name accumulator) = some acc)
    (hfits : (Formula.combine op l r).Fits p.core.integers) :
    p.Assigns ⟨acc, .combine op l r⟩ := by
  obtain ⟨hagrees, a, b, hx, hy, hd⟩ := cycle_combines hp hk h hi hop hsources hacc
  exact ⟨Registers.place_lt hacc, Registers.place_ne_ip hp.core.registers (by decide) hacc, hagrees,
    3, _, Kind.integer?_ring hk hx hy op fun hmul => by subst hmul; exact hfits, hd⟩

theorem assigns_step {op : OneOperand} {i : Nat} {delta : Int} {sign : String}
    {ring : RingOperator} (hop : row.operation = .one op) (hargument : op.argument = .register)
    (heffect : ∀ w c, op.effect w c = c.step w (Word.ofInt delta) sign)
    (hdelta : delta.natAbs = 1) (hring : ∀ x, ring.apply x 1 = x + delta)
    (hsources : p.core.sources? row.arguments ws = some [.register i]) :
    p.Assigns ⟨i, .combine ring (.register i) (.constant 1)⟩ := by
  obtain ⟨w, e, rfl, harguments, hw, he, hd⟩ := cycle_of_one hp h hi hop
  rw [heffect] at he
  obtain ⟨j, a, hj, ha, hwrites⟩ := Core.step_adds he
  rw [harguments, hargument] at hsources
  have hs := Core.sources?_singleton.mp hsources
  obtain ⟨i', hplace, hne, hi'⟩ := Core.source?_register hs
  cases hi'
  rw [Core.place_of_shape (p.core.advanced_shape 2), hplace] at hj
  cases hj
  have hx := hp.represents_source hk (o := .register) hw hs ha
  have hsmall := hx.natAbs_le hk
  have hsum := Word.integer?_add (hx.integer? hk) (Word.integer?_ofInt (z := delta) (by omega))
    (by omega)
  rw [← hring] at hsum
  refine ⟨Registers.place_lt hplace, hne, fun e he => ring.apply_modEq (he.source hs) rfl, 2, _,
    hsum, ?_⟩
  rw [hd, hwrites]
  rfl

theorem assigns_copy {i : Nat} {s : Source} (hrow : row ∈ Model.extended.instructions)
    (hm : row.mnemonic = "MOV")
    (hsources : p.core.sources? row.arguments ws = some [.register i, s]) :
    p.Assigns ⟨i, .copy s⟩ := by
  obtain ⟨op, hmoves, hop⟩ := (Model.chain_row hrow).2.2 hm
  obtain ⟨v, w, e, rfl, harguments, hv, hw, he, hd⟩ := cycle_of_two hp h hi hop
  obtain ⟨o, harg, hvalue⟩ : ∃ o : Operand, op.arguments = (.register, o.argument) ∧
      ∃ a j, o.value (p.core.advanced 3) w = .ok a ∧
        (p.core.advanced 3).registers.place? (.index v) = some j ∧ e.writes = [.register j a] := by
    cases op with
    | move =>
      obtain ⟨a, ha, he⟩ := Check.bind_eq_ok.mp he
      obtain ⟨j, hj, hwrites⟩ := Core.assign_eq_ok he
      exact ⟨.register, rfl, a, j, ha, hj, hwrites⟩
    | moveConstant =>
      obtain ⟨j, hj, hwrites⟩ := Core.assign_eq_ok he
      exact ⟨.constant, rfl, w, j, rfl, hj, hwrites⟩
    | storeThrough | loadThrough | copyIn | copyOut =>
      simp [harguments, TwoOperand.arguments, Core.sources?, Core.source?] at hsources
    | load | arithmetic | bitwise | compare => simp at hmoves
  obtain ⟨a, j, ha, hj, hwrites⟩ := hvalue
  rw [harguments, harg] at hsources
  obtain ⟨hv', hs⟩ := Core.sources?_pair.mp hsources
  obtain ⟨i', hplace, hne, hi'⟩ := Core.source?_register hv'
  cases hi'
  rw [Core.place_of_shape (p.core.advanced_shape 3), hplace] at hj
  cases hj
  have hx := hp.represents_source hk hw hs ha
  refine ⟨Registers.place_lt hplace, hne, fun e he => he.source hs, 3, a, hx.integer? hk, ?_⟩
  rw [hd, hwrites]
  rfl

end

theorem cycle_assigns (hp : p.Sound .extended) (hk : p.core.kind.isInteger) (h : p.Succeeds)
    {s : Assignment} (hs : p.core.assignment? = some s) (hfits : s.formula.Fits p.core.integers) :
    p.Assigns s := by
  obtain ⟨row, ws, sources, acc, hi, hsources, hacc, hs⟩ := Core.assignment?_eq_some hs
  have hrow : row ∈ Model.extended.instructions := by
    obtain ⟨opcode, hlookup, -⟩ := Core.instruction?_eq_some.mp hi
    exact Model.mem_of_lookup hlookup
  rcases Assignment.ofMnemonic?_eq_some hs with ⟨op, l, r, hm, rfl, rfl⟩ | ⟨i, hm, rfl, rfl⟩ |
    ⟨i, hm, rfl, rfl⟩ | ⟨i, source, hm, rfl, rfl⟩
  · obtain ⟨o, hop⟩ := Model.arithmetic_row hrow hm
    exact assigns_combine hp hk h hi hop hsources hacc hfits
  · exact assigns_step hp hk h hi (Model.increment_row hrow hm) rfl (fun _ _ => rfl) rfl
      (fun _ => rfl) hsources
  · exact assigns_step hp hk h hi (Model.decrement_row hrow hm) rfl (fun _ _ => rfl) rfl
      (fun _ => rfl) hsources
  · exact assigns_copy hp hk h hi hrow hm hsources

theorem fits_of_narrow (hp : p.Sound .extended) (hk : p.core.kind.isInteger)
    (hbits : p.core.kind.bits ≤ 16) (h : p.Succeeds) {s : Assignment}
    (hs : p.core.assignment? = some s) : s.formula.Fits p.core.integers := by
  obtain ⟨row, ws, sources, acc, hi, hsources, hacc, hs⟩ := Core.assignment?_eq_some hs
  rcases Assignment.ofMnemonic?_eq_some hs with ⟨op, l, r, hm, rfl, rfl⟩ | ⟨i, hm, rfl, rfl⟩ |
    ⟨i, hm, rfl, rfl⟩ | ⟨i, source, hm, rfl, rfl⟩
  · obtain ⟨opcode, hlookup, -⟩ := Core.instruction?_eq_some.mp hi
    obtain ⟨o, hop⟩ := Model.arithmetic_row (Model.mem_of_lookup hlookup) hm
    obtain ⟨-, a, b, hx, hy, -⟩ := cycle_combines hp hk h hi hop hsources hacc
    cases op with
    | mul =>
      have hproduct := Nat.mul_le_mul (hx.natAbs_narrow hbits) (hy.natAbs_narrow hbits)
      rw [Formula.Fits, Int.natAbs_mul]
      exact Nat.le_trans hproduct (by decide)
    | add | sub => trivial
  · trivial
  · trivial
  · trivial

def Follows : Processor → List Assignment → Prop
  | _, [] => True
  | p, s :: steps => p.Succeeds ∧ p.core.assignment? = some s ∧ p.cycle.2.Follows steps

/-- No product on the way is above `2 ^ 53`. -/
def ProductsFit : Processor → List Assignment → Prop
  | _, [] => True
  | p, s :: steps => s.formula.Fits p.core.integers ∧ p.cycle.2.ProductsFit steps

instance decidableFollows : (p : Processor) → (steps : List Assignment) → Decidable (p.Follows steps)
  | _, [] => isTrue trivial
  | p, _ :: steps =>
    have := decidableFollows p.cycle.2 steps
    inferInstanceAs (Decidable (_ ∧ _ ∧ _))

instance decidableProductsFit :
    (p : Processor) → (steps : List Assignment) → Decidable (p.ProductsFit steps)
  | _, [] => isTrue trivial
  | p, _ :: steps =>
    have := decidableProductsFit p.cycle.2 steps
    inferInstanceAs (Decidable (_ ∧ _))

/-- The next `n` cycles succeed, each with an instruction of a chain. -/
def InChain (p : Processor) (n : Nat) : Prop :=
  ∀ m < n, (p.afterCycles m).Succeeds ∧ (p.afterCycles m).core.InChain

instance decidableInChain (p : Processor) (n : Nat) : Decidable (p.InChain n) :=
  inferInstanceAs (Decidable (∀ m < n, _ ∧ _))

theorem Follows.unique {steps others : List Assignment} (h : p.Follows steps)
    (h' : p.Follows others) (hlength : steps.length = others.length) : steps = others := by
  induction steps generalizing p others with
  | nil => exact (List.eq_nil_of_length_eq_zero hlength.symm).symm
  | cons s steps ih =>
    cases others with
    | nil => cases hlength
    | cons s' others =>
      obtain rfl : s = s' := Option.some.inj (h.2.1.symm.trans h'.2.1)
      rw [ih h.2.2 h'.2.2 (Nat.succ.inj hlength)]

theorem Assigns.shape {s : Assignment} (h : p.Assigns s) : p.cycle.2.core.shape = p.core.shape := by
  obtain ⟨n, w, -, hd⟩ := h.stores
  rw [hd, Core.store_shape, Core.advanced_shape]

theorem Assigns.kind {s : Assignment} (h : p.Assigns s) : p.cycle.2.core.kind = p.core.kind :=
  Core.kind_of_shape h.shape

theorem Assigns.agrees_run {s : Assignment} {e : Nat → Int} (h : p.Assigns s)
    (hp : p.Sound .extended) (hk : p.core.kind.isInteger) (he : p.core.Agrees e) :
    p.cycle.2.core.Agrees (s.run e) := by
  intro i hi hne
  obtain ⟨n, w, hw, hd⟩ := h.stores
  rw [Core.size_of_shape h.shape] at hi
  rw [Core.ipIndex_of_shape h.shape] at hne
  rw [h.kind, hd]
  have hs := p.core.advanced_shape n
  have hr := Core.registers_of_shape hs hp.core.registers
  by_cases hplace : i = s.place
  · have hword : ((p.core.advanced n).registers.put s.place w).word i = p.core.kind.coerce w := by
      rw [hplace, Registers.word_put hr (Core.size_of_shape hs ▸ h.place_lt)]
      exact congrArg (fun k : Kind => k.coerce w) (Core.kind_of_shape hs)
    have hstored := (Kind.coerce_integer? hk hw).integer? hk
    have hintegers : ((p.core.advanced n).store (.register s.place w)).integers i =
        p.core.kind.wrap (s.formula.value p.core.integers) := by
      rw [← hword] at hstored
      exact congrArg (·.getD 0) hstored
    rw [hintegers, Assignment.run, hplace, Function.update_self]
    exact (p.core.kind.wrap_modEq _).trans (h.agrees e he)
  · have hword : ((p.core.advanced n).registers.put s.place w).word i = p.core.registers.word i := by
      rw [Registers.word_put_ne _ w hplace, p.core.advanced_word n hne]
    have hintegers : ((p.core.advanced n).store (.register s.place w)).integers i =
        p.core.integers i :=
      congrArg (fun w : Word => w.integer?.getD 0) hword
    rw [hintegers, Assignment.run, Function.update_of_ne hplace]
    exact he i hi hne

theorem run_agrees (hp : p.Sound .extended) (hk : p.core.kind.isInteger) {steps : List Assignment}
    {e : Nat → Int} (h : p.Follows steps) (hfits : p.ProductsFit steps) (he : p.core.Agrees e) :
    (p.afterCycles steps.length).core.shape = p.core.shape ∧
      (p.afterCycles steps.length).core.Agrees (Assignment.runAll steps e) := by
  induction steps generalizing p e with
  | nil => exact ⟨rfl, he⟩
  | cons s steps ih =>
    obtain ⟨hsucceeds, hs, hrest⟩ := h
    have hassigns := cycle_assigns hp hk hsucceeds hs hfits.1
    rw [List.length_cons, afterCycles_succ]
    obtain ⟨hshape, hagrees⟩ := ih (cycle_sound hp) (hassigns.kind ▸ hk) hrest hfits.2
      (hassigns.agrees_run hp hk he)
    exact ⟨hshape.trans hassigns.shape, hagrees⟩

theorem productsFit_of_narrow (hp : p.Sound .extended) (hk : p.core.kind.isInteger)
    (hbits : p.core.kind.bits ≤ 16) {steps : List Assignment} (h : p.Follows steps) :
    p.ProductsFit steps := by
  induction steps generalizing p with
  | nil => trivial
  | cons s steps ih =>
    obtain ⟨hsucceeds, hs, hrest⟩ := h
    have hkind := cycle_kind hp
    exact ⟨fits_of_narrow hp hk hbits hsucceeds hs, ih (cycle_sound hp) (hkind ▸ hk) (hkind ▸ hbits) hrest⟩

theorem InChain.exists_follows {n : Nat} (h : p.InChain n) (hp : p.Sound .extended)
    (hk : p.core.kind.isInteger) : ∃ steps : List Assignment, steps.length = n ∧ p.Follows steps := by
  induction n generalizing p with
  | zero => exact ⟨[], rfl, trivial⟩
  | succ n ih =>
    obtain ⟨hsucceeds, hchain⟩ := h 0 n.succ_pos
    obtain ⟨s, hs⟩ := exists_assignment hp hk hsucceeds hchain
    have hkind := cycle_kind hp
    obtain ⟨steps, hlength, hfollows⟩ :=
      ih (fun m hm => afterCycles_succ p m ▸ h (m + 1) (Nat.succ_lt_succ hm)) (cycle_sound hp)
        (hkind ▸ hk)
    exact ⟨s :: steps, congrArg Nat.succ hlength, hsucceeds, hs, hfollows⟩

/-- After any number of sums, differences, products and copies, each register holds the one integer
within the range that is congruent to what the same steps give without bounds. Products must be exact
before they are stored, as those of 8 and 16 bits are. -/
theorem exact_chains_stay_congruent (hp : p.Reachable .extended) (hk : p.core.kind.isInteger)
    {n : Nat} (h : p.InChain n) :
    ∃ steps : List Assignment, steps.length = n ∧ p.Follows steps ∧
      (p.core.kind.bits ≤ 16 → p.ProductsFit steps) ∧
      (p.ProductsFit steps → ∀ e, p.core.Agrees e →
        ∀ i < p.core.registers.size, i ≠ p.core.registers.ipIndex →
          ∃ x, p.core.kind.Represents ((p.afterCycles n).core.registers.word i) x ∧
            x ≡ Assignment.runAll steps e i [ZMOD 2 ^ p.core.kind.bits] ∧
            ∀ y, p.core.kind.least ≤ y → y ≤ p.core.kind.greatest →
              y ≡ Assignment.runAll steps e i [ZMOD 2 ^ p.core.kind.bits] → y = x) := by
  have hs := hp.sound
  obtain ⟨steps, rfl, hfollows⟩ := h.exists_follows hs hk
  refine ⟨steps, rfl, hfollows, fun hbits => productsFit_of_narrow hs hk hbits hfollows,
    fun hfits e he i hi hne => ?_⟩
  obtain ⟨hshape, hagrees⟩ := run_agrees hs hk hfollows hfits he
  have hkind : (p.afterCycles steps.length).core.kind = p.core.kind := Core.kind_of_shape hshape
  have hr := (afterCycles_sound hs steps.length).core.registers
  have hword : p.core.kind.coerce ((p.afterCycles steps.length).core.registers.word i) =
      (p.afterCycles steps.length).core.registers.word i := by
    rw [← hkind]
    exact Registers.coerce_word hr (Core.size_of_shape hshape ▸ hi)
  have hcongruent := hagrees i (Core.size_of_shape hshape ▸ hi) (Core.ipIndex_of_shape hshape ▸ hne)
  obtain ⟨x, hx⟩ := Kind.exists_represents hk hword
  have hinteger : (p.afterCycles steps.length).core.integers i = x :=
    congrArg (·.getD 0) (hx.integer? hk)
  rw [hinteger, hkind] at hcongruent
  refine ⟨x, hx, hcongruent, fun y hlow hhigh hy => ?_⟩
  rw [Kind.eq_wrap hlow hhigh (hy.trans hcongruent.symm), hx.wrap]

theorem sum_of_wrapped_product :
    ∃ new, create (.ofModel .extended) ⟨some .uint8, 8, some ["x"]⟩ = .ok new ∧
      let p := new.after [.registers (.write (.name "x") (Word.ofNat 200)),
        .memory (.loadWords 0 ([0x35, 0, 3, 0x30, 2, 0].map Word.ofNat))]
      let steps : List Assignment := [⟨2, .combine .mul (.register 0) (.constant 3)⟩,
        ⟨2, .combine .add (.register 2) (.register 0)⟩]
      p.core.kind.isInteger ∧ p.InChain 2 ∧ p.Follows steps ∧ p.core.kind.bits ≤ 16 ∧
        Assignment.runAll steps p.core.integers 2 = 800 ∧
        p.core.kind.Represents ((p.afterCycles 2).core.registers.word 2) 32 := by
  let session : List HostCall := [.registers (.write (.name "x") (Word.ofNat 200)),
    .memory (.loadWords 0 ([0x35, 0, 3, 0x30, 2, 0].map Word.ofNat))]
  let steps : List Assignment := [⟨2, .combine .mul (.register 0) (.constant 3)⟩,
    ⟨2, .combine .add (.register 2) (.register 0)⟩]
  have hruns : (create (.ofModel .extended) ⟨some .uint8, 8, some ["x"]⟩).map (fun new =>
      let p : Processor := new.after session
      (decide (p.core.kind.isInteger ∧ p.InChain 2 ∧ p.Follows steps ∧ p.core.kind.bits ≤ 16 ∧
        2 < p.core.registers.size ∧ 2 ≠ p.core.registers.ipIndex), p.core.kind,
        Assignment.runAll steps p.core.integers 2)) = .ok (true, .uint8, 800) := by decide +kernel
  obtain ⟨new, hnew, hruns⟩ := Check.map_eq_ok.mp hruns
  obtain ⟨hfirst, hruns⟩ := Prod.mk.inj hruns
  obtain ⟨hkind, hexact⟩ := Prod.mk.inj hruns
  obtain ⟨hk, hchain, hfollows, hbits, hi, hne⟩ := of_decide_eq_true hfirst
  have hp : (new.after session).Reachable .extended := ⟨_, new, session, hnew, rfl⟩
  obtain ⟨found, hlength, hfound, hnarrow, hcongruent⟩ := exact_chains_stay_congruent hp hk hchain
  obtain rfl : found = steps := hfound.unique hfollows hlength
  obtain ⟨x, hx, -, hunique⟩ := hcongruent (hnarrow hbits) _ (fun _ _ _ => rfl) 2 hi hne
  have h32 : 32 = x := by
    apply hunique 32
    · rw [hkind]; decide
    · rw [hkind]; decide
    · rw [hexact, hkind]; decide
  exact ⟨new, hnew, hk, hchain, hfollows, hbits, hexact, h32 ▸ hx⟩

end Processor

end WordMachine
