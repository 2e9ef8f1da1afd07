import Mathlib.Data.BitVec
import Mathlib.Tactic

/-!
Bytes as the field of 256 elements with the polynomial `x⁸+x⁴+x³+x+1`, and columns of four bytes.

Addition is the exclusive or. A column is multiplied with a circulant matrix, which is given by
its first column; that two such matrices are inverse is checked entry by entry.
-/

namespace KernelModel.GaloisByte

abbrev Byte : Type := BitVec 8

/-- A byte times the polynomial `x`. -/
def xtime (a : Byte) : Byte := (a <<< 1) ^^^ if a.msb then 0x1b else 0

/-- The product, over the lowest bits of the first byte. -/
def mulBits : ℕ → Byte → Byte → Byte
  | 0, _, _ => 0
  | n + 1, c, a => (if c.getLsbD 0 then a else 0) ^^^ mulBits n (c >>> 1) (xtime a)

def mul (c a : Byte) : Byte := mulBits 8 c a

lemma xor_left_comm (a b c : Byte) : a ^^^ (b ^^^ c) = b ^^^ (a ^^^ c) := by ac_rfl

lemma xtime_xor (a b : Byte) : xtime (a ^^^ b) = xtime a ^^^ xtime b := by
  unfold xtime
  rw [BitVec.shiftLeft_xor_distrib, BitVec.msb_xor]
  cases a.msb <;> cases b.msb <;>
    simp [BitVec.xor_assoc, BitVec.xor_comm, xor_left_comm]

lemma mulBits_xor (n : ℕ) (c a b : Byte) :
    mulBits n c (a ^^^ b) = mulBits n c a ^^^ mulBits n c b := by
  induction n generalizing c a b with
  | zero => simp [mulBits]
  | succ n ih =>
    rw [mulBits, mulBits, mulBits, xtime_xor, ih]
    split_ifs
    · simp only [BitVec.xor_assoc, xor_left_comm]
    · simp

lemma xor_self_left (a b : Byte) : a ^^^ (a ^^^ b) = b := by
  rw [← BitVec.xor_assoc, BitVec.xor_self, BitVec.zero_xor]

lemma mul_xor (c a b : Byte) : mul c (a ^^^ b) = mul c a ^^^ mul c b := mulBits_xor 8 c a b

/-! ### Linear maps -/

def Linear (f : Byte → Byte) : Prop := ∀ a b, f (a ^^^ b) = f a ^^^ f b

/-- One bit of a byte. -/
def bit (a : Byte) (i : Fin 8) : Byte := if a.getLsbD i then BitVec.twoPow 8 i else 0

lemma eq_bits (a : Byte) :
    a = bit a 0 ^^^ bit a 1 ^^^ bit a 2 ^^^ bit a 3 ^^^ bit a 4 ^^^ bit a 5 ^^^ bit a 6 ^^^
      bit a 7 := by
  revert a
  decide +kernel

lemma Linear.zero {f : Byte → Byte} (hf : Linear f) : f 0 = 0 := by
  have h := hf 0 0
  rw [BitVec.xor_self, BitVec.xor_self] at h
  exact h

lemma Linear.ext {f g : Byte → Byte} (hf : Linear f) (hg : Linear g)
    (h : ∀ i : Fin 8, f (BitVec.twoPow 8 i) = g (BitVec.twoPow 8 i)) (a : Byte) : f a = g a := by
  have hbit : ∀ i, f (bit a i) = g (bit a i) := by
    intro i
    unfold bit
    split_ifs
    · exact h i
    · rw [hf.zero, hg.zero]
  rw [eq_bits a]
  simp only [hf _ _, hg _ _, hbit]

lemma linear_mul (c : Byte) : Linear (mul c) := mul_xor c

lemma xor_mulBits (n : ℕ) (c d a : Byte) :
    mulBits n (c ^^^ d) a = mulBits n c a ^^^ mulBits n d a := by
  induction n generalizing c d a with
  | zero => simp [mulBits]
  | succ n ih =>
    rw [mulBits, mulBits, mulBits, BitVec.ushiftRight_xor_distrib, ih, BitVec.getLsbD_xor]
    cases c.getLsbD 0 <;> cases d.getLsbD 0 <;>
      simp [BitVec.xor_assoc, xor_left_comm, xor_self_left]

lemma xor_mul (c d a : Byte) : mul (c ^^^ d) a = mul c a ^^^ mul d a := xor_mulBits 8 c d a

/-! ### The product -/

lemma mul_twoPow : ∀ i j : Fin 8,
    mul (BitVec.twoPow 8 i) (BitVec.twoPow 8 j) = mul (BitVec.twoPow 8 j) (BitVec.twoPow 8 i) ∧
      mul (xtime (BitVec.twoPow 8 i)) (BitVec.twoPow 8 j) =
        xtime (mul (BitVec.twoPow 8 i) (BitVec.twoPow 8 j)) ∧
      mul (BitVec.twoPow 8 i) (BitVec.twoPow 8 j) = xtime^[i] (BitVec.twoPow 8 j) := by
  decide +kernel

lemma mul_comm (a b : Byte) : mul a b = mul b a := by
  refine Linear.ext (f := fun a => mul a b) (fun c d => xor_mul c d b) (linear_mul b)
    (fun i => ?_) a
  exact Linear.ext (g := fun b => mul b (BitVec.twoPow 8 i)) (linear_mul _)
    (fun c d => xor_mul c d _) (fun j => (mul_twoPow i j).1) b

lemma xtime_mul (c a : Byte) : mul (xtime c) a = xtime (mul c a) := by
  refine Linear.ext (f := fun c => mul (xtime c) a) (g := fun c => xtime (mul c a))
    (fun x y => by simp only [xtime_xor, xor_mul]) (fun x y => by simp only [xtime_xor, xor_mul])
    (fun i => ?_) c
  exact Linear.ext (g := fun a => xtime (mul (BitVec.twoPow 8 i) a)) (linear_mul _)
    (fun x y => by simp only [xtime_xor, mul_xor]) (fun j => (mul_twoPow i j).2.1) a

lemma linear_iterate (n : ℕ) : Linear xtime^[n] := by
  induction n with
  | zero => exact fun x y => rfl
  | succ n ih =>
    intro x y
    simp only [Function.iterate_succ_apply', ih x y, xtime_xor]

lemma twoPow_mul (i : Fin 8) (a : Byte) : mul (BitVec.twoPow 8 i) a = xtime^[i] a :=
  (linear_mul _).ext (linear_iterate i) (fun j => (mul_twoPow i j).2.2) a

lemma iterate_mul (n : ℕ) (b c : Byte) : mul (xtime^[n] b) c = xtime^[n] (mul b c) := by
  induction n with
  | zero => rfl
  | succ n ih => simp only [Function.iterate_succ_apply', xtime_mul, ih]

lemma mul_assoc (a b c : Byte) : mul (mul a b) c = mul a (mul b c) := by
  refine Linear.ext (f := fun a => mul (mul a b) c) (g := fun a => mul a (mul b c))
    (fun x y => by simp only [xor_mul]) (fun x y => xor_mul x y _) (fun i => ?_) a
  rw [twoPow_mul, twoPow_mul, iterate_mul]

lemma one_mul (a : Byte) : mul 1 a = a := twoPow_mul 0 a

/-- The inverse of a byte, or zero where there is none. -/
noncomputable def inverse (a : Byte) : Byte :=
  open Classical in if h : ∃ b, mul a b = 1 then h.choose else 0

lemma inverse_eq {a b : Byte} (h : mul a b = 1) : inverse a = b := by
  have hex : ∃ b, mul a b = 1 := ⟨b, h⟩
  rw [inverse, dif_pos hex]
  calc hex.choose = mul (mul b a) hex.choose := by rw [mul_comm b a, h, one_mul]
    _ = mul b (mul a hex.choose) := mul_assoc _ _ _
    _ = b := by rw [hex.choose_spec, mul_comm, one_mul]

lemma inverse_zero : inverse 0 = 0 := by
  have hzero : ∀ b, mul 0 b = 0 := fun b => by rw [mul_comm, (linear_mul b).zero]
  have hno : ¬ ∃ b, mul 0 b = 1 := by
    rintro ⟨b, hb⟩
    rw [hzero] at hb
    exact absurd hb (by decide)
  rw [inverse, dif_neg hno]

/-! ### Columns -/

/-- The rows of a column are written `0` to `3`. -/
scoped instance neZeroFour : NeZero 4 := ⟨four_ne_zero⟩

abbrev Column : Type := Fin 4 → Byte

/-- The sum over the rows. -/
def sum (f : Column) : Byte := f 0 ^^^ f 1 ^^^ f 2 ^^^ f 3

lemma sum_xor (f g : Column) : sum (fun t => f t ^^^ g t) = sum f ^^^ sum g := by
  simp only [sum]
  ac_rfl

lemma sum_comm (f : Fin 4 → Fin 4 → Byte) :
    sum (fun t => sum fun u => f t u) = sum fun u => sum fun t => f t u := by
  simp only [sum]
  ac_rfl

lemma mul_sum (c : Byte) (f : Column) : mul c (sum f) = sum fun t => mul c (f t) := by
  simp only [sum, mul_xor]

def Column.xor (a b : Column) : Column := fun r => a r ^^^ b r

/-- The column times the circulant matrix. -/
def mix (c a : Column) : Column := fun r => sum fun t => mul (c (r - t)) (a t)

lemma mix_xor (c a b : Column) : mix c (a.xor b) = (mix c a).xor (mix c b) := by
  funext r
  simp only [mix, Column.xor, mul_xor]
  exact sum_xor _ _

/-- The entry at row `r` and column `u` of the product of two circulant matrices, times a byte. -/
def entry (d c : Column) (r u : Fin 4) (a : Byte) : Byte :=
  sum fun t => mul (d (r - t)) (mul (c (t - u)) a)

lemma linear_entry (d c : Column) (r u : Fin 4) : Linear (entry d c r u) := by
  intro a b
  simp only [entry, mul_xor]
  exact sum_xor _ _

/-- The product of the matrices is the unit matrix. -/
def Inverse (d c : Column) : Prop :=
  ∀ (r u : Fin 4) (i : Fin 8),
    entry d c r u (BitVec.twoPow 8 i) = if r = u then BitVec.twoPow 8 i else 0

instance (d c : Column) : Decidable (Inverse d c) := by
  unfold Inverse
  infer_instance

lemma mix_mix (d c a : Column) (r : Fin 4) :
    mix d (mix c a) r = sum fun u => entry d c r u (a u) := by
  simp only [mix, entry, mul_sum]
  exact sum_comm _

theorem mix_of_inverse {d c : Column} (h : Inverse d c) (a : Column) : mix d (mix c a) = a := by
  funext r
  rw [mix_mix]
  have hentry : ∀ u, entry d c r u (a u) = if r = u then a u else 0 := fun u => by
    refine (linear_entry d c r u).ext (g := fun x => if r = u then x else 0) (fun x y => ?_)
      (h r u) (a u)
    split_ifs <;> simp
  simp only [hentry, sum]
  fin_cases r <;> simp

end KernelModel.GaloisByte
