import Mathlib.Tactic

/-!
Checksums of 32 bits, computed a byte at a time from a table.

The table is any one whose words have distinct first bytes. Then the checksum tells apart any two
messages that differ within four bytes in a row.
-/

namespace KernelModel.Crc

/-- One byte. -/
def step (table : ℕ → BitVec 32) (c : BitVec 32) (b : UInt8) : BitVec 32 :=
  table ((c &&& 0xff#32) ^^^ b.toBitVec.setWidth 32).toNat ^^^ (c >>> 8)

def ofBytes (table : ℕ → BitVec 32) (c : BitVec 32) (bytes : List UInt8) : BitVec 32 :=
  bytes.foldl (step table) c

/-- One zero byte. -/
def shift (table : ℕ → BitVec 32) (c : BitVec 32) : BitVec 32 :=
  table (c &&& 0xff#32).toNat ^^^ (c >>> 8)

variable {table : ℕ → BitVec 32}

lemma low_and (b : UInt8) : b.toBitVec.setWidth 32 &&& 0xff#32 = b.toBitVec.setWidth 32 := by
  have h : ∀ x : BitVec 8, x.setWidth 32 &&& 0xff#32 = x.setWidth 32 := by decide
  exact h _

lemma low_shiftRight (b : UInt8) : b.toBitVec.setWidth 32 >>> 8 = 0#32 := by
  have h : ∀ x : BitVec 8, x.setWidth 32 >>> 8 = 0#32 := by decide
  exact h _

lemma step_eq_shift (a : BitVec 32) (b : UInt8) :
    step table a b = shift table (a ^^^ b.toBitVec.setWidth 32) := by
  rw [step, shift, BitVec.ushiftRight_xor_distrib, low_shiftRight, BitVec.xor_zero]
  have hand : (a ^^^ b.toBitVec.setWidth 32) &&& 0xff#32 =
      (a &&& 0xff#32) ^^^ b.toBitVec.setWidth 32 := by
    conv_rhs => rw [← low_and b]
    ext i
    simp only [BitVec.getElem_and, BitVec.getElem_xor]
    cases a[i] <;> cases (b.toBitVec.setWidth 32)[i] <;> cases (0xff#32)[i] <;> rfl
  rw [hand]

lemma mask_getElem : ∀ i : Fin 32, ¬(i : ℕ) < 8 → (0xff#32)[(i : ℕ)] = false := by decide

lemma shift_xor (c w : BitVec 32) (hw : (w <<< 8) >>> 8 = w) :
    shift table c ^^^ w = shift table (c ^^^ (w <<< 8)) := by
  have hand : (c ^^^ (w <<< 8)) &&& 0xff#32 = c &&& 0xff#32 := by
    ext i hi
    simp only [BitVec.getElem_and, BitVec.getElem_xor, BitVec.getElem_shiftLeft]
    by_cases h8 : i < 8
    · simp [h8]
    · have hff : (0xff#32)[i] = false := mask_getElem ⟨i, hi⟩ h8
      simp [hff]
  rw [shift, shift, hand, BitVec.ushiftRight_xor_distrib, hw, BitVec.xor_assoc]

/-- Up to four bytes as a word. -/
def word : List UInt8 → BitVec 32
  | [] => 0#32
  | b :: bytes => b.toBitVec.setWidth 32 ^^^ (word bytes <<< 8)

lemma word_lt (bytes : List UInt8) : (word bytes).toNat < 256 ^ bytes.length := by
  induction bytes with
  | nil => simp [word]
  | cons b bytes ih =>
    have hpow : 256 ^ (bytes.length + 1) = 2 ^ (8 * (bytes.length + 1)) := by
      rw [pow_mul]
      rfl
    have hb : b.toNat < 2 ^ (8 * (bytes.length + 1)) :=
      lt_of_lt_of_le (UInt8.toNat_lt b) (Nat.pow_le_pow_right (by omega) (by omega))
    have hw : (word bytes).toNat * 256 < 2 ^ (8 * (bytes.length + 1)) := by
      rw [← hpow, pow_succ]
      omega
    simp only [word, BitVec.toNat_xor, List.length_cons, hpow]
    refine Nat.xor_lt_two_pow ?_ ?_
    · rw [BitVec.toNat_setWidth]
      exact lt_of_le_of_lt (Nat.mod_le _ _) hb
    · rw [BitVec.toNat_shiftLeft, Nat.shiftLeft_eq]
      exact lt_of_le_of_lt (Nat.mod_le _ _) hw

lemma word_shift {bytes : List UInt8} (h : bytes.length ≤ 3) :
    (word bytes <<< 8) >>> 8 = word bytes := by
  have hlt := word_lt bytes
  have hpow : 256 ^ bytes.length ≤ 256 ^ 3 := Nat.pow_le_pow_right (by omega) h
  apply BitVec.eq_of_toNat_eq
  rw [BitVec.toNat_ushiftRight, BitVec.toNat_shiftLeft, Nat.shiftLeft_eq, Nat.shiftRight_eq_div_pow]
  omega

lemma word_inj {xs ys : List UInt8} (hlen : xs.length = ys.length) (h4 : xs.length ≤ 4)
    (h : word xs = word ys) : xs = ys := by
  induction xs generalizing ys with
  | nil => exact (List.length_eq_zero_iff.mp hlen.symm).symm
  | cons b xs ih =>
    cases ys with
    | nil => cases hlen
    | cons b' ys =>
      rw [List.length_cons, List.length_cons, Nat.add_right_cancel_iff] at hlen
      rw [List.length_cons] at h4
      have hlow : ∀ (b : UInt8) (w : BitVec 32),
          (b.toBitVec.setWidth 32 ^^^ (w <<< 8)) &&& 0xff#32 = b.toBitVec.setWidth 32 := by
        intro b w
        conv_rhs => rw [← low_and b]
        ext i hi
        simp only [BitVec.getElem_and, BitVec.getElem_xor, BitVec.getElem_shiftLeft]
        by_cases h8 : i < 8
        · simp [h8]
        · have hff : (0xff#32)[i] = false := mask_getElem ⟨i, hi⟩ h8
          simp [hff]
      have hb : b = b' := by
        have hmask := congrArg (· &&& 0xff#32) h
        simp only [word, hlow] at hmask
        have hinj : ∀ x y : BitVec 8, x.setWidth 32 = y.setWidth 32 → x = y := by
          intro x y hxy
          have hx := congrArg (BitVec.setWidth 8) hxy
          simpa using hx
        exact UInt8.toBitVec_inj.mp (hinj _ _ hmask)
      have hw : word xs = word ys := by
        have hshift := congrArg (fun x : BitVec 32 => x >>> 8) h
        simp only [word, BitVec.ushiftRight_xor_distrib, low_shiftRight, BitVec.zero_xor] at hshift
        rwa [word_shift (by omega), word_shift (by omega)] at hshift
      rw [hb, ih hlen (by omega) hw]

lemma ofBytes_eq_shift {bytes : List UInt8} (h : bytes.length ≤ 4) (c : BitVec 32) :
    ofBytes table c bytes = (shift table)^[bytes.length] (c ^^^ word bytes) := by
  induction bytes generalizing c with
  | nil => simp [ofBytes, word]
  | cons b bytes ih =>
    rw [List.length_cons] at h
    have hrest : ofBytes table c (b :: bytes) = ofBytes table (step table c b) bytes := rfl
    rw [hrest, ih (by omega), step_eq_shift, shift_xor _ _ (word_shift (by omega)),
      List.length_cons, Function.iterate_succ_apply, word, BitVec.xor_assoc]

/-! ### Telling messages apart -/

/-- The words of the table have distinct first bytes. -/
def Distinct (table : ℕ → BitVec 32) : Prop :=
  ∀ i < 256, ∀ j < 256, table i >>> 24 = table j >>> 24 → i = j

lemma shift_inj (ht : Distinct table) : Function.Injective (shift table) := by
  intro x y h
  have hmod : ∀ x : BitVec 32, (x &&& 0xff#32).toNat = x.toNat % 256 := by
    intro x
    rw [BitVec.toNat_and]
    exact Nat.and_two_pow_sub_one_eq_mod x.toNat 8
  have hlt : ∀ x : BitVec 32, (x &&& 0xff#32).toNat < 256 := by
    intro x
    rw [hmod]
    exact Nat.mod_lt _ (by omega)
  have htop : ∀ x : BitVec 32, shift table x >>> 24 = table (x &&& 0xff#32).toNat >>> 24 := by
    intro x
    have hzero : (x >>> 8) >>> 24 = 0#32 := by
      rw [← BitVec.shiftRight_add]
      exact BitVec.ushiftRight_eq_zero (by omega)
    rw [shift, BitVec.ushiftRight_xor_distrib, hzero, BitVec.xor_zero]
  have hindex : (x &&& 0xff#32).toNat = (y &&& 0xff#32).toNat := by
    refine ht _ (hlt x) _ (hlt y) ?_
    rw [← htop, ← htop, h]
  have hhigh : x >>> 8 = y >>> 8 := by
    simp only [shift, hindex] at h
    exact (BitVec.xor_right_inj _).mp h
  have hlow : x &&& 0xff#32 = y &&& 0xff#32 := BitVec.eq_of_toNat_eq hindex
  have hnat := congrArg BitVec.toNat hhigh
  rw [BitVec.toNat_ushiftRight, BitVec.toNat_ushiftRight, Nat.shiftRight_eq_div_pow,
    Nat.shiftRight_eq_div_pow] at hnat
  rw [hmod, hmod] at hindex
  apply BitVec.eq_of_toNat_eq
  omega

lemma step_inj (ht : Distinct table) (b : UInt8) : Function.Injective fun c => step table c b := by
  intro x y h
  simp only [step_eq_shift] at h
  exact (BitVec.xor_left_inj _).mp (shift_inj ht h)

lemma ofBytes_inj (ht : Distinct table) (bytes : List UInt8) :
    Function.Injective fun c => ofBytes table c bytes := by
  induction bytes with
  | nil => exact fun _ _ h => h
  | cons b bytes ih => exact fun x y h => step_inj ht b (ih h)

/-- **Four bytes in a row** that differ make a different checksum. -/
theorem ofBytes_middle (ht : Distinct table) (c : BitVec 32) (before after : List UInt8)
    {xs ys : List UInt8} (hlen : xs.length = ys.length) (h4 : xs.length ≤ 4) :
    ofBytes table c (before ++ xs ++ after) = ofBytes table c (before ++ ys ++ after) ↔
      xs = ys := by
  refine ⟨fun h => ?_, fun h => by rw [h]⟩
  simp only [ofBytes, List.foldl_append] at h
  have hmid := ofBytes_inj ht after h
  have hx : ofBytes table (before.foldl (step table) c) xs = _ := ofBytes_eq_shift h4 _
  have hy : ofBytes table (before.foldl (step table) c) ys = _ := ofBytes_eq_shift (hlen ▸ h4) _
  simp only [ofBytes] at hx hy
  rw [hx, hy, hlen] at hmid
  exact word_inj hlen h4 ((BitVec.xor_right_inj _).mp ((shift_inj ht).iterate _ hmid))

end KernelModel.Crc
