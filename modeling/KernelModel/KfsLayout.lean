import KernelModel.KfsFormat

/-!
The layout of a formatted volume and the words of its bitmaps.

From `64` blocks on, no subtraction wraps around: the two bitmaps end where the partition
ends, and the data blocks fill the space between the inode table and the bitmaps.
-/

namespace KernelModel.Kfs

open HierBitmap

/-! ### Numbers of words and blocks -/

/-- The bits of level `k` of a bitmap for `n` indices. -/
def levelCount (n : ℕ) : ℕ → ℕ
  | 0 => n
  | k + 1 => (levelCount n k + 63) / 64

lemma levelCount_le (n : ℕ) : ∀ k, levelCount n k ≤ n
  | 0 => le_rfl
  | k + 1 => by
    have := levelCount_le n k
    rw [levelCount]
    omega

lemma levelCount_succ_le (n : ℕ) : ∀ k, levelCount n (k + 1) ≤ (n + 63) / 64
  | 0 => le_rfl
  | k + 1 => by
    have := levelCount_succ_le n k
    rw [levelCount]
    omega

lemma levelCount_mono {m n : ℕ} (h : m ≤ n) : ∀ k, levelCount m k ≤ levelCount n k
  | 0 => h
  | k + 1 => Nat.div_le_div_right (Nat.add_le_add_right (levelCount_mono h k) 63)

lemma computeBitmapLengths_eq {n : ℕ} (hn : n < 2 ^ 52) (k : ℕ) :
    computeBitmapLengths n k = levelCount n (k + 1) := by
  induction k with
  | zero =>
    rw [computeBitmapLengths, Nat.shiftRight_eq_div_pow, levelCount, levelCount]
    omega
  | succ k ih =>
    have hle := levelCount_le n (k + 1)
    rw [computeBitmapLengths, ih, Nat.shiftRight_eq_div_pow,
      show levelCount n (k + 1 + 1) = (levelCount n (k + 1) + 63) / 64 from rfl]
    omega

lemma levelBlocks_eq {n : ℕ} (hn : n < 2 ^ 52) : levelBlocks n = (n + 511) / 512 := by
  rw [levelBlocks, kfs2BlockSize]
  omega

lemma paddedLength_eq {n : ℕ} (hn : n < 2 ^ 52) : paddedLength n = 512 * levelBlocks n := by
  have hmask : 2 ^ 61 - blockWords = (2 ^ 52 - 1) * 2 ^ 9 := by decide
  have hand : ∀ x < 2 ^ 61, x &&& (2 ^ 52 - 1) * 2 ^ 9 = x / 2 ^ 9 * 2 ^ 9 := by
    intro x hx
    apply Nat.eq_of_testBit_eq
    intro i
    rw [Nat.testBit_and, Nat.testBit_mul_two_pow, Nat.testBit_mul_two_pow,
      Nat.testBit_two_pow_sub_one, Nat.testBit_div_two_pow]
    by_cases hi : 9 ≤ i
    · rw [Nat.sub_add_cancel hi]
      by_cases hi' : i < 61
      · simp [hi, show i - 9 < 52 by omega]
      · have : x.testBit i = false :=
          Nat.testBit_lt_two_pow (lt_of_lt_of_le hx (Nat.pow_le_pow_right (by omega) (by omega)))
        simp [this]
    · simp [hi]
  rw [paddedLength, hmask, hand _ (by rw [blockWords, kfs2BlockSize]; omega), levelBlocks_eq hn,
    blockWords, kfs2BlockSize]
  omega

/-! ### Words -/

/-- **The words of a level.** The mask sets the bits below the count, and the one at the count
when that is the last of its word. -/
lemma testBit_levelMask {n j t : ℕ} (hj : j < 2 ^ 57) (ht : t < 64) :
    (levelMask n j).testBit t ↔ 64 * j + t < n ∨ 64 * j + t = n ∧ n % 64 = 63 := by
  have hshift : (j <<< 6) % 2 ^ 64 = 64 * j := by
    rw [Nat.shiftLeft_eq]
    omega
  have hadd : (64 * j + 63) % 2 ^ 64 = 64 * j + 63 := by omega
  rw [levelMask, hshift, hadd]
  split
  · have hones : 0xffffffffffffffff = 2 ^ 64 - 1 := by norm_num
    rw [hones, Nat.testBit_two_pow_sub_one]
    simp only [ht, decide_true, true_iff]
    omega
  · rename_i hfull
    split
    · have hsub : sub64 (n + 64) (64 * j) % 64 = n - 64 * j := by
        rw [sub64]
        omega
      rw [hsub, Nat.one_shiftLeft, Nat.testBit_two_pow_sub_one, decide_eq_true_iff]
      omega
    · rw [Nat.zero_testBit]
      simp only [Bool.false_eq_true, false_iff]
      omega

lemma levelMask_lt (n j : ℕ) : levelMask n j < 2 ^ 64 := by
  rw [levelMask]
  split
  · norm_num
  · split
    · rw [Nat.one_shiftLeft]
      have := Nat.pow_lt_pow_right (a := 2) (by omega)
        (Nat.mod_lt (sub64 (n + 64) ((j <<< 6) % 2 ^ 64)) (by norm_num : 0 < 64))
      omega
    · norm_num

lemma levelMask_ne_zero {n j : ℕ} (hj : j < 2 ^ 57) :
    levelMask n j ≠ 0 ↔ 64 * j < n := by
  constructor
  · intro h
    obtain ⟨t, ht⟩ := Nat.exists_testBit_of_ne_zero h
    have ht64 : t < 64 := by
      by_contra hc
      have hpow : levelMask n j < 2 ^ t :=
        lt_of_lt_of_le (levelMask_lt n j) (Nat.pow_le_pow_right (by omega) (by omega))
      simp [Nat.testBit_lt_two_pow hpow] at ht
    rcases (testBit_levelMask hj ht64).mp ht with h | h <;> omega
  · intro h hz
    have := (testBit_levelMask hj (by norm_num : 0 < 64)).mpr (.inl (by omega))
    simp [hz] at this

/-! ### Levels one before the other -/

/-- The levels of a bitmap that ends at block `top`: level `0` comes last. -/
structure Stacked (b : BitmapData) (top : ℕ) : Prop where
  first : b.offsets 0 + levelBlocks (b.lengths 0) = top
  next : ∀ k < 4, b.offsets (k + 1) + levelBlocks (b.lengths (k + 1)) = b.offsets k

lemma computeBitmapOffsets_stacked {lengths : ℕ → ℕ} {m : ℕ} (top : ℕ)
    (hm : ∀ k < 5, levelBlocks (lengths k) ≤ m) (htop : 5 * m ≤ top) (hlt : top < 2 ^ 64) :
    Stacked ⟨lengths, computeBitmapOffsets lengths top⟩ top ∧
      ∀ k < 5, top ≤ computeBitmapOffsets lengths top k + (k + 1) * m ∧
        computeBitmapOffsets lengths top k ≤ top := by
  -- every level leaves at least the room of the levels before it
  have hsub : ∀ x y : ℕ, y ≤ x → x < 2 ^ 64 → sub64 x y = x - y := by
    intro x y hxy hx
    rw [sub64]
    omega
  have hlow : ∀ k < 5, top ≤ computeBitmapOffsets lengths top k + (k + 1) * m ∧
      computeBitmapOffsets lengths top k ≤ top := by
    intro k
    induction k with
    | zero =>
      intro _
      have := hm 0 (by omega)
      rw [computeBitmapOffsets, hsub _ _ (by omega) hlt]
      omega
    | succ k ih =>
      intro hk
      obtain ⟨hge, hle⟩ := ih (by omega)
      have := hm (k + 1) hk
      have hroom : (k + 1) * m + m ≤ 5 * m := by
        rw [← Nat.succ_mul]
        exact Nat.mul_le_mul_right _ (by omega)
      rw [computeBitmapOffsets, hsub _ _ (by omega) (by omega), Nat.add_mul (k + 1)]
      omega
  refine ⟨⟨?_, fun k hk => ?_⟩, hlow⟩
  · have := hm 0 (by omega)
    simp only [computeBitmapOffsets]
    rw [hsub _ _ (by omega) hlt]
    omega
  · obtain ⟨hge, hle⟩ := hlow k (by omega)
    have := hm (k + 1) (by omega)
    have hroom : (k + 1) * m + m ≤ 5 * m := by
      rw [← Nat.succ_mul]
      exact Nat.mul_le_mul_right _ (by omega)
    simp only [computeBitmapOffsets]
    rw [hsub _ _ (by omega) (by omega)]
    omega

section

variable {b : BitmapData} {top : ℕ}

lemma Stacked.offset_le (h : Stacked b top) {k j : ℕ} (hkk : k ≤ j) (hk : j < 5) :
    b.offsets j ≤ b.offsets k := by
  induction j, hkk using Nat.le_induction with
  | base => exact le_rfl
  | succ j hj ih =>
    have := h.next j (by omega)
    have := ih (by omega)
    omega

lemma Stacked.end_le (h : Stacked b top) {k k' : ℕ} (hkk : k < k') (hk : k' < 5) :
    b.offsets k' + levelBlocks (b.lengths k') ≤ b.offsets k := by
  obtain ⟨j, rfl⟩ : ∃ j, k' = j + 1 := ⟨k' - 1, by omega⟩
  rw [h.next j (by omega)]
  exact h.offset_le (by omega) (by omega)

lemma Stacked.end_le_top (h : Stacked b top) {k : ℕ} (hk : k < 5) :
    b.offsets k + levelBlocks (b.lengths k) ≤ top := by
  rcases Nat.eq_zero_or_pos k with rfl | hpos
  · exact h.first.le
  · have := h.end_le hpos hk
    have := h.first
    omega

/-- The area of a bitmap whose levels are stacked below a block of the partition. -/
def Stacked.area {c : Config} (h : Stacked b top) (htop : top ≤ c.blockCount)
    (hsmall : ∀ k < 5, levelBlocks (b.lengths k) < 2 ^ 48) : Area c where
  offset := b.offsets
  blocks := fun k => levelBlocks (b.lengths k)
  small := hsmall
  inside := fun _ hk => (h.end_le_top hk).trans htop
  apart := by
    intro k hk k' hk' hne
    rcases Nat.lt_or_gt_of_ne hne with hlt | hlt
    · exact .inr (h.end_le hlt hk')
    · exact .inl (h.end_le hlt hk)

end

end KernelModel.Kfs
