import KernelModel.KfsBitmapSpec
import KernelModel.KfsLayout

/-!
The bitmaps as formatting writes them.

Level by level and block by block, `_init_bitmap` leaves the mask of a word in the word's
place and nothing else changed. The levels so written agree with each other exactly when no
level's count of bits is `63` modulo `64`.
-/

namespace KernelModel.Kfs

open HierBitmap

variable {c : Config}

lemma initLba_eq (hbs : c.blockSize ≤ 4096) {b : ℕ} (hb : b < c.blockCount) :
    initLba c b = c.startLba + b * c.driveBlocksPerBlock := by
  have hpos : 0 < c.blockSize := lt_of_lt_of_le (by norm_num) c.rootBlock_le
  have hcount := Config.blockCount_lt c
  have hdiv : b * kfs2BlockSize % 2 ^ 64 / c.blockSize = b * c.driveBlocksPerBlock := by
    rw [Nat.mod_eq_of_lt (by rw [kfs2BlockSize]; omega), kfs2BlockSize,
      ← Config.blockSize_mul hbs, mul_left_comm, Nat.mul_div_cancel_left _ hpos]
  rw [initLba, hdiv, Nat.mod_eq_of_lt (Config.mul_driveBlocksPerBlock_lt hbs hb)]

/-- The inner loop after `n` rounds: the words of the block in progress are in the buffer and
the full blocks before it on the drive. -/
lemma initBitmapLevel_spec (hbs : c.blockSize ≤ 4096) {offset m : ℕ} (count : ℕ) (s : Buffer × Disk)
    (hin : offset + m ≤ c.blockCount) : ∀ n ≤ 512 * m,
      (∀ r < n % 512, (initBitmapLevel c offset count s n).1 r
        = levelMask count (512 * (n / 512) + r)) ∧
      ∀ b, ∀ r < 512, c.word (initBitmapLevel c offset count s n).2 b r =
        if offset ≤ b ∧ b < offset + n / 512 then levelMask count (512 * (b - offset) + r)
        else c.word s.2 b r := by
  intro n
  induction n with
  | zero =>
    intro _
    refine ⟨fun r hr => absurd hr (by omega), fun b r _ => ?_⟩
    rw [if_neg (by omega)]
    rfl
  | succ n ih =>
    intro hn
    obtain ⟨hbuf, hword⟩ := ih (by omega)
    have hcount := Config.blockCount_lt c
    have hslot : slot n = n % 512 := slot_eq n
    -- the buffer after its next word
    have hnew : ∀ r < n % 512 + 1,
        Function.update (initBitmapLevel c offset count s n).1 (slot n) (levelMask count n) r
          = levelMask count (512 * (n / 512) + r) := by
      intro r hr
      rcases Nat.lt_succ_iff_lt_or_eq.mp hr with hr | rfl
      · rw [Function.update_of_ne (by omega), hbuf r hr]
      · rw [hslot, Function.update_self, Nat.div_add_mod]
    rw [initBitmapLevel, initBitmapWord]
    by_cases hlast : slot n = blockWords - 1
    · have hmod : n % 512 = 511 := by rw [← hslot, hlast]; rfl
      have hlba : (offset + n * 8 / kfs2BlockSize) % 2 ^ 64 = offset + n / 512 := by
        rw [kfs2BlockSize]
        omega
      simp only [if_pos hlast, hlba]
      refine ⟨fun r hr => absurd hr (by omega), fun b r hr => ?_⟩
      rw [initLba_eq hbs (by omega),
        show kfs2BlockSize / c.blockSize = c.driveBlocksPerBlock from rfl,
        Config.word_writeCallback hbs _ _ hr]
      by_cases hb : b = offset + n / 512
      · subst hb
        rw [if_pos rfl, if_pos (by omega), hnew r (by omega), Nat.add_sub_cancel_left]
      · rw [if_neg hb, hword b r hr]
        by_cases hb' : offset ≤ b ∧ b < offset + n / 512
        · rw [if_pos hb', if_pos (by omega)]
        · rw [if_neg hb', if_neg (by omega)]
    · have hmod : n % 512 ≠ 511 := by rw [← hslot]; exact hlast
      simp only [if_neg hlast]
      refine ⟨fun r hr => ?_, fun b r hr => ?_⟩
      · rw [hnew r (by omega), show (n + 1) / 512 = n / 512 by omega]
      · rw [hword b r hr, show (n + 1) / 512 = n / 512 by omega]

/-- The levels that are written for `count` indices into `blocks k` blocks each. -/
def writtenLevels (blocks : ℕ → ℕ) (count : ℕ) : Levels := fun k j =>
  if k < 5 ∧ j / 512 < blocks k then levelMask (levelCount count k) j else 0

/-- **What `_init_bitmap` writes.** -/
theorem initBitmap_spec (hbs : c.blockSize ≤ 4096) {b : BitmapData} {A : Area c} {n : ℕ}
    (hcount : n < 2 ^ 52) (hoff : ∀ k < 5, b.offsets k = A.offset k)
    (hblocks : ∀ k < 5, paddedLength (b.lengths k) = 512 * A.blocks k) (d : Disk) :
    A.view (initBitmap c b n d) = writtenLevels A.blocks n ∧
      SameOutside A d (initBitmap c b n d) := by
  have hloop : ∀ i ≤ 5, (initBitmapLevels c b n d i).1 = levelCount n i ∧
      (∀ k < i, ∀ j, j / 512 < A.blocks k →
        c.word (initBitmapLevels c b n d i).2.2 (A.offset k + j / 512) (j % 512)
          = levelMask (levelCount n k) j) ∧
      SameOutside A d (initBitmapLevels c b n d i).2.2 := by
    intro i
    induction i with
    | zero => exact fun _ => ⟨rfl, fun k hk => absurd hk (by omega), SameOutside.refl A d⟩
    | succ i ih =>
      intro hi
      obtain ⟨hc, hw, hs⟩ := ih (by omega)
      have hle := levelCount_le n i
      obtain ⟨-, hlevel⟩ := initBitmapLevel_spec hbs (levelCount n i)
        (initBitmapLevels c b n d i).2 (A.inside i (by omega)) _ le_rfl
      rw [Nat.mul_div_cancel_left _ (by norm_num)] at hlevel
      have hstep : initBitmapLevels c b n d (i + 1) = (levelCount n (i + 1),
          initBitmapLevel c (A.offset i) (levelCount n i)
            (initBitmapLevels c b n d i).2 (512 * A.blocks i)) := by
        rw [initBitmapLevels, hc, hoff i (by omega), hblocks i (by omega), levelCount,
          Nat.shiftRight_eq_div_pow, Nat.mod_eq_of_lt (by omega)]
      rw [hstep]
      refine ⟨rfl, fun k hk j hj => ?_, fun b' hb' r hr => ?_⟩
      · have hmod : j % 512 < 512 := Nat.mod_lt _ (by norm_num)
        rw [hlevel _ _ hmod]
        rcases Nat.lt_succ_iff_lt_or_eq.mp hk with hk | rfl
        · -- an earlier level lies elsewhere
          have hap := A.apart k (by omega) i (by omega) (by omega)
          rw [if_neg (by omega), hw k hk j hj]
        · rw [if_pos (by omega), Nat.add_sub_cancel_left, Nat.div_add_mod]
      · rw [hlevel b' r hr, if_neg (fun hc' => hb' ⟨i, by omega, hc'⟩), hs b' hb' r hr]
  obtain ⟨-, hw, hs⟩ := hloop 5 le_rfl
  refine ⟨?_, hs⟩
  funext k j
  rw [Area.view, writtenLevels]
  split
  · rename_i hkj
    exact hw k hkj.1 j hkj.2
  · rfl

/-! ### When the levels agree -/

/-- No level of the bitmap has `63` bits more than a multiple of `64`. -/
def Proper (n : ℕ) : Prop := ∀ k < 5, levelCount n k % 64 ≠ 63

instance (n : ℕ) : Decidable (Proper n) := inferInstanceAs (Decidable (∀ k < 5, _))

section

variable {blocks : ℕ → ℕ} {count : ℕ} (hsmall : ∀ k < 5, blocks k < 2 ^ 48)
  (hcover : ∀ k < 5, levelCount count (k + 1) ≤ 512 * blocks k)

include hsmall hcover

lemma bit_writtenLevels {k : ℕ} (hk : k < 5) (i : ℕ) :
    bit (writtenLevels blocks count) k i ↔
      i < levelCount count k ∨ i = levelCount count k ∧ levelCount count k % 64 = 63 := by
  have hs := hsmall k hk
  have hc := hcover k hk
  rw [levelCount] at hc
  rw [bit, writtenLevels]
  by_cases hj : i / 64 / 512 < blocks k
  · rw [if_pos ⟨hk, hj⟩, testBit_levelMask (by omega) (Nat.mod_lt _ (by norm_num)),
      Nat.div_add_mod]
  · rw [if_neg (fun h => hj h.2), Nat.zero_testBit]
    simp only [Bool.false_eq_true, false_iff]
    omega

lemma writtenLevels_ne_zero {k : ℕ} (hk : k < 5) (j : ℕ) :
    writtenLevels blocks count k j ≠ 0 ↔ j < levelCount count (k + 1) := by
  have hs := hsmall k hk
  have hc := hcover k hk
  rw [levelCount] at hc ⊢
  rw [writtenLevels]
  by_cases hj : j / 512 < blocks k
  · rw [if_pos ⟨hk, hj⟩, levelMask_ne_zero (by omega)]
    omega
  · rw [if_neg (fun h => hj h.2)]
    simp only [ne_eq, not_true_eq_false, false_iff]
    omega

omit hsmall hcover in
lemma writtenLevels_lt (k j : ℕ) : writtenLevels blocks count k j < 2 ^ 64 := by
  rw [writtenLevels]
  split
  · exact levelMask_lt _ _
  · norm_num

lemma writtenLevels_zero_iff :
    (∀ i, bit (writtenLevels blocks count) 0 i ↔ i < count) ↔ count % 64 ≠ 63 := by
  constructor
  · intro h hc
    have := (h count).mp ((bit_writtenLevels hsmall hcover (by omega) count).mpr (.inr ⟨rfl, hc⟩))
    omega
  · intro h i
    rw [bit_writtenLevels hsmall hcover (by omega), levelCount]
    omega

lemma writtenLevels_succ_iff {k : ℕ} (hk : k < 4) :
    (∀ i, bit (writtenLevels blocks count) (k + 1) i ↔ writtenLevels blocks count k i ≠ 0) ↔
      levelCount count (k + 1) % 64 ≠ 63 := by
  constructor
  · intro h hc
    have hset := (bit_writtenLevels hsmall hcover (by omega) _).mpr (.inr ⟨rfl, hc⟩)
    have := (writtenLevels_ne_zero hsmall hcover (by omega) _).mp ((h _).mp hset)
    omega
  · intro h i
    rw [bit_writtenLevels hsmall hcover (by omega), writtenLevels_ne_zero hsmall hcover (by omega)]
    omega

/-- The written bitmap is right exactly when its count of indices is proper. -/
lemma writtenLevels_iff :
    ((∀ i, bit (writtenLevels blocks count) 0 i ↔ i < count) ∧ ∀ k < 4, ∀ i,
      bit (writtenLevels blocks count) (k + 1) i ↔ writtenLevels blocks count k i ≠ 0) ↔
      Proper count := by
  rw [writtenLevels_zero_iff hsmall hcover]
  constructor
  · rintro ⟨h0, hs⟩ k hk
    cases k with
    | zero => exact h0
    | succ k => exact (writtenLevels_succ_iff hsmall hcover (by omega)).mp (hs k (by omega))
  · intro h
    exact ⟨h 0 (by omega),
      fun k hk => (writtenLevels_succ_iff hsmall hcover hk).mpr (h (k + 1) (by omega))⟩

lemma writtenLevels_consistent (h : Proper count) : Consistent 5 (writtenLevels blocks count) where
  word_lt := fun k _ j => writtenLevels_lt k j
  bit_iff := fun k hk => ((writtenLevels_iff hsmall hcover).mpr h).2 k (by omega)

/-- Index `0` is reached through lowest bits when there is an index at all. -/
lemma writtenLevels_isLowest (hpos : 0 < count) {k : ℕ} (hk : k < 5) :
    IsLowest (writtenLevels blocks count k 0) 0 := by
  have hcount : ∀ k, 0 < levelCount count k := by
    intro k
    induction k with
    | zero => exact hpos
    | succ k ih =>
      rw [levelCount]
      omega
  refine ⟨?_, fun i hi => absurd hi (by omega)⟩
  have := (bit_writtenLevels hsmall hcover hk 0).mpr (.inl (hcount k))
  simpa [bit] using this

end

end KernelModel.Kfs
