import KernelModel.KfsWritten

/-!
When formatting gives a consistent volume.

A formatted volume is sound when its parts lie apart from each other on the partition, when
both bitmaps say of every index whether it exists and agree between their levels, and when
the allocators of the mounted volume only ever return indices that exist. This depends on
nothing but the number of blocks on the partition.
-/

namespace KernelModel.Kfs

open HierBitmap

/-! ### Sound volumes -/

/-- The inodes of a volume of `n` blocks. -/
def inodesOf (n : ℕ) : ℕ := min (32 * (n / 64)) 0xffffffff

/-- The blocks of a bitmap for `m` indices. -/
def bitmapBlocksOf (m : ℕ) : ℕ := ∑ k ∈ Finset.range 5, (levelCount m (k + 1) + 511) / 512

/-- The data blocks of a volume of `n` blocks: what the root block, the inode table and the
bitmaps leave. The bitmap of the data blocks has room for itself and the other bitmap. -/
def dataBlocksOf (n : ℕ) : ℕ :=
  n - (1 + n / 64) - bitmapBlocksOf (inodesOf n) - bitmapBlocksOf (n - (1 + n / 64))

section

variable (c : Config)

/-- The words of a bitmap on the drive; there is nothing past the end of a level. -/
def bitmapWord (d : Disk) (b : BitmapData) : Levels := fun k j =>
  if k < 5 ∧ j / 512 < levelBlocks (b.lengths k) then c.word d (b.offsets k + j / 512) (j % 512)
  else 0

/-- The blocks of level `k` of a bitmap: the first one and how many there are. -/
def levelRegion (b : BitmapData) (k : ℕ) : ℕ × ℕ := (b.offsets k, levelBlocks (b.lengths k))

/-- The parts of a volume: the root block, the inode table, the data blocks and the levels of
the two bitmaps. -/
def regions : List (ℕ × ℕ) :=
  [(0, 1), (firstInodeBlock, inodeBlockCount c), (firstDataBlock c, dataBlockCount c)] ++
    ((List.range 5).map (levelRegion (dataBlockBitmap c)) ++
      (List.range 5).map (levelRegion (inodeBitmap c)))

/-- No block belongs to both parts. -/
def Apart (r s : ℕ × ℕ) : Prop :=
  ∀ b, ¬ ((r.1 ≤ b ∧ b < r.1 + r.2) ∧ s.1 ≤ b ∧ b < s.1 + s.2)

/-- How many indices an allocator has. -/
def countOf : Allocator → ℕ
  | .inode => inodeCount c
  | .dataBlock => dataBlockCount c

/-- A bitmap on the drive says which indices below `count` exist, and its levels agree. -/
structure BitmapSound (d : Disk) (b : BitmapData) (count : ℕ) : Prop where
  bits : ∀ i, bit (bitmapWord c d b) 0 i ↔ i < count
  levels : ∀ k < 4, ∀ i, bit (bitmapWord c d b) (k + 1) i ↔ bitmapWord c d b k i ≠ 0

/-- The volume on the drive `d` is consistent. -/
structure Sound (d : Disk) : Prop where
  inside : ∀ r ∈ regions c, c.startLba + (r.1 + r.2) * c.driveBlocksPerBlock ≤ c.endLba
  apart : (regions c).Pairwise Apart
  inodes : BitmapSound c d (inodeBitmap c) (inodeCount c)
  dataBlocks : BitmapSound c d (dataBlockBitmap c) (dataBlockCount c)
  allocations : ∀ fs, kfs2FilesystemInit c d = some fs →
    ∀ ws, ∀ p ∈ allocAll c fs d ws, p.2 < countOf c p.1

end

/-! ### The layout from 64 blocks on -/

section

variable {c : Config} (h64 : 64 ≤ c.blockCount)

lemma inodeCount_eq (c : Config) : inodeCount c = inodesOf c.blockCount := by
  rw [inodeCount, inodesOf, inodeBlockCount, kfs2BlocksPerInodeBlock, kfs2MaxInodes,
    nodesPerBlock, kfs2BlockSize]
  split <;> omega

/-- A bound on the blocks of a level of either bitmap. -/
def levelBound (c : Config) : ℕ := ((c.blockCount + 63) / 64 + 511) / 512

lemma levelBlocks_le {m : ℕ} (hm : m ≤ c.blockCount) (k : ℕ) :
    levelBlocks (computeBitmapLengths m k) = (levelCount m (k + 1) + 511) / 512 ∧
      levelBlocks (computeBitmapLengths m k) ≤ levelBound c := by
  have hlt := Config.blockCount_lt c
  have hle := levelCount_succ_le m k
  rw [computeBitmapLengths_eq (by omega), levelBlocks_eq (by omega), levelBound]
  omega

lemma inodeCount_le (c : Config) : inodeCount c ≤ c.blockCount := by
  rw [inodeCount_eq, inodesOf]
  omega

include h64

lemma levelBound_room : 10 * levelBound c + (1 + c.blockCount / 64) < c.blockCount := by
  rw [levelBound]
  omega

lemma sub64_firstDataBlock :
    sub64 c.blockCount (firstDataBlock c) = c.blockCount - (1 + c.blockCount / 64) := by
  have := Config.blockCount_lt c
  rw [sub64, firstDataBlock, firstInodeBlock, inodeBlockCount, kfs2BlocksPerInodeBlock]
  omega

lemma inodeBitmap_stacked : Stacked (inodeBitmap c) c.blockCount ∧
    c.blockCount ≤ (inodeBitmap c).offsets 4 + 5 * levelBound c ∧
    (inodeBitmap c).offsets 4 ≤ c.blockCount := by
  have hlt := Config.blockCount_lt c
  have hroom := levelBound_room h64
  obtain ⟨hs, hlow⟩ := computeBitmapOffsets_stacked c.blockCount
    (fun k _ => (levelBlocks_le (inodeCount_le c) k).2) (by omega) (by omega)
  exact ⟨hs, hlow 4 (by norm_num)⟩

lemma dataBlockBitmap_stacked : Stacked (dataBlockBitmap c) ((inodeBitmap c).offsets 4) ∧
    (inodeBitmap c).offsets 4 ≤ firstBitmapBlock c + 5 * levelBound c ∧
    firstBitmapBlock c ≤ (inodeBitmap c).offsets 4 := by
  have hlt := Config.blockCount_lt c
  have hroom := levelBound_room h64
  obtain ⟨-, hlow, hle⟩ := inodeBitmap_stacked h64
  have hm : sub64 c.blockCount (firstDataBlock c) ≤ c.blockCount := by
    rw [sub64_firstDataBlock h64]
    omega
  obtain ⟨hs, hlow'⟩ := computeBitmapOffsets_stacked ((inodeBitmap c).offsets 4)
    (fun k _ => (levelBlocks_le hm k).2) (by omega) (by omega)
  exact ⟨hs, hlow' 4 (by norm_num)⟩

lemma firstDataBlock_add : firstDataBlock c + dataBlockCount c = firstBitmapBlock c ∧
    0 < dataBlockCount c := by
  have hlt := Config.blockCount_lt c
  have hroom := levelBound_room h64
  obtain ⟨-, hlow, hle⟩ := inodeBitmap_stacked h64
  obtain ⟨-, hlow', hle'⟩ := dataBlockBitmap_stacked h64
  rw [dataBlockCount, sub64, firstDataBlock, firstInodeBlock, inodeBlockCount,
    kfs2BlocksPerInodeBlock]
  omega

omit h64 in
lemma Stacked.offset_add_sum {b : BitmapData} {top : ℕ} (h : Stacked b top) :
    b.offsets 4 + ∑ k ∈ Finset.range 5, levelBlocks (b.lengths k) = top := by
  have h0 := h.first
  have h1 := h.next 0 (by norm_num)
  have h2 := h.next 1 (by norm_num)
  have h3 := h.next 2 (by norm_num)
  have h4 := h.next 3 (by norm_num)
  simp only [zero_add, Nat.reduceAdd] at h1 h2 h3 h4
  simp only [Finset.sum_range_succ, Finset.sum_range_zero]
  omega

omit h64 in
lemma sum_levelBlocks {m : ℕ} (hm : m ≤ c.blockCount) :
    ∑ k ∈ Finset.range 5, levelBlocks (computeBitmapLengths m k) = bitmapBlocksOf m :=
  Finset.sum_congr rfl fun k _ => (levelBlocks_le hm k).1

lemma dataBlockCount_eq : dataBlockCount c = dataBlocksOf c.blockCount := by
  have hi := (inodeBitmap_stacked h64).1.offset_add_sum
  have hd := (dataBlockBitmap_stacked h64).1.offset_add_sum
  have hadd := (firstDataBlock_add h64).1
  have hfirst : firstDataBlock c = 1 + c.blockCount / 64 := rfl
  rw [show (inodeBitmap c).lengths = computeBitmapLengths (inodeCount c) from rfl,
    sum_levelBlocks (inodeCount_le c), inodeCount_eq] at hi
  rw [show (dataBlockBitmap c).lengths
      = computeBitmapLengths (sub64 c.blockCount (firstDataBlock c)) from rfl,
    sub64_firstDataBlock h64, sum_levelBlocks (c := c) (by omega)] at hd
  rw [show (dataBlockBitmap c).offsets 4 = firstBitmapBlock c from rfl] at hd
  rw [dataBlocksOf]
  omega

lemma inodeCount_pos : 0 < inodeCount c := by
  rw [inodeCount_eq, inodesOf]
  omega

/-! ### The two areas -/

lemma levelBound_lt : levelBound c < 2 ^ 48 := by
  have := Config.blockCount_lt c
  rw [levelBound]
  omega

lemma sub64_le : sub64 c.blockCount (firstDataBlock c) ≤ c.blockCount := by
  rw [sub64_firstDataBlock h64]
  omega

def inodeArea : Area c :=
  (inodeBitmap_stacked h64).1.area le_rfl fun k _ =>
    lt_of_le_of_lt (levelBlocks_le (inodeCount_le c) k).2 (levelBound_lt h64)

def dataBlockArea : Area c :=
  (dataBlockBitmap_stacked h64).1.area (inodeBitmap_stacked h64).2.2 fun k _ =>
    lt_of_le_of_lt (levelBlocks_le (sub64_le h64) k).2 (levelBound_lt h64)

lemma inodeArea_le {b : ℕ} (hb : (inodeArea h64).Has b) : (inodeBitmap c).offsets 4 ≤ b := by
  obtain ⟨k, hk, hle, -⟩ := hb
  exact ((inodeBitmap_stacked h64).1.offset_le (by omega) (by norm_num)).trans hle

lemma dataBlockArea_le {b : ℕ} (hb : (dataBlockArea h64).Has b) :
    firstBitmapBlock c ≤ b ∧ b < (inodeBitmap c).offsets 4 := by
  obtain ⟨k, hk, hle, hlt⟩ := hb
  refine ⟨((dataBlockBitmap_stacked h64).1.offset_le (j := 4) (by omega) (by norm_num)).trans hle,
    ?_⟩
  exact lt_of_lt_of_le hlt ((dataBlockBitmap_stacked h64).1.end_le_top hk)

lemma inodeArea_disjoint : (inodeArea h64).Disjoint (dataBlockArea h64) := by
  intro b hi hd
  have := inodeArea_le h64 hi
  have := (dataBlockArea_le h64 hd).2
  omega

lemma dataBlockArea_disjoint : (dataBlockArea h64).Disjoint (inodeArea h64) :=
  fun b hd hi => inodeArea_disjoint h64 b hi hd

lemma not_has_zero : ¬ (inodeArea h64).Has 0 ∧ ¬ (dataBlockArea h64).Has 0 := by
  have hadd := (firstDataBlock_add h64).1
  have hle := (dataBlockBitmap_stacked h64).2.2
  have hfirst : firstDataBlock c = 1 + c.blockCount / 64 := rfl
  constructor
  · intro h
    have := inodeArea_le h64 h
    omega
  · intro h
    have := (dataBlockArea_le h64 h).1
    omega

omit h64 in
lemma cover {m n : ℕ} (hmn : m ≤ n) (hn : n ≤ c.blockCount) (k : ℕ) :
    levelCount m (k + 1) ≤ 512 * levelBlocks (computeBitmapLengths n k) := by
  have := levelCount_mono hmn (k + 1)
  rw [(levelBlocks_le hn k).1]
  omega

lemma dataBlockCount_le : dataBlockCount c ≤ sub64 c.blockCount (firstDataBlock c) := by
  have hadd := (firstDataBlock_add h64).1
  have hle := (dataBlockBitmap_stacked h64).2.2
  have hle' := (inodeBitmap_stacked h64).2.2
  have hfirst : firstDataBlock c = 1 + c.blockCount / 64 := rfl
  rw [sub64_firstDataBlock h64]
  omega

end

/-! ### The formatted drive -/

section

variable {c : Config} (hbs : c.blockSize ≤ 4096) (h64 : 64 ≤ c.blockCount)

include hbs

lemma word_clearInodes (d : Disk) {n : ℕ} (hn : n < c.blockCount) {r : ℕ} (hr : r < 512) :
    c.word (clearInodes c d n) 0 r = c.word d 0 r := by
  induction n with
  | zero => rfl
  | succ n ih =>
    have hlt := Config.mul_driveBlocksPerBlock_lt hbs (b := firstInodeBlock + n)
      (by rw [firstInodeBlock]; omega)
    rw [clearInodes,
      Nat.mod_eq_of_lt (by omega : (firstInodeBlock + n) * c.driveBlocksPerBlock < _),
      Nat.mod_eq_of_lt hlt, Config.word_writeCallback hbs _ _ hr,
      if_neg (by rw [firstInodeBlock]; omega), ih (by omega)]

omit hbs in
lemma word_rootBlock (d : Disk) (buffer : Buffer) {r : ℕ} (hr : r < 27) :
    c.word (c.writeCallback d c.startLba buffer 1) 0 r = buffer r := by
  have hwpl : 27 ≤ c.wordsPerLba := by
    have := c.rootBlock_le
    rw [Config.wordsPerLba]
    omega
  rw [Config.word, Config.readCallback, zero_mul, add_zero, Nat.div_eq_of_lt (by omega),
    Nat.mod_eq_of_lt (by omega), Config.writeCallback, if_pos (by omega)]
  simp

include h64

/-- **The formatted drive.** Both bitmaps are as written, and the root block is in place. -/
lemma formatted_spec (d : Disk) :
    (inodeArea h64).view (formatted c d)
        = writtenLevels (inodeArea h64).blocks (inodeCount c) ∧
      (dataBlockArea h64).view (formatted c d)
        = writtenLevels (dataBlockArea h64).blocks (dataBlockCount c) ∧
      ∀ r < 27, c.word (formatted c d) 0 r
        = kfs2InsertCrc (rootBlock c).toBuffer sizeofRootBlock r := by
  have hlt := Config.blockCount_lt c
  have hic := inodeCount_le c
  have hdc := (dataBlockCount_le h64).trans (sub64_le h64)
  have hpad : ∀ m ≤ c.blockCount, ∀ k, paddedLength (computeBitmapLengths m k)
      = 512 * levelBlocks (computeBitmapLengths m k) := by
    intro m hm k
    have hle := levelCount_le m (k + 1)
    rw [computeBitmapLengths_eq (by omega), paddedLength_eq (by omega)]
  simp only [formatted]
  set d₁ := c.writeCallback d c.startLba (kfs2InsertCrc (rootBlock c).toBuffer sizeofRootBlock) 1
    with hd₁
  set d₂ := clearInodes c d₁ (inodeBlockCount c) with hd₂
  obtain ⟨hvi, hsi⟩ := initBitmap_spec hbs (b := inodeBitmap c) (A := inodeArea h64)
    (n := inodeCount c) (by omega) (fun _ _ => rfl) (fun k _ => hpad _ hic k) d₂
  set d₃ := initBitmap c (inodeBitmap c) (inodeCount c) d₂ with hd₃
  obtain ⟨hvd, hsd⟩ := initBitmap_spec hbs (b := dataBlockBitmap c) (A := dataBlockArea h64)
    (n := dataBlockCount c) (by omega) (fun _ _ => rfl)
    (fun k _ => hpad _ (sub64_le h64) k) d₃
  refine ⟨?_, hvd, fun r hr => ?_⟩
  · rw [Area.view_frame (inodeArea_disjoint h64) hsd, hvi]
  · obtain ⟨hni, hnd⟩ := not_has_zero h64
    have hibc : inodeBlockCount c < c.blockCount := by
      rw [inodeBlockCount, kfs2BlocksPerInodeBlock]
      omega
    rw [hsd 0 hnd r (by omega), hsi 0 hni r (by omega), hd₂,
      word_clearInodes hbs d₁ hibc (by omega), hd₁, word_rootBlock d _ hr]

end

end KernelModel.Kfs
