import Mathlib.Tactic

/-!
The partition a KFS2 volume lives on.

A drive is a sequence of drive blocks, whose size is a power of two; it is seen as words of
eight bytes. The file system counts in blocks of `4096` bytes, relative to the start of the
partition, and reads and writes whole ones through the callbacks of its configuration. The
callbacks of the model do what they are asked to do: an I/O error is not modelled.
-/

namespace KernelModel.Kfs

def kfs2BlockSize : ℕ := 4096

/-- The words of a block, `KFS2_BLOCK_SIZE/sizeof(u64)`. -/
def blockWords : ℕ := kfs2BlockSize / 8

/-- `kfs2_filesystem_config_t`: a partition of a drive. A drive block holds the root block. -/
structure Config where
  blockSize : ℕ
  startLba : ℕ
  endLba : ℕ
  isPow : ∃ e, blockSize = 2 ^ e
  rootBlock_le : 216 ≤ blockSize
  start_le : startLba ≤ endLba
  end_lt : endLba < 2 ^ 64

lemma isPow_page : ∃ e, 4096 = 2 ^ e := ⟨12, by norm_num⟩

lemma rootBlock_le_page : 216 ≤ 4096 := by norm_num

/-- Word `i` of the drive block at `lba`. -/
abbrev Disk := ℕ → ℕ → ℕ

/-- The words in memory that a transfer fills or takes its data from. -/
abbrev Buffer := ℕ → ℕ

namespace Config

variable (c : Config)

def wordsPerLba : ℕ := c.blockSize / 8

/-- `KFS2_BLOCK_SIZE/config->block_size` -/
def driveBlocksPerBlock : ℕ := kfs2BlockSize / c.blockSize

/-- `63-__builtin_clzll(KFS2_BLOCK_SIZE/out->config.block_size)` -/
def blockSizeShift : ℕ := Nat.log2 (kfs2BlockSize / c.blockSize)

/-- The number of blocks on the partition. -/
def blockCount : ℕ := (c.endLba - c.startLba) * c.blockSize % 2 ^ 64 / kfs2BlockSize

def readCallback (d : Disk) (lba : ℕ) : Buffer :=
  fun r => d (lba + r / c.wordsPerLba) (r % c.wordsPerLba)

def writeCallback (d : Disk) (lba : ℕ) (buffer : Buffer) (count : ℕ) : Disk :=
  fun l i => if lba ≤ l ∧ l < lba + count then buffer ((l - lba) * c.wordsPerLba + i) else d l i

/-- Where the file system finds block `b`. -/
def lba (b : ℕ) : ℕ := (c.startLba + (b <<< c.blockSizeShift) % 2 ^ 64) % 2 ^ 64

/-- Word `r` of block `b`. -/
def word (d : Disk) (b r : ℕ) : ℕ := c.readCallback d (c.startLba + b * c.driveBlocksPerBlock) r

variable {c}

lemma blockSize_mul (h : c.blockSize ≤ 4096) : c.blockSize * c.driveBlocksPerBlock = 4096 := by
  obtain ⟨e, he⟩ := c.isPow
  have hle : e ≤ 12 := by
    rw [he] at h
    exact (Nat.pow_le_pow_iff_right (by omega)).mp (le_trans h (by norm_num : 4096 ≤ 2 ^ 12))
  refine Nat.mul_div_cancel' ?_
  rw [he]
  exact pow_dvd_pow 2 hle

lemma eight_dvd : 8 ∣ c.blockSize := by
  obtain ⟨e, he⟩ := c.isPow
  have hlt : 2 ^ 3 < 2 ^ e := lt_of_lt_of_le (by norm_num) (he ▸ c.rootBlock_le)
  rw [he]
  exact pow_dvd_pow 2 ((Nat.pow_lt_pow_iff_right (by omega)).mp hlt).le

lemma wordsPerLba_pos : 0 < c.wordsPerLba :=
  Nat.div_pos (le_trans (by norm_num) c.rootBlock_le) (by norm_num)

lemma wordsPerLba_mul (h : c.blockSize ≤ 4096) : c.wordsPerLba * c.driveBlocksPerBlock = 512 := by
  obtain ⟨w, hw⟩ := c.eight_dvd
  have hmul := blockSize_mul h
  rw [wordsPerLba, hw, Nat.mul_div_cancel_left _ (by norm_num)]
  rw [hw, mul_assoc] at hmul
  omega

lemma one_shiftLeft (h : c.blockSize ≤ 4096) : 1 <<< c.blockSizeShift = c.driveBlocksPerBlock := by
  obtain ⟨e, he⟩ := c.isPow
  have hmul := blockSize_mul h
  have hd : c.driveBlocksPerBlock ∣ 2 ^ 12 := ⟨c.blockSize, by rw [mul_comm, hmul]; norm_num⟩
  obtain ⟨s, -, hs⟩ := (Nat.dvd_prime_pow Nat.prime_two).mp hd
  have hlog : c.blockSizeShift = s := by
    rw [blockSizeShift, show kfs2BlockSize / c.blockSize = 2 ^ s from hs, Nat.log2_two_pow]
  rw [hlog, hs, Nat.one_shiftLeft]

lemma blockCount_mul_le (c : Config) :
    c.blockCount * 4096 ≤ (c.endLba - c.startLba) * c.blockSize :=
  le_trans (Nat.div_mul_le_self _ _) (Nat.mod_le _ _)

lemma blockCount_lt (c : Config) : c.blockCount < 2 ^ 52 := by
  rw [blockCount, kfs2BlockSize]
  omega

lemma lba_le (h : c.blockSize ≤ 4096) {b : ℕ} (hb : b ≤ c.blockCount) :
    c.startLba + b * c.driveBlocksPerBlock ≤ c.endLba := by
  have hmul := blockSize_mul h
  have hle : b * 4096 ≤ (c.endLba - c.startLba) * c.blockSize :=
    le_trans (Nat.mul_le_mul_right _ hb) (blockCount_mul_le c)
  have hper : b * c.driveBlocksPerBlock * c.blockSize
      ≤ (c.endLba - c.startLba) * c.blockSize := by
    calc b * c.driveBlocksPerBlock * c.blockSize
        = b * (c.blockSize * c.driveBlocksPerBlock) := by ring
      _ ≤ (c.endLba - c.startLba) * c.blockSize := by rw [hmul]; exact hle
  have := Nat.le_of_mul_le_mul_right hper (lt_of_lt_of_le (by norm_num) c.rootBlock_le)
  have := c.start_le
  omega

lemma mul_driveBlocksPerBlock_lt (h : c.blockSize ≤ 4096) {b : ℕ} (hb : b < c.blockCount) :
    c.startLba + b * c.driveBlocksPerBlock < 2 ^ 64 :=
  lt_of_le_of_lt (lba_le h hb.le) c.end_lt

lemma lba_eq (h : c.blockSize ≤ 4096) {b : ℕ} (hb : b < c.blockCount) :
    c.lba b = c.startLba + b * c.driveBlocksPerBlock := by
  have hlt := mul_driveBlocksPerBlock_lt h hb
  have hshift : b <<< c.blockSizeShift = b * c.driveBlocksPerBlock := by
    rw [← one_shiftLeft h, Nat.shiftLeft_eq, Nat.shiftLeft_eq, one_mul]
  rw [lba, hshift, Nat.mod_eq_of_lt (by omega : b * c.driveBlocksPerBlock < 2 ^ 64),
    Nat.mod_eq_of_lt hlt]

/-- **Blocks are independent.** A written block holds what was written, and every other block
what it held before. -/
theorem word_writeCallback (h : c.blockSize ≤ 4096) (d : Disk) (buffer : Buffer) {b b' r : ℕ}
    (hr : r < 512) :
    c.word (c.writeCallback d (c.startLba + b' * c.driveBlocksPerBlock) buffer
      c.driveBlocksPerBlock) b r = if b = b' then buffer r else c.word d b r := by
  have hwpl := wordsPerLba_pos (c := c)
  have hq : r / c.wordsPerLba < c.driveBlocksPerBlock := by
    rw [Nat.div_lt_iff_lt_mul hwpl, mul_comm, wordsPerLba_mul h]
    exact hr
  -- the drive blocks of one block end where those of the next begin
  have hout : ∀ x y : ℕ, x < y → x * c.driveBlocksPerBlock + c.driveBlocksPerBlock
      ≤ y * c.driveBlocksPerBlock := by
    intro x y hxy
    rw [← Nat.succ_mul]
    exact Nat.mul_le_mul_right _ hxy
  have hdm := Nat.div_add_mod' r c.wordsPerLba
  simp only [word, readCallback, writeCallback]
  generalize r / c.wordsPerLba = q at hq hdm ⊢
  rcases lt_trichotomy b b' with hb | rfl | hb
  · have := hout b b' hb
    rw [if_neg (by omega), if_neg (by omega)]
  · rw [if_pos (by omega), if_pos rfl]
    rw [Nat.add_sub_cancel_left, hdm]
  · have := hout b' b hb
    rw [if_neg (by omega), if_neg (by omega)]

end Config

end KernelModel.Kfs
