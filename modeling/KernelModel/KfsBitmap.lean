import KernelModel.HierBitmap
import KernelModel.KfsDrive

/-!
The allocators of a KFS2 volume.

An allocator is a bitmap of five levels on the volume; a set bit of level `0` is a free
index. Of every level one block is kept in memory. It is written back as soon as one of its
words changes, and replaced when a word of another block is needed.
-/

namespace KernelModel.Kfs

open HierBitmap

def kfs2BitmapLevelCount : ℕ := 5

/-- `kfs2_bitmap_cache_entry_t`: where a level begins, and the block of it in memory. -/
structure CacheEntry where
  offset : ℕ
  blockIndex : ℕ
  data : Buffer

/-- `kfs2_bitmap_t` -/
structure Bitmap where
  highestLevelLength : ℕ
  highestLevelOffset : ℕ
  cache : ℕ → CacheEntry

def Bitmap.setCache (a : Bitmap) (level : ℕ) (e : CacheEntry) : Bitmap :=
  { a with cache := Function.update a.cache level e }

variable (c : Config)

def storeData (a : Bitmap) (level : ℕ) (d : Disk) : Disk :=
  c.writeCallback d (c.lba (a.cache level).blockIndex) (a.cache level).data
    (1 <<< c.blockSizeShift)

/-- Brings the block with word `offset` of a level into memory. -/
def fetchData (a : Bitmap) (level offset : ℕ) (d : Disk) : Bitmap :=
  let blockIndex := ((a.cache level).offset + offset * 8 % 2 ^ 64 / kfs2BlockSize) % 2 ^ 64
  if (a.cache level).blockIndex ≠ blockIndex then
    a.setCache level ⟨(a.cache level).offset, blockIndex, c.readCallback d (c.lba blockIndex)⟩
  else a

/-- The place of word `offset` of a level in its block. -/
def slot (offset : ℕ) : ℕ := offset &&& (blockWords - 1)

/-- Moves the offset to the next nonzero word of the highest level; `n` bounds the moves. -/
def findNextHighestLevelOffset (d : Disk) : ℕ → Bitmap → Bitmap
  | 0, a => a
  | n + 1, a =>
    if a.highestLevelOffset < a.highestLevelLength then
      let a' := fetchData c a (kfs2BitmapLevelCount - 1) a.highestLevelOffset d
      if (a'.cache (kfs2BitmapLevelCount - 1)).data (slot a.highestLevelOffset) = 0 then
        findNextHighestLevelOffset d n
          { a' with highestLevelOffset := a'.highestLevelOffset + 1 }
      else a'
    else a

def kfs2BitmapInit (bitmapOffsets : ℕ → ℕ) (highestLevelLength : ℕ) (d : Disk) : Bitmap :=
  findNextHighestLevelOffset c d highestLevelLength
    ⟨highestLevelLength, 0, fun i => ⟨bitmapOffsets i, 0xffffffffffffffff, fun _ => 0⟩⟩

/-- The first loop of `kfs2_bitmap_alloc`, on the levels below `i`: the blocks it brings into
memory, the index it ends at and the places `ptr` of the words it went through. -/
def allocDown (d : Disk) : ℕ → Bitmap → ℕ → (ℕ → ℕ) → Bitmap × ℕ × (ℕ → ℕ)
  | 0, a, out, ptr => (a, out, ptr)
  | i + 1, a, out, ptr =>
    let a' := fetchData c a i out d
    let w := (a'.cache i).data (slot out)
    allocDown d i a' ((out <<< 6) % 2 ^ 64 ||| (ffs w + (2 ^ 64 - 1)) % 2 ^ 64)
      (Function.update ptr i (slot out))

/-- Writes a word of the block in memory. -/
def setData (a : Bitmap) (level r w : ℕ) : Bitmap :=
  a.setCache level ⟨(a.cache level).offset, (a.cache level).blockIndex,
    Function.update (a.cache level).data r w⟩

/-- The second loop of `kfs2_bitmap_alloc`, on `n` levels from `i` on. The flag says that it
ran over all of them. -/
def allocUp (ptr : ℕ → ℕ) : ℕ → ℕ → Bitmap → Disk → Bitmap × Disk × Bool
  | 0, _, a, d => (a, d, true)
  | n + 1, i, a, d =>
    let w := (a.cache i).data (ptr i)
    let w' := w &&& (w + (2 ^ 64 - 1)) % 2 ^ 64
    let a' := setData a i (ptr i) w'
    let d' := storeData c a' i d
    if w' ≠ 0 then (a', d', false) else allocUp ptr n (i + 1) a' d'

/-- `kfs2_bitmap_alloc`: the index, the allocator and the drive. An index of `0` is also what
an exhausted allocator returns. -/
def kfs2BitmapAlloc (a : Bitmap) (d : Disk) : ℕ × Bitmap × Disk :=
  if a.highestLevelOffset = a.highestLevelLength then (0, a, d)
  else
    let (a₁, out, ptr) :=
      allocDown c d kfs2BitmapLevelCount a a.highestLevelOffset (fun _ => 0)
    let (a₂, d₂, emptied) := allocUp c ptr kfs2BitmapLevelCount 0 a₁ d
    if emptied then
      (out, findNextHighestLevelOffset c d₂ a₂.highestLevelLength
        { a₂ with highestLevelOffset := a₂.highestLevelOffset + 1 }, d₂)
    else (out, a₂, d₂)

/-! ### The area of a bitmap -/

/-- Where the levels of a bitmap lie: apart from each other and on the partition. -/
structure Area where
  offset : ℕ → ℕ
  blocks : ℕ → ℕ
  small : ∀ k < 5, blocks k < 2 ^ 48
  inside : ∀ k < 5, offset k + blocks k ≤ c.blockCount
  apart : ∀ k < 5, ∀ k' < 5, k ≠ k' →
    offset k + blocks k ≤ offset k' ∨ offset k' + blocks k' ≤ offset k

variable {c}

/-- Block `b` belongs to the area. -/
def Area.Has (A : Area c) (b : ℕ) : Prop := ∃ k < 5, A.offset k ≤ b ∧ b < A.offset k + A.blocks k

/-- The levels as they are on the drive; there is nothing past the end of a level. -/
def Area.view (A : Area c) (d : Disk) : Levels := fun k j =>
  if k < 5 ∧ j / 512 < A.blocks k then c.word d (A.offset k + j / 512) (j % 512) else 0

/-- The blocks in memory are those on the drive. -/
structure Coherent (A : Area c) (d : Disk) (a : Bitmap) : Prop where
  offset : ∀ k < 5, (a.cache k).offset = A.offset k
  cached : ∀ k < 5, (a.cache k).blockIndex = 0xffffffffffffffff ∨ ∃ q < A.blocks k,
    (a.cache k).blockIndex = A.offset k + q ∧
      ∀ r < 512, (a.cache k).data r = c.word d (A.offset k + q) r

/-- The block with word `j` of level `k` is in memory. -/
def Holds (A : Area c) (a : Bitmap) (k j : ℕ) : Prop :=
  j / 512 < A.blocks k ∧ (a.cache k).blockIndex = A.offset k + j / 512

lemma slot_eq (j : ℕ) : slot j = j % 512 := Nat.and_two_pow_sub_one_eq_mod j 9

lemma Area.div_lt_of_view_ne {A : Area c} {d : Disk} {k j : ℕ} (h : A.view d k j ≠ 0) :
    j / 512 < A.blocks k := by
  by_contra hj
  exact h (if_neg fun hc => hj hc.2)

section

variable {A : Area c} {d : Disk} {a : Bitmap} (hbs : c.blockSize ≤ 4096)

lemma Coherent.data_eq (h : Coherent A d a) {k j : ℕ} (hk : k < 5) (hj : Holds A a k j) :
    (a.cache k).data (slot j) = A.view d k j := by
  have hin := A.inside k hk
  have hcount := Config.blockCount_lt c
  have hlt : j % 512 < 512 := Nat.mod_lt _ (by norm_num)
  have hjq := hj.1
  rw [slot_eq, Area.view, if_pos ⟨hk, hj.1⟩]
  rcases h.cached k hk with hnone | ⟨q, -, hq, hdata⟩
  · have := hj.2
    omega
  · obtain rfl : q = j / 512 := by
      have := hj.2
      omega
    exact hdata _ hlt

lemma fetchData_other {k k' : ℕ} (hk : k' ≠ k) (j : ℕ) :
    (fetchData c a k j d).cache k' = a.cache k' := by
  simp only [fetchData]
  split <;> simp [Bitmap.setCache, hk]

@[simp] lemma fetchData_length (k j : ℕ) :
    (fetchData c a k j d).highestLevelLength = a.highestLevelLength := by
  simp only [fetchData]
  split <;> rfl

@[simp] lemma fetchData_highestLevelOffset (k j : ℕ) :
    (fetchData c a k j d).highestLevelOffset = a.highestLevelOffset := by
  simp only [fetchData]
  split <;> rfl

include hbs in
/-- A fetch keeps the memory and the drive in agreement and leaves the block in memory. -/
lemma fetchData_coherent (h : Coherent A d a) {k j : ℕ} (hk : k < 5)
    (hj : j / 512 < A.blocks k) :
    Coherent A d (fetchData c a k j d) ∧ Holds A (fetchData c a k j d) k j := by
  have hin := A.inside k hk
  have hsmall := A.small k hk
  have hcount := Config.blockCount_lt c
  have hoff := h.offset k hk
  have hindex : ((a.cache k).offset + j * 8 % 2 ^ 64 / kfs2BlockSize) % 2 ^ 64
      = A.offset k + j / 512 := by
    rw [hoff, kfs2BlockSize]
    omega
  have hlba : c.lba (A.offset k + j / 512)
      = c.startLba + (A.offset k + j / 512) * c.driveBlocksPerBlock :=
    Config.lba_eq hbs (by omega)
  by_cases hb : (a.cache k).blockIndex = A.offset k + j / 512
  · have hsame : fetchData c a k j d = a := by
      simp only [fetchData, hindex]
      exact if_neg (by simp [hb])
    rw [hsame]
    exact ⟨h, hj, hb⟩
  · have hnew : (fetchData c a k j d).cache = Function.update a.cache k
        ⟨(a.cache k).offset, A.offset k + j / 512,
          c.readCallback d (c.lba (A.offset k + j / 512))⟩ := by
      simp only [fetchData, hindex]
      rw [if_pos hb, Bitmap.setCache]
    refine ⟨⟨fun k' hk' => ?_, fun k' hk' => ?_⟩, hj, by simp [hnew]⟩
    · rcases eq_or_ne k' k with rfl | hne
      · simp [hnew, hoff]
      · simp [hnew, hne, h.offset k' hk']
    · rcases eq_or_ne k' k with rfl | hne
      · refine .inr ⟨j / 512, hj, by simp [hnew], fun r _ => ?_⟩
        simp [hnew, hlba, Config.word]
      · simpa [hnew, hne] using h.cached k' hk'

end

end KernelModel.Kfs
