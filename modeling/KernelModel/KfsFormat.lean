import KernelModel.KfsBitmap
import KernelModel.KfsRoot

/-!
Formatting and mounting a KFS2 volume.

The root block is block `0`; the inode table, the data blocks, the bitmap of the data blocks
and the bitmap of the inodes follow. All sizes are computed from the number of blocks on the
partition, in arithmetic modulo `2 ^ 64`. The levels of a bitmap lie one before the other,
the lowest one last.
-/

namespace KernelModel.Kfs

def kfs2BlocksPerInodeBlock : ℕ := 64
def kfs2MaxInodes : ℕ := 0xffffffff

/-- `KFS2_BLOCK_SIZE/sizeof(kfs2_node_t)` -/
def nodesPerBlock : ℕ := kfs2BlockSize / 128

/-- Subtraction of 64-bit words. -/
def sub64 (x y : ℕ) : ℕ := (x + (2 ^ 64 - y)) % 2 ^ 64

/-! ### The layout -/

/-- `bitmap_data_t` -/
structure BitmapData where
  lengths : ℕ → ℕ
  offsets : ℕ → ℕ

/-- The words of level `i` of a bitmap with `count` bits. -/
def computeBitmapLengths (count : ℕ) : ℕ → ℕ
  | 0 => ((count + 63) % 2 ^ 64) >>> 6
  | i + 1 => ((computeBitmapLengths count i + 63) % 2 ^ 64) >>> 6

/-- The blocks of a level with `length` words. -/
def levelBlocks (length : ℕ) : ℕ :=
  (length * 8 % 2 ^ 64 + kfs2BlockSize - 1) % 2 ^ 64 / kfs2BlockSize

/-- The first block of level `i` of a bitmap that ends at block `offset`. -/
def computeBitmapOffsets (lengths : ℕ → ℕ) (offset : ℕ) : ℕ → ℕ
  | 0 => sub64 offset (levelBlocks (lengths 0))
  | i + 1 => sub64 (computeBitmapOffsets lengths offset i) (levelBlocks (lengths (i + 1)))

section

variable (c : Config)

def inodeBlockCount : ℕ := c.blockCount / kfs2BlocksPerInodeBlock

def inodeCount : ℕ :=
  if nodesPerBlock * inodeBlockCount c > kfs2MaxInodes then kfs2MaxInodes
  else nodesPerBlock * inodeBlockCount c

def firstInodeBlock : ℕ := 1

def firstDataBlock : ℕ := firstInodeBlock + inodeBlockCount c

def inodeBitmap : BitmapData :=
  let lengths := computeBitmapLengths (inodeCount c)
  ⟨lengths, computeBitmapOffsets lengths c.blockCount⟩

def dataBlockBitmap : BitmapData :=
  let lengths := computeBitmapLengths (sub64 c.blockCount (firstDataBlock c))
  ⟨lengths, computeBitmapOffsets lengths
    ((inodeBitmap c).offsets (kfs2BitmapLevelCount - 1))⟩

def firstBitmapBlock : ℕ := (dataBlockBitmap c).offsets (kfs2BitmapLevelCount - 1)

def dataBlockCount : ℕ := sub64 (firstBitmapBlock c) (firstDataBlock c)

/-- The root block that is written; the two lengths are stored as 16-bit words. -/
def rootBlock : RootBlock where
  signature := kfs2RootBlockSignature
  blockCount := c.blockCount
  inodeCount := inodeCount c
  dataBlockCount := dataBlockCount c
  firstInodeBlock := firstInodeBlock
  firstDataBlock := firstDataBlock c
  inodeAllocationBitmapOffsets := (inodeBitmap c).offsets
  dataBlockAllocationBitmapOffsets := (dataBlockBitmap c).offsets
  inodeAllocationBitmapHighestLevelLength :=
    (inodeBitmap c).lengths (kfs2BitmapLevelCount - 1) % 2 ^ 16
  dataBlockAllocationBitmapHighestLevelLength :=
    (dataBlockBitmap c).lengths (kfs2BitmapLevelCount - 1) % 2 ^ 16

end

/-! ### Writing the bitmaps -/

/-- The words written of a level with `length` of them: whole blocks. -/
def paddedLength (length : ℕ) : ℕ := (length + blockWords - 1) % 2 ^ 64 &&& (2 ^ 61 - blockWords)

/-- Word `j` of a level with `count` bits. A shift by more than `63` places is one by the
remainder modulo `64`. -/
def levelMask (count j : ℕ) : ℕ :=
  if ((j <<< 6) % 2 ^ 64 + 63) % 2 ^ 64 ≤ count then 0xffffffffffffffff
  else if (j <<< 6) % 2 ^ 64 ≤ count then
    1 <<< (sub64 (count + 64) ((j <<< 6) % 2 ^ 64) % 64) - 1
  else 0

section

variable (c : Config)

/-- The first drive block of block `b` in the words of `_init_bitmap`. -/
def initLba (b : ℕ) : ℕ := (c.startLba + b * kfs2BlockSize % 2 ^ 64 / c.blockSize) % 2 ^ 64

/-- The body of the inner loop of `_init_bitmap`. -/
def initBitmapWord (offset count j : ℕ) (s : Buffer × Disk) : Buffer × Disk :=
  let buffer := Function.update s.1 (slot j) (levelMask count j)
  if slot j = blockWords - 1 then
    (buffer, c.writeCallback s.2 (initLba c ((offset + j * 8 / kfs2BlockSize) % 2 ^ 64)) buffer
      (kfs2BlockSize / c.blockSize))
  else (buffer, s.2)

/-- The first `n` rounds of the inner loop of `_init_bitmap`. -/
def initBitmapLevel (offset count : ℕ) (s : Buffer × Disk) : ℕ → Buffer × Disk
  | 0 => s
  | j + 1 => initBitmapWord c offset count j (initBitmapLevel offset count s j)

/-- The first `n` rounds of the outer loop of `_init_bitmap`, with the count of the next. -/
def initBitmapLevels (bitmap : BitmapData) (count : ℕ) (d : Disk) : ℕ → ℕ × Buffer × Disk
  | 0 => (count, fun _ => 0, d)
  | i + 1 =>
    let s := initBitmapLevels bitmap count d i
    (((s.1 + 63) % 2 ^ 64) >>> 6,
      initBitmapLevel c (bitmap.offsets i) s.1 s.2 (paddedLength (bitmap.lengths i)))

/-- `_init_bitmap` -/
def initBitmap (bitmap : BitmapData) (count : ℕ) (d : Disk) : Disk :=
  (initBitmapLevels c bitmap count d kfs2BitmapLevelCount).2.2

/-! ### Formatting -/

/-- The loop that clears the inode table, over its first `n` blocks. -/
def clearInodes (d : Disk) : ℕ → Disk
  | 0 => d
  | i + 1 => c.writeCallback (clearInodes d i)
      ((c.startLba + (firstInodeBlock + i) * c.driveBlocksPerBlock % 2 ^ 64) % 2 ^ 64) (fun _ => 0)
      c.driveBlocksPerBlock

/-- The drive after `kfs2_filesystem_format` has written the root block, the inode table and
both bitmaps. -/
def formatted (d : Disk) : Disk :=
  let d₁ := c.writeCallback d c.startLba
    (kfs2InsertCrc (rootBlock c).toBuffer sizeofRootBlock) 1
  let d₂ := clearInodes c d₁ (inodeBlockCount c)
  let d₃ := initBitmap c (inodeBitmap c) (inodeCount c) d₂
  initBitmap c (dataBlockBitmap c) (dataBlockCount c) d₃

/-- `kfs2_filesystem_t`, a mounted volume. -/
structure Filesystem where
  rootBlock : RootBlock
  dataBlockAllocator : Bitmap
  inodeAllocator : Bitmap

def kfs2FilesystemInit (d : Disk) : Option Filesystem :=
  if c.blockSize > 4096 then none
  else
    let buffer := c.readCallback d c.startLba
    let root := RootBlock.ofBuffer buffer
    if root.signature ≠ kfs2RootBlockSignature ∨ !kfs2VerifyCrc buffer sizeofRootBlock then none
    else some
      ⟨root,
        kfs2BitmapInit c root.dataBlockAllocationBitmapOffsets
          root.dataBlockAllocationBitmapHighestLevelLength d,
        kfs2BitmapInit c root.inodeAllocationBitmapOffsets
          root.inodeAllocationBitmapHighestLevelLength d⟩

/-- `kfs2_io_inode_write`, of a node of sixteen words. -/
def kfs2IoInodeWrite (firstInodeBlock inode : ℕ) (node : Buffer) (d : Disk) : Disk :=
  let b := firstInodeBlock + inode / nodesPerBlock
  let n := 16 * (inode % nodesPerBlock)
  let buffer := c.readCallback d (c.lba b)
  c.writeCallback d (c.lba b)
    (fun r => if n ≤ r ∧ r < n + 16 then kfs2InsertCrc node 128 (r - n) else buffer r)
    (1 <<< c.blockSizeShift)

/-- The root directory: `48` bytes, inside the node, with one free entry, type and count `1`. -/
def rootNode : Buffer
  | 0 => 48
  | 1 => 48 * 2 ^ 32
  | 7 => 1
  | 12 => 2 ^ 32
  | _ => 0

/-- `kfs2_filesystem_format`: the mounted volume and the drive, or a refusal. -/
def kfs2FilesystemFormat (d : Disk) : Option (Filesystem × Disk) :=
  if c.blockSize > 4096 then none
  else
    match kfs2FilesystemInit c (formatted c d) with
    | none => none
    | some fs =>
      let (rootInode, allocator, d') := kfs2BitmapAlloc c fs.inodeAllocator (formatted c d)
      if rootInode ≠ 0 then none
      else some ({ fs with inodeAllocator := allocator },
        kfs2IoInodeWrite c fs.rootBlock.firstInodeBlock 0 rootNode d')

/-! ### Allocating from a mounted volume -/

inductive Allocator
  | inode
  | dataBlock
  deriving DecidableEq, Repr

/-- What the allocations `ws` on a mounted volume return, one after the other. -/
def allocAll (fs : Filesystem) (d : Disk) : List Allocator → List (Allocator × ℕ)
  | [] => []
  | .inode :: ws =>
    let (x, a, d') := kfs2BitmapAlloc c fs.inodeAllocator d
    (.inode, x) :: allocAll { fs with inodeAllocator := a } d' ws
  | .dataBlock :: ws =>
    let (x, a, d') := kfs2BitmapAlloc c fs.dataBlockAllocator d
    (.dataBlock, x) :: allocAll { fs with dataBlockAllocator := a } d' ws

end

end KernelModel.Kfs
