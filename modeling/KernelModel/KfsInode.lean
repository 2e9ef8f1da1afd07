import KernelModel.KfsDealloc
import KernelModel.KfsFormatFinal

/-!
The inode table of a KFS2 volume.

Thirty-two records of `128` bytes share a block. Each one ends with its checksum, which takes
the place of the inode number that a node has in memory.
-/

namespace KernelModel.Kfs

open HierBitmap

def kfs2InodeStorageMask : UInt32 := 0x1c
def kfs2InodeStorageTypeSingle : UInt32 := 0x04
def kfs2InodeStorageTypeDouble : UInt32 := 0x08
def kfs2InodeStorageTypeTriple : UInt32 := 0x0c
def kfs2InodeStorageTypeQuadruple : UInt32 := 0x10

/-- `kfs2_node_t`. The data are six block numbers, or bytes of the file in the same memory. -/
@[ext] structure Node where
  size : UInt64
  data : Fin 6 → UInt64
  flags : UInt32
  timeAccess : UInt64
  timeModify : UInt64
  timeChange : UInt64
  timeBirth : UInt64
  gid : UInt32
  uid : UInt32
  rc : UInt64
  padding : BitVec 128
  inode : UInt32

namespace Node

/-- The memory of a node. The flags take four bytes, so that the fields behind them lie across
the words. -/
def toBuffer (n : Node) : Buffer
  | 0 => n.size.toNat
  | 1 => (n.data 0).toNat
  | 2 => (n.data 1).toNat
  | 3 => (n.data 2).toNat
  | 4 => (n.data 3).toNat
  | 5 => (n.data 4).toNat
  | 6 => (n.data 5).toNat
  | 7 => n.flags.toNat + n.timeAccess.toNat % 2 ^ 32 * 2 ^ 32
  | 8 => n.timeAccess.toNat / 2 ^ 32 + n.timeModify.toNat % 2 ^ 32 * 2 ^ 32
  | 9 => n.timeModify.toNat / 2 ^ 32 + n.timeChange.toNat % 2 ^ 32 * 2 ^ 32
  | 10 => n.timeChange.toNat / 2 ^ 32 + n.timeBirth.toNat % 2 ^ 32 * 2 ^ 32
  | 11 => n.timeBirth.toNat / 2 ^ 32 + n.gid.toNat * 2 ^ 32
  | 12 => n.uid.toNat + n.rc.toNat % 2 ^ 32 * 2 ^ 32
  | 13 => n.rc.toNat / 2 ^ 32 + n.padding.toNat % 2 ^ 32 * 2 ^ 32
  | 14 => n.padding.toNat / 2 ^ 32 % 2 ^ 64
  | 15 => n.padding.toNat / 2 ^ 96 + n.inode.toNat * 2 ^ 32
  | _ => 0

/-- Eight bytes that begin in the middle of a word. -/
def across (b : Buffer) (r : ℕ) : ℕ := b r / 2 ^ 32 + b (r + 1) % 2 ^ 32 * 2 ^ 32

def ofBuffer (b : Buffer) : Node where
  size := .ofNat (b 0)
  data i := .ofNat (b (i + 1))
  flags := .ofNat (b 7)
  timeAccess := .ofNat (across b 7)
  timeModify := .ofNat (across b 8)
  timeChange := .ofNat (across b 9)
  timeBirth := .ofNat (across b 10)
  gid := .ofNat (b 11 / 2 ^ 32)
  uid := .ofNat (b 12)
  rc := .ofNat (across b 12)
  padding := .ofNat 128 (b 13 / 2 ^ 32 + b 14 * 2 ^ 32 + b 15 % 2 ^ 32 * 2 ^ 96)
  inode := .ofNat (b 15 / 2 ^ 32)

/-- A node of zeros. -/
def zero : Node := ⟨0, fun _ => 0, 0, 0, 0, 0, 0, 0, 0, 0, 0, 0⟩

/-- The node has nothing but its number. -/
def Blank (n : Node) : Prop := n = { zero with inode := n.inode }

end Node

/-- `mem_fill`, on memory that is seen as words. -/
def memFill (b : Buffer) (length value : ℕ) : Buffer := fun r =>
  ∑ t ∈ Finset.range 8,
    (if 8 * r + t < length then value % 256 else byteAt b (8 * r + t)) * 256 ^ t

section

variable (c : Config)

/-- `kfs2_io_inode_read`; a panic on a wrong checksum is `none`. -/
def kfs2IoInodeRead (firstInodeBlock : ℕ) (inode : UInt32) (d : Disk) : Option Node :=
  let b := firstInodeBlock + inode.toNat / nodesPerBlock
  let n := 16 * (inode.toNat % nodesPerBlock)
  let buffer := c.readCallback d (c.lba b)
  let node := fun r => buffer (n + r)
  if kfs2VerifyCrc node 128 then some { Node.ofBuffer node with inode := inode } else none

/-- The loop of `kfs2_node_delete` over the block numbers of a node. -/
def deallocBlocks (node : Node) (s : Bitmap × Disk) : Bitmap × Disk :=
  (List.finRange 6).foldl
    (fun s i => if node.data i ≠ 0 then kfs2BitmapDealloc c s.1 (node.data i).toNat s.2 else s) s

/-- `kfs2_node_delete`: the result with the volume, the node and the drive; `none` is a panic. -/
def kfs2NodeDelete (fs : Filesystem) (node : Node) (d : Disk) :
    Option (Bool × Filesystem × Node × Disk) :=
  if node.inode = 0xffffffff then some (false, fs, node, d)
  else if node.rc ≠ 0 then none
  else
    let storage := node.flags &&& kfs2InodeStorageMask
    if storage = kfs2InodeStorageTypeDouble ∨ storage = kfs2InodeStorageTypeTriple ∨
        storage = kfs2InodeStorageTypeQuadruple then none
    else
      let (dataBlockAllocator, d) :=
        if storage = kfs2InodeStorageTypeSingle then
          deallocBlocks c node (fs.dataBlockAllocator, d)
        else (fs.dataBlockAllocator, d)
      let (inodeAllocator, d) := kfs2BitmapDealloc c fs.inodeAllocator node.inode.toNat d
      let fs := { fs with
        dataBlockAllocator := dataBlockAllocator
        inodeAllocator := inodeAllocator }
      let inode := node.inode
      -- the length is `0`, and the value the size of a node
      let node := Node.ofBuffer (memFill node.toBuffer 0 128)
      let node := { node with inode := inode }
      let d := kfs2IoInodeWrite c fs.rootBlock.firstInodeBlock node.inode.toNat node.toBuffer d
      some (true, fs, { node with inode := 0xffffffff }, d)

end

/-! ### Nodes in memory -/

namespace Node

lemma across_toNat (x : UInt64) {low high : ℕ} (hlow : low < 2 ^ 32) :
    UInt64.ofNat ((low + x.toNat % 2 ^ 32 * 2 ^ 32) / 2 ^ 32 +
      (x.toNat / 2 ^ 32 + high * 2 ^ 32) % 2 ^ 32 * 2 ^ 32) = x := by
  have hx := x.toNat_lt
  rw [← UInt64.toNat_inj, UInt64.toNat_ofNat']
  omega

/-- **A node survives its memory.** -/
theorem ofBuffer_toBuffer (n : Node) : ofBuffer n.toBuffer = n := by
  have h32 : ∀ (x : UInt32) (high : ℕ), UInt32.ofNat (x.toNat + high * 2 ^ 32) = x := by
    intro x high
    have hx := x.toNat_lt
    rw [← UInt32.toNat_inj, UInt32.toNat_ofNat']
    omega
  have hhigh : ∀ (x : UInt32) (low : ℕ), low < 2 ^ 32 →
      UInt32.ofNat ((low + x.toNat * 2 ^ 32) / 2 ^ 32) = x := by
    intro x low hlow
    have hx := x.toNat_lt
    rw [← UInt32.toNat_inj, UInt32.toNat_ofNat']
    omega
  have hhalf : ∀ x : UInt64, x.toNat / 2 ^ 32 < 2 ^ 32 := by
    intro x
    have hx := x.toNat_lt
    omega
  apply Node.ext
  · exact UInt64.ofNat_toNat
  · funext i
    fin_cases i <;> exact UInt64.ofNat_toNat
  · exact h32 n.flags _
  · exact across_toNat n.timeAccess n.flags.toNat_lt
  · exact across_toNat n.timeModify (hhalf n.timeAccess)
  · exact across_toNat n.timeChange (hhalf n.timeModify)
  · exact across_toNat n.timeBirth (hhalf n.timeChange)
  · exact hhigh n.gid _ (hhalf n.timeBirth)
  · exact h32 n.uid _
  · exact across_toNat n.rc n.uid.toNat_lt
  · have hp := n.padding.isLt
    have hrc := hhalf n.rc
    apply BitVec.eq_of_toNat_eq
    simp only [ofBuffer, toBuffer, BitVec.toNat_ofNat]
    omega
  · have hp := n.padding.isLt
    exact hhigh n.inode (n.padding.toNat / 2 ^ 96) (by omega)

lemma ofBuffer_congr {b b' : Buffer} (h : ∀ r < 15, b r = b' r)
    (hlast : b 15 % 2 ^ 32 = b' 15 % 2 ^ 32) (i : UInt32) :
    { ofBuffer b with inode := i } = { ofBuffer b' with inode := i } := by
  have hdata : (fun i : Fin 6 => UInt64.ofNat (b (i + 1))) = fun i => .ofNat (b' (i + 1)) :=
    funext fun i => by rw [h _ (by omega)]
  simp only [ofBuffer, across, h 0 (by decide), h 7 (by decide), h 8 (by decide),
    h 9 (by decide), h 10 (by decide), h 11 (by decide), h 12 (by decide), h 13 (by decide),
    h 14 (by decide), hlast, hdata]

lemma toBuffer_lt (n : Node) (r : ℕ) : n.toBuffer r < 2 ^ 64 := by
  have h64 : ∀ x : UInt64, x.toNat < 2 ^ 64 := UInt64.toNat_lt
  have h32 : ∀ x : UInt32, x.toNat < 2 ^ 32 := UInt32.toNat_lt
  have hp := n.padding.isLt
  have := h64 n.timeAccess
  have := h64 n.timeModify
  have := h64 n.timeChange
  have := h64 n.timeBirth
  have := h64 n.rc
  have := h32 n.flags
  have := h32 n.gid
  have := h32 n.uid
  have := h32 n.inode
  unfold toBuffer
  split <;> first | exact h64 _ | omega

end Node

lemma sum_byteAt {b : Buffer} {r : ℕ} (h : b r < 2 ^ 64) :
    ∑ t ∈ Finset.range 8, byteAt b (8 * r + t) * 256 ^ t = b r := by
  have hbyte : ∀ t < 8, byteAt b (8 * r + t) = b r / 2 ^ (8 * t) % 256 := by
    intro t ht
    rw [byteAt, Nat.mul_add_div (by decide), Nat.mul_add_mod, Nat.div_eq_of_lt ht, Nat.add_zero,
      Nat.mod_eq_of_lt ht]
  simp only [Finset.sum_range_succ, Finset.sum_range_zero, hbyte 0 (by decide),
    hbyte 1 (by decide), hbyte 2 (by decide), hbyte 3 (by decide), hbyte 4 (by decide),
    hbyte 5 (by decide), hbyte 6 (by decide), hbyte 7 (by decide)]
  omega

lemma memFill_zero {b : Buffer} {r : ℕ} (h : b r < 2 ^ 64) (value : ℕ) :
    memFill b 0 value r = b r := by
  rw [memFill, ← sum_byteAt h]
  simp only [Nat.not_lt_zero, if_false]

lemma ofBuffer_memFill (node : Node) (value : ℕ) :
    Node.ofBuffer (memFill node.toBuffer 0 value) = node := by
  have hsame : memFill node.toBuffer 0 value = node.toBuffer :=
    funext fun r => memFill_zero (node.toBuffer_lt r) value
  rw [hsame, Node.ofBuffer_toBuffer]

/-! ### Records -/

section

variable {c : Config} {d : Disk} {first : ℕ}

/-- The words of the record of an inode. -/
def record (c : Config) (first : ℕ) (d : Disk) (inode : ℕ) : Buffer := fun r =>
  c.word d (first + inode / nodesPerBlock) (16 * (inode % nodesPerBlock) + r)

lemma nodesPerBlock_eq : nodesPerBlock = 32 := rfl

lemma word_inodeWrite (hbs : c.blockSize ≤ 4096) {inode : ℕ} (node : Buffer)
    (hin : first + inode / nodesPerBlock < c.blockCount) {b r : ℕ} (hr : r < 512) :
    c.word (kfs2IoInodeWrite c first inode node d) b r =
      if b = first + inode / nodesPerBlock ∧ 16 * (inode % nodesPerBlock) ≤ r ∧
          r < 16 * (inode % nodesPerBlock) + 16 then
        kfs2InsertCrc node 128 (r - 16 * (inode % nodesPerBlock))
      else c.word d b r := by
  rw [kfs2IoInodeWrite, Config.lba_eq hbs hin, Config.one_shiftLeft hbs,
    Config.word_writeCallback hbs _ _ hr]
  by_cases hb : b = first + inode / nodesPerBlock
  · subst hb
    simp only [if_true, true_and]
    rfl
  · rw [if_neg hb, if_neg fun h => hb h.1]

lemma record_inodeWrite_self (hbs : c.blockSize ≤ 4096) {inode : ℕ} (node : Buffer)
    (hin : first + inode / nodesPerBlock < c.blockCount) {r : ℕ} (hr : r < 16) :
    record c first (kfs2IoInodeWrite c first inode node d) inode r =
      kfs2InsertCrc node 128 r := by
  have hmod : inode % nodesPerBlock < 32 := Nat.mod_lt _ (by decide)
  rw [record, word_inodeWrite hbs node hin (by omega), if_pos ⟨rfl, by omega, by omega⟩,
    Nat.add_sub_cancel_left]

/-- **The other records**, of the same block or of another one, stay as they are. -/
lemma record_inodeWrite_of_ne (hbs : c.blockSize ≤ 4096) {inode i : ℕ} (node : Buffer)
    (hin : first + inode / nodesPerBlock < c.blockCount) (hi : i ≠ inode) {r : ℕ} (hr : r < 16) :
    record c first (kfs2IoInodeWrite c first inode node d) i r = record c first d i r := by
  rw [nodesPerBlock_eq] at hin
  have hmod : i % 32 < 32 := Nat.mod_lt _ (by decide)
  rw [record, nodesPerBlock_eq, word_inodeWrite hbs node hin (by omega), nodesPerBlock_eq,
    if_neg (by omega)]
  rfl

lemma view_inodeWrite (hbs : c.blockSize ≤ 4096) {A : Area c} {inode : ℕ} (node : Buffer)
    (hin : first + inode / nodesPerBlock < c.blockCount)
    (hA : ¬A.Has (first + inode / nodesPerBlock)) :
    A.view (kfs2IoInodeWrite c first inode node d) = A.view d := by
  funext k j
  rw [Area.view, Area.view]
  split
  · rename_i hkj
    rw [word_inodeWrite hbs node hin (Nat.mod_lt _ (by decide)), if_neg]
    rintro ⟨hb, -⟩
    exact hA ⟨k, hkj.1, by omega, by omega⟩
  · rfl

lemma kfs2InsertCrc_node (node : Buffer) : (∀ r < 15, kfs2InsertCrc node 128 r = node r) ∧
    kfs2InsertCrc node 128 15 % 2 ^ 32 = node 15 % 2 ^ 32 := by
  constructor
  · intro r hr
    exact Function.update_of_ne (by omega) _ _
  · rw [kfs2InsertCrc, Function.update_self]
    exact (Nat.add_mul_mod_self_right _ _ _).trans (Nat.mod_mod _ _)

/-- **A record round trip.** What was written is accepted, and gives the fields back. -/
lemma inodeRead_inodeWrite (hbs : c.blockSize ≤ 4096) (node : Node)
    (hin : first + node.inode.toNat / nodesPerBlock < c.blockCount) :
    kfs2IoInodeRead c first node.inode
      (kfs2IoInodeWrite c first node.inode.toNat node.toBuffer d) = some node := by
  have hrecord : ∀ r < 16, record c first
      (kfs2IoInodeWrite c first node.inode.toNat node.toBuffer d) node.inode.toNat r =
        kfs2InsertCrc node.toBuffer 128 r :=
    fun r hr => record_inodeWrite_self hbs node.toBuffer hin hr
  have hcrc := (kfs2VerifyCrc_congr (n := 15) hrecord).trans
    (kfs2VerifyCrc_kfs2InsertCrc node.toBuffer 15)
  rw [kfs2IoInodeRead, Config.lba_eq hbs hin]
  refine (if_pos hcrc).trans (congrArg some ?_)
  obtain ⟨hwords, hlast⟩ := kfs2InsertCrc_node node.toBuffer
  calc { Node.ofBuffer (record c first
        (kfs2IoInodeWrite c first node.inode.toNat node.toBuffer d) node.inode.toNat) with
        inode := node.inode }
      = { Node.ofBuffer node.toBuffer with inode := node.inode } :=
        Node.ofBuffer_congr (fun r hr => (hrecord r (by omega)).trans (hwords r hr))
          ((congrArg (· % 2 ^ 32) (hrecord 15 (by decide))).trans hlast) _
    _ = node := by rw [Node.ofBuffer_toBuffer]

end

/-! ### Deleting -/

section

variable {c : Config} {A : Area c} {a : Bitmap} {d : Disk}

/-- The blocks of a node with direct storage. -/
def Node.Owns (node : Node) (x : ℕ) : Prop := ∃ i, node.data i ≠ 0 ∧ (node.data i).toNat = x

/-- **Giving the blocks back**, in any order and also when one of them is named twice. -/
lemma deallocBlocks_spec (hbs : c.blockSize ≤ 4096) (hc : Coherent A d a) (node : Node)
    (hx : ∀ x, node.Owns x → A.Fits x) : ∃ a' d', deallocBlocks c node (a, d) = (a', d') ∧
      Coherent A d' a' ∧ SameOutside A d d' ∧ ∀ x, node.Owns x → bit (A.view d') 0 x := by
  have hlist : ∀ (l : List (Fin 6)) (a : Bitmap) (d : Disk), Coherent A d a → ∃ a' d',
      l.foldl (fun s i => if node.data i ≠ 0 then
        kfs2BitmapDealloc c s.1 (node.data i).toNat s.2 else s) (a, d) = (a', d') ∧
      Coherent A d' a' ∧ SameOutside A d d' ∧ ∀ x, (bit (A.view d) 0 x ∨
        ∃ i ∈ l, node.data i ≠ 0 ∧ (node.data i).toNat = x) → bit (A.view d') 0 x := by
    intro l
    induction l with
    | nil =>
      intro a d hc
      refine ⟨a, d, rfl, hc, SameOutside.refl A d, ?_⟩
      rintro x (h | ⟨i, hi, -⟩)
      · exact h
      · cases hi
    | cons i l ih =>
      intro a d hc
      rw [List.foldl_cons]
      by_cases hi : node.data i = 0
      · rw [if_neg (not_not_intro hi)]
        obtain ⟨a', d', hrun, hc', hsame, hbits⟩ := ih a d hc
        refine ⟨a', d', hrun, hc', hsame, fun x hx => hbits x ?_⟩
        refine hx.imp_right ?_
        rintro ⟨j, hj, hne, hval⟩
        rcases List.mem_cons.mp hj with rfl | hj
        · exact absurd hi hne
        · exact ⟨j, hj, hne, hval⟩
      · rw [if_pos hi]
        obtain ⟨a₁, d₁, hfree, hc₁, hsame₁, hbits₁⟩ :=
          kfs2BitmapDealloc_coherent hbs hc (hx _ ⟨i, hi, rfl⟩)
        obtain ⟨a', d', hrun, hc', hsame, hbits⟩ := ih a₁ d₁ hc₁
        rw [hfree]
        refine ⟨a', d', hrun, hc', hsame₁.trans hsame, fun x hx => hbits x ?_⟩
        rcases hx with h | ⟨j, hj, hne, hval⟩
        · exact .inl (by rw [hbits₁, h, Bool.true_or])
        · rcases List.mem_cons.mp hj with rfl | hj
          · exact .inl (by rw [hbits₁, hval, beq_self_eq_true, Bool.or_true])
          · exact .inr ⟨j, hj, hne, hval⟩
  obtain ⟨a', d', hrun, hc', hsame, hbits⟩ := hlist (List.finRange 6) a d hc
  refine ⟨a', d', hrun, hc', hsame, ?_⟩
  rintro x ⟨i, hne, hval⟩
  exact hbits x (.inr ⟨i, List.mem_finRange i, hne, hval⟩)

end

/-- A mounted volume: the inode table and both bitmaps lie on the partition, apart from each
other, and the allocators agree with the drive. -/
structure Volume where
  config : Config
  fs : Filesystem
  disk : Disk
  inodes : Area config
  dataBlocks : Area config
  tableBlocks : ℕ
  blockSize_le : config.blockSize ≤ 4096
  table_le : fs.rootBlock.firstInodeBlock + tableBlocks ≤ config.blockCount
  apart : inodes.Disjoint dataBlocks
  table_apart : ∀ b, fs.rootBlock.firstInodeBlock ≤ b →
    b < fs.rootBlock.firstInodeBlock + tableBlocks → ¬inodes.Has b ∧ ¬dataBlocks.Has b
  inode_coherent : Coherent inodes disk fs.inodeAllocator
  dataBlock_coherent : Coherent dataBlocks disk fs.dataBlockAllocator

/-- A volume with a node whose record lies in the inode table. -/
structure Entry extends Volume where
  node : Node
  inTable : node.inode.toNat / nodesPerBlock < tableBlocks
  fits : inodes.Fits node.inode.toNat

namespace Entry

variable (e : Entry)

/-- The record of an inode on a drive. -/
def record (d : Disk) (inode : ℕ) : Buffer :=
  Kfs.record e.config e.fs.rootBlock.firstInodeBlock d inode

/-- The drive after the node was written. -/
def written : Disk := kfs2IoInodeWrite e.config e.fs.rootBlock.firstInodeBlock
  e.node.inode.toNat e.node.toBuffer e.disk

/-- What was written is read, and the other records are as they were. -/
structure RoundTrips : Prop where
  read : kfs2IoInodeRead e.config e.fs.rootBlock.firstInodeBlock e.node.inode e.written =
    some e.node
  others : ∀ i ≠ e.node.inode.toNat, ∀ r < 16, e.record e.written i r = e.record e.disk i r

/-- The node keeps its data in itself, or in blocks that it names. -/
structure Deletable : Prop where
  exists_inode : e.node.inode ≠ 0xffffffff
  unreferenced : e.node.rc = 0
  storage : e.node.flags &&& kfs2InodeStorageMask = 0 ∨
    e.node.flags &&& kfs2InodeStorageMask = kfs2InodeStorageTypeSingle ∧
      ∀ x, e.node.Owns x → e.dataBlocks.Fits x

/-- The record on the drive is zero apart from the checksum, which is right, and the inode and
the blocks are free. -/
def Deleted : Prop := ∃ fs node d,
  kfs2NodeDelete e.config e.fs e.node e.disk = some (true, fs, node, d) ∧
    (∀ r < 15, e.record d e.node.inode.toNat r = 0) ∧
    e.record d e.node.inode.toNat 15 % 2 ^ 32 = 0 ∧
    kfs2VerifyCrc (e.record d e.node.inode.toNat) 128 ∧
    bit (e.inodes.view d) 0 e.node.inode.toNat ∧
    (e.node.flags &&& kfs2InodeStorageMask = kfs2InodeStorageTypeSingle →
      ∀ x, e.node.Owns x → bit (e.dataBlocks.view d) 0 x)

end Entry

section

variable {e : Entry}

lemma Entry.block_lt (e : Entry) :
    e.fs.rootBlock.firstInodeBlock + e.node.inode.toNat / nodesPerBlock < e.config.blockCount := by
  have htable := e.inTable
  have hle := e.table_le
  omega

lemma Entry.reads_back (e : Entry) : e.RoundTrips where
  read := inodeRead_inodeWrite e.blockSize_le e.node e.block_lt
  others := fun _ hi _ hr =>
    record_inodeWrite_of_ne e.blockSize_le e.node.toBuffer e.block_lt hi hr

/-- **A deletion** frees the inode and the blocks, and writes the node as it was. -/
lemma Entry.delete_spec (h : e.Deletable) : ∃ fs node d,
    kfs2NodeDelete e.config e.fs e.node e.disk = some (true, fs, node, d) ∧
      (∀ r < 16, e.record d e.node.inode.toNat r = kfs2InsertCrc e.node.toBuffer 128 r) ∧
      bit (e.inodes.view d) 0 e.node.inode.toNat ∧
      (e.node.flags &&& kfs2InodeStorageMask = kfs2InodeStorageTypeSingle →
        ∀ x, e.node.Owns x → bit (e.dataBlocks.view d) 0 x) := by
  have hbs := e.blockSize_le
  have hapart := e.table_apart _ (Nat.le_add_right _ _) (Nat.add_lt_add_left e.inTable _)
  have hswap : e.dataBlocks.Disjoint e.inodes := fun b hd hi => e.apart b hi hd
  -- the data blocks
  obtain ⟨a₁, d₁, hblocks, hc₁, hsame₁, hbits₁⟩ : ∃ a₁ d₁,
      (if e.node.flags &&& kfs2InodeStorageMask = kfs2InodeStorageTypeSingle then
        deallocBlocks e.config e.node (e.fs.dataBlockAllocator, e.disk)
      else (e.fs.dataBlockAllocator, e.disk)) = (a₁, d₁) ∧ Coherent e.inodes d₁
        e.fs.inodeAllocator ∧ SameOutside e.dataBlocks e.disk d₁ ∧
      (e.node.flags &&& kfs2InodeStorageMask = kfs2InodeStorageTypeSingle →
        ∀ x, e.node.Owns x → bit (e.dataBlocks.view d₁) 0 x) := by
    by_cases hsingle : e.node.flags &&& kfs2InodeStorageMask = kfs2InodeStorageTypeSingle
    · have hfits : ∀ x, e.node.Owns x → e.dataBlocks.Fits x := by
        rcases h.storage with hzero | ⟨-, hfits⟩
        · rw [hzero] at hsingle
          cases hsingle
        · exact hfits
      obtain ⟨a₁, d₁, hrun, -, hsame, hbits⟩ :=
        deallocBlocks_spec hbs e.dataBlock_coherent e.node hfits
      rw [if_pos hsingle]
      exact ⟨a₁, d₁, hrun, e.inode_coherent.frame e.apart hsame, hsame, fun _ => hbits⟩
    · rw [if_neg hsingle]
      exact ⟨_, _, rfl, e.inode_coherent, SameOutside.refl _ _, fun hs => absurd hs hsingle⟩
  -- the inode
  obtain ⟨a₂, d₂, hinode, -, hsame₂, hbits₂⟩ := kfs2BitmapDealloc_coherent hbs hc₁ e.fits
  have hpanic : ¬(e.node.flags &&& kfs2InodeStorageMask = kfs2InodeStorageTypeDouble ∨
      e.node.flags &&& kfs2InodeStorageMask = kfs2InodeStorageTypeTriple ∨
      e.node.flags &&& kfs2InodeStorageMask = kfs2InodeStorageTypeQuadruple) := by
    rcases h.storage with hs | ⟨hs, -⟩ <;> rw [hs] <;> decide
  refine ⟨{ e.fs with dataBlockAllocator := a₁, inodeAllocator := a₂ },
    { e.node with inode := 0xffffffff },
    kfs2IoInodeWrite e.config e.fs.rootBlock.firstInodeBlock e.node.inode.toNat
      e.node.toBuffer d₂, ?_, fun r hr => ?_, ?_, fun hs x hx => ?_⟩
  · rw [kfs2NodeDelete, if_neg h.exists_inode, if_neg (not_not_intro h.unreferenced)]
    dsimp only
    rw [if_neg hpanic, hblocks]
    dsimp only
    rw [hinode, ofBuffer_memFill]
  · exact record_inodeWrite_self hbs e.node.toBuffer e.block_lt hr
  · rw [view_inodeWrite hbs e.node.toBuffer e.block_lt hapart.1, hbits₂, beq_self_eq_true,
      Bool.or_true]
  · rw [view_inodeWrite hbs e.node.toBuffer e.block_lt hapart.2,
      Area.view_frame hswap hsame₂]
    exact hbits₁ hs x hx

lemma Node.zero_toBuffer (i : UInt32) :
    (∀ r < 15, { Node.zero with inode := i }.toBuffer r = 0) ∧
      { Node.zero with inode := i }.toBuffer 15 % 2 ^ 32 = 0 := by
  constructor
  · intro r hr
    interval_cases r <;> simp [Node.toBuffer, Node.zero]
  · show (0 / 2 ^ 96 + i.toNat * 2 ^ 32) % 2 ^ 32 = 0
    omega

lemma Node.blank_iff (node : Node) : node.Blank ↔
    (∀ r < 15, node.toBuffer r = 0) ∧ node.toBuffer 15 % 2 ^ 32 = 0 := by
  obtain ⟨hzero, hzero'⟩ := Node.zero_toBuffer node.inode
  constructor
  · intro h
    rw [h]
    exact ⟨hzero, hzero'⟩
  · rintro ⟨hwords, hlast⟩
    have hcongr := Node.ofBuffer_congr (fun r hr => (hwords r hr).trans (hzero r hr).symm)
      (hlast.trans hzero'.symm) node.inode
    rw [Node.ofBuffer_toBuffer, Node.ofBuffer_toBuffer] at hcongr
    exact hcongr

lemma Entry.deleted_iff (h : e.Deletable) : e.Deleted ↔ e.node.Blank := by
  obtain ⟨fs, node, d, hrun, hrecord, hinode, hblocks⟩ := e.delete_spec h
  obtain ⟨hinsert, hinsert'⟩ := kfs2InsertCrc_node e.node.toBuffer
  have hwords : ∀ r < 15, e.record d e.node.inode.toNat r = e.node.toBuffer r := fun r hr =>
    (hrecord r (by omega)).trans (hinsert r hr)
  have hlast : e.record d e.node.inode.toNat 15 % 2 ^ 32 = e.node.toBuffer 15 % 2 ^ 32 :=
    (congrArg (· % 2 ^ 32) (hrecord 15 (by decide))).trans hinsert'
  have hcrc := (kfs2VerifyCrc_congr (n := 15) hrecord).trans
    (kfs2VerifyCrc_kfs2InsertCrc e.node.toBuffer 15)
  rw [Node.blank_iff]
  constructor
  · rintro ⟨fs', node', d', hrun', hzero, hzero', -⟩
    rw [hrun] at hrun'
    cases hrun'
    exact ⟨fun r hr => (hwords r hr).symm.trans (hzero r hr), hlast.symm.trans hzero'⟩
  · rintro ⟨hzero, hzero'⟩
    exact ⟨fs, node, d, hrun, fun r hr => (hwords r hr).trans (hzero r hr), hlast.trans hzero',
      hcrc, hinode, hblocks⟩

/-- **The inode table.** A node that is written is read back, and a deletion clears its record
just when there was nothing in it. -/
theorem inodeRecords_iff (e : Entry) :
    (e.RoundTrips ∧ (e.Deletable → e.Deleted)) ↔ (e.Deletable → e.node.Blank) :=
  (and_iff_right e.reads_back).trans (forall_congr' fun h => e.deleted_iff h)

end

/-! ### Formatted volumes -/

section

variable {c : Config} (hbs : c.blockSize ≤ 4096) (h64 : 64 ≤ c.blockCount)

include hbs h64

lemma isSome_init (d : Disk) : (kfs2FilesystemInit c (formatted c d)).isSome := by
  obtain ⟨root, -, hinit⟩ := kfs2FilesystemInit_formatted hbs h64 d
  rw [hinit]
  rfl

lemma firstInodeBlock_formatted {d : Disk} {fs : Filesystem}
    (hfs : kfs2FilesystemInit c (formatted c d) = some fs) :
    fs.rootBlock.firstInodeBlock = firstInodeBlock := by
  have hread : c.readCallback (formatted c d) c.startLba = c.word (formatted c d) 0 := by
    funext r
    rw [Config.word, zero_mul, add_zero]
  rw [kfs2FilesystemInit, if_neg (by omega), hread] at hfs
  dsimp only at hfs
  split_ifs at hfs
  obtain rfl := Option.some.inj hfs
  show c.word (formatted c d) 0 14 = firstInodeBlock
  rw [(formatted_spec hbs h64 d).2.2 14 (by decide)]
  exact Function.update_of_ne (by decide) _ _

lemma inodeTable_le {d : Disk} {fs : Filesystem}
    (hfs : kfs2FilesystemInit c (formatted c d) = some fs) :
    fs.rootBlock.firstInodeBlock + inodeBlockCount c ≤ c.blockCount := by
  rw [firstInodeBlock_formatted hbs h64 hfs]
  have hadd := (firstDataBlock_add h64).1
  have hle := (dataBlockBitmap_stacked h64).2.2
  have hlast := (inodeBitmap_stacked h64).2.2
  rw [firstDataBlock] at hadd
  omega

lemma inodeTable_apart {d : Disk} {fs : Filesystem}
    (hfs : kfs2FilesystemInit c (formatted c d) = some fs) :
    ∀ b, fs.rootBlock.firstInodeBlock ≤ b →
      b < fs.rootBlock.firstInodeBlock + inodeBlockCount c →
      ¬(inodeArea h64).Has b ∧ ¬(dataBlockArea h64).Has b := by
  rw [firstInodeBlock_formatted hbs h64 hfs]
  intro b _ hlt
  have hadd := (firstDataBlock_add h64).1
  rw [firstDataBlock] at hadd
  constructor
  · intro hb
    have hge := inodeArea_le h64 hb
    have hle := (dataBlockBitmap_stacked h64).2.2
    omega
  · intro hb
    have hge := (dataBlockArea_le h64 hb).1
    omega

/-- The volume of a formatted partition. -/
def formattedVolume (hi : Proper (inodeCount c)) (hd : Proper (dataBlockCount c)) {d : Disk}
    {fs : Filesystem} (hfs : kfs2FilesystemInit c (formatted c d) = some fs) : Volume where
  config := c
  fs := fs
  disk := formatted c d
  inodes := inodeArea h64
  dataBlocks := dataBlockArea h64
  tableBlocks := inodeBlockCount c
  blockSize_le := hbs
  table_le := inodeTable_le hbs h64 hfs
  apart := inodeArea_disjoint h64
  table_apart := inodeTable_apart hbs h64 hfs
  inode_coherent := (mounted_formatted hbs h64 hi hd d hfs).inode.coherent
  dataBlock_coherent := (mounted_formatted hbs h64 hi hd d hfs).dataBlock.coherent

end

/-- On a formatted partition of `64` blocks, a file of three bytes in its node. -/
def inlineFile : Entry where
  toVolume := formattedVolume (c := partition 64 (by norm_num)) (by decide) (by decide) (by decide)
    (by decide) (Option.some_get (isSome_init (by decide) (by decide) fun _ _ => 0)).symm
  node := { Node.zero with size := 3, inode := 1 }
  inTable := by decide
  fits := by
    intro k hk
    interval_cases k <;> decide

theorem inlineFile_not_deleted :
    ¬(inlineFile.RoundTrips ∧ (inlineFile.Deletable → inlineFile.Deleted)) := by
  rintro ⟨-, h⟩
  have hdeletable : inlineFile.Deletable := ⟨by decide, rfl, .inl rfl⟩
  have hblank := (inlineFile.deleted_iff hdeletable).mp (h hdeletable)
  have hsize : (3 : UInt64) = 0 := congrArg Node.size hblank
  exact absurd hsize (by decide)

end KernelModel.Kfs
