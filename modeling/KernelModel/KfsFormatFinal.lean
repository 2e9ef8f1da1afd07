import Mathlib
import KernelModel.KfsFormatSpec

/-!
Formatting gives a consistent volume for exactly these sizes: at least `64` blocks, and
neither the number of inodes nor that of data blocks makes a level of its bitmap end one bit
before the end of a word.
-/

namespace KernelModel.Kfs

open HierBitmap

section

variable {c : Config} (hbs : c.blockSize ≤ 4096) (h64 : 64 ≤ c.blockCount)

/-! ### The parts of the volume -/

omit hbs in
include h64 in
lemma regions_inside : ∀ r ∈ regions c, r.1 + r.2 ≤ c.blockCount := by
  have hd := (dataBlockBitmap_stacked h64)
  have hi := (inodeBitmap_stacked h64)
  have hadd := (firstDataBlock_add h64).1
  have hfirst : firstDataBlock c = 1 + c.blockCount / 64 := rfl
  intro r hr
  simp only [regions, List.mem_append, List.mem_cons, List.not_mem_nil, or_false, List.mem_map,
    List.mem_range] at hr
  rcases hr with (rfl | rfl | rfl) | ⟨k, hk, rfl⟩ | ⟨k, hk, rfl⟩
  · simp only
    omega
  · simp only [firstInodeBlock, inodeBlockCount, kfs2BlocksPerInodeBlock]
    omega
  · simp only
    omega
  · have := hd.1.end_le_top hk
    simp only [levelRegion]
    omega
  · exact hi.1.end_le_top hk

lemma Stacked.pairwise_apart {b : BitmapData} {top : ℕ} (h : Stacked b top) :
    ((List.range 5).map (levelRegion b)).Pairwise Apart := by
  rw [List.pairwise_map]
  refine List.Pairwise.imp_of_mem ?_ List.pairwise_lt_range
  intro k k' hk hk' hlt x hx
  have := h.end_le hlt (List.mem_range.mp hk')
  simp only [levelRegion] at hx
  omega

omit hbs in
include h64 in
lemma regions_apart : (regions c).Pairwise Apart := by
  have hd := (dataBlockBitmap_stacked h64)
  have hi := (inodeBitmap_stacked h64)
  have hadd := (firstDataBlock_add h64).1
  have hfirst : firstDataBlock c = 1 + c.blockCount / 64 := rfl
  have hibc : inodeBlockCount c = c.blockCount / 64 := rfl
  rw [regions, List.pairwise_append, List.pairwise_append]
  refine ⟨?_, ⟨hd.1.pairwise_apart, hi.1.pairwise_apart, ?_⟩, ?_⟩
  · simp only [List.pairwise_cons, List.mem_cons, List.not_mem_nil, or_false, forall_eq_or_imp,
      forall_eq, Apart, firstInodeBlock, hibc, IsEmpty.forall_iff, implies_true,
      List.Pairwise.nil, and_true]
    exact ⟨⟨fun b hb => by omega, fun b hb => by omega⟩, fun b hb => by omega⟩
  · -- the two bitmaps meet where the inode bitmap begins
    intro r hr s hs x hx
    obtain ⟨k, hk, rfl⟩ := List.mem_map.mp hr
    obtain ⟨k', hk', rfl⟩ := List.mem_map.mp hs
    have := hd.1.end_le_top (List.mem_range.mp hk)
    have := hi.1.offset_le (k := k') (j := 4) (by have := List.mem_range.mp hk'; omega)
      (by norm_num)
    simp only [levelRegion] at hx
    omega
  · -- everything else lies before the first of them
    intro r hr s hs x hx
    have hend : r.1 + r.2 ≤ firstBitmapBlock c := by
      simp only [List.mem_cons, List.not_mem_nil, or_false] at hr
      rcases hr with rfl | rfl | rfl <;> simp only [firstInodeBlock, hibc] <;> omega
    have hstart : firstBitmapBlock c ≤ s.1 := by
      rcases List.mem_append.mp hs with hs | hs
      · obtain ⟨k, hk, rfl⟩ := List.mem_map.mp hs
        exact hd.1.offset_le (j := 4) (by have := List.mem_range.mp hk; omega) (by norm_num)
      · obtain ⟨k, hk, rfl⟩ := List.mem_map.mp hs
        exact hd.2.2.trans (hi.1.offset_le (by have := List.mem_range.mp hk; omega) (by norm_num))
    omega

/-! ### The bitmaps -/

include hbs

lemma kfs2BitmapInit_ready {A : Area c} {d : Disk} {offsets : ℕ → ℕ} {length : ℕ}
    (hcons : Consistent 5 (A.view d)) (hoff : ∀ k < 5, offsets k = A.offset k)
    (hlen : length ≤ 512 * A.blocks 4) : Ready A d (kfs2BitmapInit c offsets length d) := by
  rw [kfs2BitmapInit]
  refine findNextHighestLevelOffset_ready hbs hcons ⟨hoff, fun _ _ => .inl rfl⟩ hlen ?_ ?_
  · simp
  · simp

include h64

lemma inodes_sound_iff (d : Disk) :
    BitmapSound c (formatted c d) (inodeBitmap c) (inodeCount c) ↔ Proper (inodeCount c) := by
  have hview := (formatted_spec hbs h64 d).1
  rw [← writtenLevels_iff (inodeArea h64).small (fun k _ => cover le_rfl (inodeCount_le c) k),
    ← hview]
  exact ⟨fun h => ⟨h.bits, h.levels⟩, fun h => ⟨h.1, h.2⟩⟩

lemma dataBlocks_sound_iff (d : Disk) :
    BitmapSound c (formatted c d) (dataBlockBitmap c) (dataBlockCount c) ↔
      Proper (dataBlockCount c) := by
  have hview := (formatted_spec hbs h64 d).2.1
  rw [← writtenLevels_iff (dataBlockArea h64).small
    (fun k _ => cover (dataBlockCount_le h64) (sub64_le h64) k), ← hview]
  exact ⟨fun h => ⟨h.bits, h.levels⟩, fun h => ⟨h.1, h.2⟩⟩

/-! ### Mounting and allocating -/

lemma kfs2FilesystemInit_formatted (d : Disk) : ∃ root : RootBlock, root.Same (rootBlock c) ∧
    kfs2FilesystemInit c (formatted c d) = some
      ⟨root,
        kfs2BitmapInit c root.dataBlockAllocationBitmapOffsets
          root.dataBlockAllocationBitmapHighestLevelLength (formatted c d),
        kfs2BitmapInit c root.inodeAllocationBitmapOffsets
          root.inodeAllocationBitmapHighestLevelLength (formatted c d)⟩ := by
  have hroot := (formatted_spec hbs h64 d).2.2
  have hread : c.readCallback (formatted c d) c.startLba = c.word (formatted c d) 0 := by
    funext r
    rw [Config.word, zero_mul, add_zero]
  obtain ⟨hcrc, hsame⟩ := RootBlock.ofBuffer_toBuffer (b := rootBlock c)
    (Nat.mod_lt _ (by norm_num)) (Nat.mod_lt _ (by norm_num)) hroot
  refine ⟨RootBlock.ofBuffer (c.word (formatted c d) 0), hsame, ?_⟩
  have hsig : (RootBlock.ofBuffer (c.word (formatted c d) 0)).signature
      = kfs2RootBlockSignature := hsame.signature
  rw [kfs2FilesystemInit, if_neg (by omega), hread]
  simp [hsig, hcrc]

omit h64 in
/-- The allocators of a volume between allocations. -/
structure Mounted (I D : Area c) (fs : Filesystem) (d : Disk) : Prop where
  inode : Ready I d fs.inodeAllocator
  dataBlock : Ready D d fs.dataBlockAllocator
  inode_lt : ∀ i, bit (I.view d) 0 i → i < inodeCount c
  dataBlock_lt : ∀ i, bit (D.view d) 0 i → i < dataBlockCount c

omit hbs h64 in
lemma levelLength_le {m : ℕ} (hm : m ≤ c.blockCount) : computeBitmapLengths m 4 % 2 ^ 16
    ≤ 512 * levelBlocks (computeBitmapLengths m 4) := by
  have hlt := Config.blockCount_lt c
  have := levelCount_le m 5
  have := Nat.mod_le (computeBitmapLengths m 4) (2 ^ 16)
  rw [computeBitmapLengths_eq (by omega)] at this ⊢
  simp only [Nat.reduceAdd] at this ⊢
  rw [levelBlocks_eq (by omega)]
  omega

lemma inode_ready (hi : Proper (inodeCount c)) (d : Disk) {root : RootBlock}
    (hsame : root.Same (rootBlock c)) : Ready (inodeArea h64) (formatted c d)
      (kfs2BitmapInit c root.inodeAllocationBitmapOffsets
        root.inodeAllocationBitmapHighestLevelLength (formatted c d)) := by
  refine kfs2BitmapInit_ready hbs ?_ hsame.inodeOffsets ?_
  · rw [(formatted_spec hbs h64 d).1]
    exact writtenLevels_consistent (inodeArea h64).small
      (fun k _ => cover le_rfl (inodeCount_le c) k) hi
  · rw [hsame.inodeLength]
    exact levelLength_le (inodeCount_le c)

lemma dataBlock_ready (hd : Proper (dataBlockCount c)) (d : Disk) {root : RootBlock}
    (hsame : root.Same (rootBlock c)) : Ready (dataBlockArea h64) (formatted c d)
      (kfs2BitmapInit c root.dataBlockAllocationBitmapOffsets
        root.dataBlockAllocationBitmapHighestLevelLength (formatted c d)) := by
  refine kfs2BitmapInit_ready hbs ?_ hsame.dataBlockOffsets ?_
  · rw [(formatted_spec hbs h64 d).2.1]
    exact writtenLevels_consistent (dataBlockArea h64).small
      (fun k _ => cover (dataBlockCount_le h64) (sub64_le h64) k) hd
  · rw [hsame.dataBlockLength]
    exact levelLength_le (sub64_le h64)

lemma mounted_formatted (hi : Proper (inodeCount c)) (hd : Proper (dataBlockCount c)) (d : Disk)
    {fs : Filesystem} (hfs : kfs2FilesystemInit c (formatted c d) = some fs) :
    Mounted (inodeArea h64) (dataBlockArea h64) fs (formatted c d) := by
  obtain ⟨root, hsame, hinit⟩ := kfs2FilesystemInit_formatted hbs h64 d
  obtain rfl := Option.some.inj (hinit.symm.trans hfs)
  exact
    { inode := inode_ready hbs h64 hi d hsame
      dataBlock := dataBlock_ready hbs h64 hd d hsame
      inode_lt := fun i hb => (((inodes_sound_iff hbs h64 d).mpr hi).bits i).mp hb
      dataBlock_lt := fun i hb => (((dataBlocks_sound_iff hbs h64 d).mpr hd).bits i).mp hb }

lemma Mounted.allocAll_lt {ws : List Allocator} : ∀ {fs : Filesystem} {d : Disk},
    Mounted (inodeArea h64) (dataBlockArea h64) fs d →
      ∀ p ∈ allocAll c fs d ws, p.2 < countOf c p.1 := by
  induction ws with
  | nil =>
    intro fs d _ p hp
    simp [allocAll] at hp
  | cons w ws ih =>
    intro fs d hm p hp
    cases w with
    | inode =>
      obtain ⟨x, a', d', halloc, hready, hsame, hx⟩ := kfs2BitmapAlloc_spec hbs hm.inode
      simp only [allocAll, halloc, List.mem_cons] at hp
      rcases hp with rfl | hp
      · rcases hx with ⟨-, rfl, -⟩ | ⟨hbit, -, -⟩
        · exact inodeCount_pos h64
        · exact hm.inode_lt x hbit
      · have hm' : Mounted (inodeArea h64) (dataBlockArea h64)
            { fs with inodeAllocator := a' } d' := by
          refine ⟨hready, hm.dataBlock.frame (dataBlockArea_disjoint h64) hsame,
            fun i hb => ?_, ?_⟩
          · rcases hx with ⟨-, -, rfl⟩ | ⟨-, -, hbits⟩
            · exact hm.inode_lt i hb
            · rw [hbits, Bool.and_eq_true] at hb
              exact hm.inode_lt i hb.1
          · rw [Area.view_frame (dataBlockArea_disjoint h64) hsame]
            exact hm.dataBlock_lt
        exact ih hm' p hp
    | dataBlock =>
      obtain ⟨x, a', d', halloc, hready, hsame, hx⟩ := kfs2BitmapAlloc_spec hbs hm.dataBlock
      simp only [allocAll, halloc, List.mem_cons] at hp
      rcases hp with rfl | hp
      · rcases hx with ⟨-, rfl, -⟩ | ⟨hbit, -, -⟩
        · exact (firstDataBlock_add h64).2
        · exact hm.dataBlock_lt x hbit
      · have hm' : Mounted (inodeArea h64) (dataBlockArea h64)
            { fs with dataBlockAllocator := a' } d' := by
          refine ⟨hm.inode.frame (inodeArea_disjoint h64) hsame, hready, ?_, fun i hb => ?_⟩
          · rw [Area.view_frame (inodeArea_disjoint h64) hsame]
            exact hm.inode_lt
          · rcases hx with ⟨-, -, rfl⟩ | ⟨-, -, hbits⟩
            · exact hm.dataBlock_lt i hb
            · rw [hbits, Bool.and_eq_true] at hb
              exact hm.dataBlock_lt i hb.1
        exact ih hm' p hp

/-! ### Acceptance -/

omit h64 in
/-- The search for the offset stops at once when the first word is not zero. -/
lemma kfs2BitmapInit_offset {A : Area c} {d : Disk} {offsets : ℕ → ℕ} {length : ℕ}
    (hoff : ∀ k < 5, offsets k = A.offset k) (hne : A.view d 4 0 ≠ 0) :
    (kfs2BitmapInit c offsets length d).highestLevelOffset = 0 := by
  cases length with
  | zero => rfl
  | succ n =>
    obtain ⟨hc, hh⟩ := fetchData_coherent (A := A) (d := d) (k := 4) (j := 0)
      (a := ⟨n + 1, 0, fun i => ⟨offsets i, 0xffffffffffffffff, fun _ => 0⟩⟩) hbs
      ⟨hoff, fun _ _ => .inl rfl⟩ (by norm_num) (Area.div_lt_of_view_ne hne)
    have hw := hc.data_eq (by norm_num) hh
    rw [kfs2BitmapInit, findNextHighestLevelOffset, if_pos (by simp)]
    simp only [kfs2BitmapLevelCount, Nat.reduceSub, hw, if_neg hne, fetchData_highestLevelOffset]

lemma kfs2FilesystemFormat_isSome (hi : Proper (inodeCount c)) (d : Disk) :
    (kfs2FilesystemFormat c d).isSome := by
  obtain ⟨hvi, -, -⟩ := formatted_spec hbs h64 d
  obtain ⟨root, hsame, hinit⟩ := kfs2FilesystemInit_formatted hbs h64 d
  have hcover := fun k (_ : k < 5) => cover le_rfl (inodeCount_le c) k
  have hlow : ∀ k < 5, IsLowest ((inodeArea h64).view (formatted c d) k 0) 0 := by
    intro k hk
    rw [hvi]
    exact writtenLevels_isLowest (inodeArea h64).small hcover (inodeCount_pos h64) hk
  have hready : Ready (inodeArea h64) (formatted c d) (kfs2BitmapInit c
      root.inodeAllocationBitmapOffsets root.inodeAllocationBitmapHighestLevelLength
      (formatted c d)) := inode_ready hbs h64 hi d hsame
  obtain ⟨x, a', d', halloc, -, -, hx⟩ := kfs2BitmapAlloc_spec hbs hready
  have hzero : x = 0 := by
    rcases hx with ⟨-, rfl, -⟩ | ⟨-, hx, -⟩
    · rfl
    · rw [hx, kfs2BitmapInit_offset hbs hsame.inodeOffsets (hlow 4 (by norm_num)).ne_zero]
      exact descend_zero (fun k hk => hready.consistent.word_lt k hk 0) hlow
  rw [kfs2FilesystemFormat, if_neg (by omega), hinit]
  simp [halloc, hzero]

end

/-! ### The sizes that work -/

/-- **Consistent volumes.** A partition that is accepted is given a consistent volume exactly
when it has at least `64` blocks and both counts are proper. -/
theorem sound_iff {c : Config} {d : Disk} (h : (kfs2FilesystemFormat c d).isSome) :
    Sound c (formatted c d) ↔ 64 ≤ c.blockCount ∧ Proper (inodesOf c.blockCount) ∧
      Proper (dataBlocksOf c.blockCount) := by
  have hbs : c.blockSize ≤ 4096 := by
    by_contra hbs
    simp [kfs2FilesystemFormat, show c.blockSize > 4096 by omega] at h
  constructor
  · intro hs
    have h64 : 64 ≤ c.blockCount := by
      by_contra h64
      -- without an inode the root directory is given inode `0` all the same
      have hzero : inodeCount c = 0 := by
        rw [inodeCount_eq, inodesOf]
        omega
      cases hfs : kfs2FilesystemInit c (formatted c d) with
      | none => simp [kfs2FilesystemFormat, show ¬ c.blockSize > 4096 by omega, hfs] at h
      | some fs =>
        have := hs.allocations fs hfs [.inode] _ List.mem_cons_self
        simp [countOf, hzero] at this
    rw [← inodeCount_eq, ← dataBlockCount_eq h64]
    exact ⟨h64, (inodes_sound_iff hbs h64 d).mp hs.inodes,
      (dataBlocks_sound_iff hbs h64 d).mp hs.dataBlocks⟩
  · rintro ⟨h64, hi, hd⟩
    rw [← inodeCount_eq] at hi
    rw [← dataBlockCount_eq h64] at hd
    exact
      { inside := fun r hr => Config.lba_le hbs (regions_inside h64 r hr)
        apart := regions_apart h64
        inodes := (inodes_sound_iff hbs h64 d).mpr hi
        dataBlocks := (dataBlocks_sound_iff hbs h64 d).mpr hd
        allocations := fun fs hfs ws =>
          (mounted_formatted hbs h64 hi hd d hfs).allocAll_lt hbs h64 }

/-- A partition of `n` blocks, on a drive with blocks of the same size. -/
def partition (n : ℕ) (hn : n < 2 ^ 64) : Config where
  blockSize := 4096
  startLba := 0
  endLba := n
  isPow := isPow_page
  rootBlock_le := rootBlock_le_page
  start_le := Nat.zero_le n
  end_lt := hn

theorem partition_64_sound :
    (kfs2FilesystemFormat (partition 64 (by norm_num)) (fun _ _ => 0)).isSome ∧
      Sound (partition 64 (by norm_num)) (formatted (partition 64 (by norm_num)) fun _ _ => 0) := by
  have h : (kfs2FilesystemFormat (partition 64 (by norm_num)) (fun _ _ => 0)).isSome :=
    kfs2FilesystemFormat_isSome (by decide) (by decide) (by decide) _
  exact ⟨h, (sound_iff h).mpr ⟨by decide, by decide, by decide⟩⟩

/-- With `75` blocks there are `63` data blocks, and the bitmap has a bit for one more. -/
theorem partition_75_not_sound :
    (kfs2FilesystemFormat (partition 75 (by norm_num)) (fun _ _ => 0)).isSome ∧
      ¬ Sound (partition 75 (by norm_num))
        (formatted (partition 75 (by norm_num)) fun _ _ => 0) := by
  have h64 : 64 ≤ (partition 75 (by norm_num)).blockCount := by decide
  refine ⟨kfs2FilesystemFormat_isSome (by decide) h64 (by decide) _, fun hs => ?_⟩
  have hproper := (dataBlocks_sound_iff (by decide) h64 _).mp hs.dataBlocks
  rw [dataBlockCount_eq h64] at hproper
  exact absurd hproper (by decide)

end KernelModel.Kfs
