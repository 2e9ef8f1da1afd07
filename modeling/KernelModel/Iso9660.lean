import Mathlib.Tactic

/-!
Reading a file of an ISO 9660 medium.

The drive works: it reads every block that it has. The last block of a drive of this kind has an
address of 32 bits. A buffer is described by the bytes that are written into it.
-/

namespace KernelModel.Iso9660

/-- A drive of blocks of 2048 bytes, one behind the other. -/
structure Drive where
  blockCount : ℕ
  data : ℕ → UInt8
  blockCount_le : blockCount ≤ 2 ^ 32

/-- What is written into a buffer. -/
abbrev Buffer := ℕ → Option UInt8

/-- `mem_copy`, to a position of the buffer. -/
def memCopy (b : Buffer) (position n : ℕ) (src : ℕ → UInt8) : Buffer :=
  fun i => if position ≤ i ∧ i < position + n then some (src (i - position)) else b i

/-- The number of blocks that `drive_read` reads. -/
def Drive.available (d : Drive) (offset size : ℕ) : ℕ :=
  if offset ≥ d.blockCount then 0
  else if (offset + size) % 2 ^ 64 > d.blockCount then d.blockCount - offset
  else size

/-- `drive_read`, into a position of the buffer. -/
def driveRead (d : Drive) (offset : ℕ) (b : Buffer) (position size : ℕ) : ℕ × Buffer :=
  let out := d.available offset size
  (out, memCopy b position (out <<< 11) fun i => d.data (2048 * offset + i))

/-- `iso9660_vfs_node_t`, for a file -/
structure Node where
  dataOffset : ℕ
  dataLength : ℕ
  dataOffset_lt : dataOffset < 2 ^ 32
  dataLength_lt : dataLength < 2 ^ 32

/-- The last part of a file, from a block on. -/
def readTail (d : Drive) (node : Node) (blockIndex : ℕ) (b : Buffer) (position padding out : ℕ) :
    ℕ × Buffer :=
  if padding ≠ 0 then
    let (count, diskBuffer) :=
      driveRead d ((node.dataOffset + blockIndex) % 2 ^ 64) (fun _ => none) 0 1
    if count ≠ 1 then (0, b)
    else (out, memCopy b position padding fun i => (diskBuffer i).getD 0)
  else (out, b)

/-- The whole blocks, and the last part. -/
def readBlocks (d : Drive) (node : Node) (blockIndex : ℕ) (b : Buffer) (position size out : ℕ) :
    ℕ × Buffer :=
  let (count, b) := driveRead d ((node.dataOffset + blockIndex) % 2 ^ 64) b position (size >>> 11)
  if count ≠ size >>> 11 then (0, b)
  else readTail d node ((blockIndex + size >>> 11) % 2 ^ 64) b (position + (size &&& 0xfffff800))
    (size &&& 2047) out

/-- `_iso9660_read`, of a size that is cut at the end of the file. -/
def readCut (d : Drive) (node : Node) (offset size : ℕ) : ℕ × Buffer :=
  if size = 0 then (0, fun _ => none)
  else
    let blockIndex := offset >>> 11
    let padding := offset &&& 2047
    if padding ≠ 0 then
      let (count, diskBuffer) :=
        driveRead d ((node.dataOffset + blockIndex) % 2 ^ 64) (fun _ => none) 0 1
      if count ≠ 1 then (0, fun _ => none)
      else readBlocks d node (blockIndex + 1)
        (memCopy (fun _ => none) 0 (2048 - padding) fun i => (diskBuffer (padding + i)).getD 0)
        (2048 - padding) ((size + 2 ^ 64 - (2048 - padding)) % 2 ^ 64) size
    else readBlocks d node blockIndex (fun _ => none) 0 size size

def cutSize (node : Node) (offset size : ℕ) : ℕ :=
  if (size + offset) % 2 ^ 64 > node.dataLength then (node.dataLength + 2 ^ 64 - offset) % 2 ^ 64
  else size

/-- `_iso9660_read` -/
def iso9660Read (d : Drive) (node : Node) (offset size : ℕ) : ℕ × Buffer :=
  readCut d node offset (cutSize node offset size)

/-! ### What is promised -/

/-- The file is on the medium. -/
def OnMedium (d : Drive) (node : Node) : Prop :=
  2048 * node.dataOffset + node.dataLength ≤ 2048 * d.blockCount

/-- The bytes that are to be read: none at or behind the end. -/
def wanted (node : Node) (offset size : ℕ) : ℕ := min size (node.dataLength - offset)

/-- The bytes of the file from the offset on are written, and no others. -/
def Exact (d : Drive) (node : Node) (offset size : ℕ) : Prop :=
  iso9660Read d node offset size = (wanted node offset size, fun i =>
    if i < wanted node offset size then
      some (d.data (2048 * node.dataOffset + (offset + i)))
    else none)

/-- The block of the offset is behind the end of the drive. -/
def Behind (d : Drive) (node : Node) (offset : ℕ) : Prop :=
  d.blockCount ≤ node.dataOffset + offset / 2048

/-- A read that does not go wrong: it is of nothing, or starts with a block, or goes at least to the
end of the block that it starts in. -/
structure Regular (node : Node) (offset size : ℕ) : Prop where
  inside : offset ≤ node.dataLength
  small : size + offset < 2 ^ 64
  head : wanted node offset size = 0 ∨ offset % 2048 = 0 ∨
    2048 ≤ offset % 2048 + wanted node offset size

section

variable {d : Drive} {node : Node} {b : Buffer} {offset size position n m i : ℕ} {src : ℕ → UInt8}

/-! ### Copying -/

lemma memCopy_zero (b : Buffer) (position : ℕ) (src : ℕ → UInt8) :
    memCopy b position 0 src = b :=
  funext fun i => if_neg (by omega)

lemma memCopy_append (b : Buffer) (position n m : ℕ) (src : ℕ → UInt8) :
    memCopy (memCopy b position n src) (position + n) m (fun i => src (n + i)) =
    memCopy b position (n + m) src := by
  funext i
  rw [memCopy, memCopy, memCopy]
  split_ifs with h1 h2 h3 h3
  · rw [show n + (i - (position + n)) = i - position by omega]
  all_goals first | rfl | omega

/-! ### The drive -/

lemma available_of_le (h : offset + size ≤ d.blockCount) : d.available offset size = size := by
  have hle := d.blockCount_le
  rw [Drive.available]
  split_ifs
  all_goals omega

lemma available_behind (h : d.blockCount ≤ offset) : d.available offset size = 0 := by
  rw [Drive.available, if_pos h]

lemma driveRead_behind (h : d.blockCount ≤ offset) :
    driveRead d offset b position size = (0, b) := by
  rw [driveRead, available_behind h]
  exact Prod.ext rfl (memCopy_zero b position fun i => d.data (2048 * offset + i))

lemma driveRead_of_le (h : offset + size ≤ d.blockCount) : driveRead d offset b position size =
    (size, memCopy b position (2048 * size) fun i => d.data (2048 * offset + i)) := by
  rw [driveRead, available_of_le h, Nat.shiftLeft_eq, Nat.mul_comm]

lemma available_ne (d : Drive) (offset : ℕ) (h : 2 ^ 32 < size) (hsize : size < 2 ^ 53) :
    d.available offset size ≠ size := by
  have hle := d.blockCount_le
  rw [Drive.available]
  split_ifs
  all_goals omega

lemma available_pos (h : offset < d.blockCount) (hpos : 0 < size) :
    0 < d.available offset size := by
  have hle := d.blockCount_le
  rw [Drive.available]
  split_ifs
  all_goals omega

lemma memCopy_congr {src' : ℕ → UInt8} (h : ∀ i < n, src i = src' i) :
    memCopy b position n src = memCopy b position n src' := by
  funext i
  rw [memCopy, memCopy]
  split_ifs with hi
  · rw [h (i - position) (by omega)]
  · rfl

lemma memCopy_isSome (h : (b i).isSome) : (memCopy b position n src i).isSome := by
  rw [memCopy]
  split_ifs
  · rfl
  · exact h

/-! ### Blocks -/

lemma and_mask (h : n < 2 ^ 32) : n &&& 0xfffff800 = 2048 * (n / 2048) := by
  have hmask : 0xfffff800 = (2 ^ 21 - 1) <<< 11 := by decide
  rw [show 2048 * (n / 2048) = (n >>> 11) <<< 11 by
    rw [Nat.shiftRight_eq_div_pow, Nat.shiftLeft_eq, Nat.mul_comm], hmask]
  refine Nat.eq_of_testBit_eq fun i => ?_
  rw [Nat.testBit_and, Nat.testBit_shiftLeft, Nat.testBit_shiftLeft, Nat.testBit_two_pow_sub_one,
    Nat.testBit_shiftRight]
  by_cases hi : 11 ≤ i
  · by_cases hlarge : i - 11 < 21
    · simp [hi, hlarge]
    · rw [Nat.testBit_lt_two_pow (h.trans_le (Nat.pow_le_pow_right (by norm_num) (by omega)))]
      simp [hi, Nat.testBit_lt_two_pow (h.trans_le (Nat.pow_le_pow_right (by norm_num)
        (show 32 ≤ i by omega)))]
  · simp [hi]

lemma and_2047 (n : ℕ) : n &&& 2047 = n % 2048 := Nat.and_two_pow_sub_one_eq_mod n 11

lemma shiftRight_11 (n : ℕ) : n >>> 11 = n / 2048 := Nat.shiftRight_eq_div_pow n 11

variable {k out : ℕ}

lemma sector_eq (node : Node) (hk : k < 2 ^ 53) :
    (node.dataOffset + k) % 2 ^ 64 = node.dataOffset + k :=
  Nat.mod_eq_of_lt (by have := node.dataOffset_lt; omega)

lemma getD_memCopy (h : i < n) : (memCopy (fun _ => none) 0 n src i).getD 0 = src i := by
  rw [memCopy, if_pos (by omega)]
  rfl

lemma readBlocks_eq (hk : k < 2 ^ 52) (hn : n < 2 ^ 32)
    (h : 2048 * (node.dataOffset + k) + n ≤ 2048 * d.blockCount) :
    readBlocks d node k b position n out =
      (out, memCopy b position n fun i => d.data (2048 * (node.dataOffset + k) + i)) := by
  have hindex : (k + n / 2048) % 2 ^ 64 = k + n / 2048 := Nat.mod_eq_of_lt (by omega)
  rw [readBlocks, sector_eq node (by omega), shiftRight_11, driveRead_of_le (by omega)]
  dsimp only
  rw [if_neg (not_not.mpr rfl), readTail, and_mask hn, and_2047, hindex, sector_eq node (by omega)]
  obtain hzero | hpos := Nat.eq_zero_or_pos (n % 2048)
  · rw [if_neg (not_not.mpr hzero), show 2048 * (n / 2048) = n by omega]
  · rw [if_pos hpos.ne', driveRead_of_le (by omega)]
    dsimp only
    rw [if_neg (not_not.mpr rfl)]
    refine Prod.ext rfl ?_
    have htail : ∀ i < n % 2048, (memCopy (fun _ => none) 0 (2048 * 1)
        (fun i => d.data (2048 * (node.dataOffset + (k + n / 2048)) + i)) i).getD 0 =
          d.data (2048 * (node.dataOffset + k) + (2048 * (n / 2048) + i)) := by
      intro i hi
      rw [getD_memCopy (by omega)]
      refine congrArg d.data ?_
      omega
    dsimp only
    rw [memCopy_congr htail,
      memCopy_append b position _ _ fun i => d.data (2048 * (node.dataOffset + k) + i),
      Nat.div_add_mod]

lemma readBlocks_behind (hk : k < 2 ^ 53) (hn : n ≠ 0) (h : d.blockCount ≤ node.dataOffset + k) :
    readBlocks d node k b position n out = (0, b) := by
  rw [readBlocks, sector_eq node hk, driveRead_behind h]
  dsimp only
  split_ifs with hcount
  · rfl
  · rw [shiftRight_11] at hcount
    have hindex : (k + n >>> 11) % 2 ^ 64 = k := by
      rw [shiftRight_11]
      omega
    rw [readTail, and_2047, if_pos (by omega), hindex, sector_eq node hk, driveRead_behind h]
    rfl

lemma readTail_isSome {padding : ℕ} (h : (b i).isSome) :
    ((readTail d node k b position padding out).2 i).isSome := by
  rw [readTail]
  split_ifs
  · rw [driveRead]
    dsimp only
    split_ifs
    · exact h
    · dsimp only
      exact memCopy_isSome h
  · exact h

lemma readBlocks_isSome (h : (b i).isSome) :
    ((readBlocks d node k b position n out).2 i).isSome := by
  rw [readBlocks, driveRead]
  dsimp only
  split_ifs
  · dsimp only
    exact memCopy_isSome h
  · exact readTail_isSome (memCopy_isSome h)

lemma readBlocks_first (hk : node.dataOffset + k < d.blockCount) (hn : n ≠ 0) (hlt : n < 2 ^ 64) :
    ((readBlocks d node k b 0 n out).2 0).isSome := by
  have hle := d.blockCount_le
  have hoffset := node.dataOffset_lt
  rw [readBlocks, sector_eq node (by omega), shiftRight_11]
  obtain hzero | hpos := Nat.eq_zero_or_pos (n / 2048)
  · have hindex : (k + 0) % 2 ^ 64 = k := Nat.mod_eq_of_lt (by omega)
    rw [hzero, driveRead_of_le (by omega)]
    dsimp only
    rw [if_neg (not_not.mpr rfl), readTail, and_2047, if_pos (by omega), hindex,
      sector_eq node (by omega), driveRead_of_le (by omega), and_mask (by omega), hzero]
    dsimp only
    rw [if_neg (not_not.mpr rfl)]
    dsimp only
    rw [memCopy, if_pos ⟨by omega, by omega⟩]
    rfl
  · have hread := available_pos hk hpos
    have hfirst (src : ℕ → UInt8) : (memCopy b 0
        (d.available (node.dataOffset + k) (n / 2048) <<< 11) src 0).isSome := by
      rw [Nat.shiftLeft_eq, memCopy, if_pos ⟨le_rfl, by omega⟩]
      rfl
    rw [driveRead]
    dsimp only
    split_ifs
    · dsimp only
      exact hfirst _
    · exact readTail_isSome (hfirst _)

lemma readBlocks_large (h : 2 ^ 44 < n) (hlt : n < 2 ^ 64) :
    (readBlocks d node k b position n out).1 = 0 := by
  have hne : d.available ((node.dataOffset + k) % 2 ^ 64) (n / 2048) ≠ n / 2048 :=
    available_ne d _ (by omega) (by omega)
  rw [readBlocks, driveRead, shiftRight_11]
  dsimp only
  rw [if_pos hne]

/-! ### The read -/

lemma memCopy_file (n : ℕ) : memCopy (fun _ => none) 0 n src =
    fun i => if i < n then some (src i) else none := by
  funext i
  rw [memCopy]
  simp only [Nat.zero_le, true_and, Nat.zero_add, Nat.sub_zero]

lemma readCut_zero : readCut d node offset 0 = (0, fun _ => none) := if_pos rfl

lemma readCut_whole (hn : n ≠ 0) (hpadding : offset % 2048 = 0) :
    readCut d node offset n = readBlocks d node (offset / 2048) (fun _ => none) 0 n n := by
  rw [readCut, if_neg hn, shiftRight_11, and_2047]
  dsimp only
  rw [if_neg (not_not.mpr hpadding)]

lemma readCut_behind (h : Behind d node offset) (hoffset : offset < 2 ^ 64) :
    readCut d node offset n = (0, fun _ => none) := by
  obtain rfl | hn := eq_or_ne n 0
  · exact readCut_zero
  · obtain hpadding | hpadding := eq_or_ne (offset % 2048) 0
    · rw [readCut_whole hn hpadding]
      exact readBlocks_behind (by omega) hn h
    · rw [readCut, if_neg hn, shiftRight_11, and_2047]
      dsimp only
      rw [if_pos hpadding, sector_eq node (by omega), driveRead_behind h]
      rfl

lemma readCut_head (hn : n ≠ 0) (hpadding : offset % 2048 ≠ 0) (hoffset : offset < 2 ^ 64)
    (h : node.dataOffset + offset / 2048 < d.blockCount) :
    readCut d node offset n = readBlocks d node (offset / 2048 + 1)
      (memCopy (fun _ => none) 0 (2048 - offset % 2048) fun i =>
        d.data (2048 * node.dataOffset + (offset + i)))
      (2048 - offset % 2048) ((n + 2 ^ 64 - (2048 - offset % 2048)) % 2 ^ 64) n := by
  rw [readCut, if_neg hn, shiftRight_11, and_2047]
  dsimp only
  rw [if_pos hpadding, sector_eq node (by omega), driveRead_of_le h]
  dsimp only
  rw [if_neg (not_not.mpr rfl)]
  have hhead : ∀ i < 2048 - offset % 2048, (memCopy (fun _ => none) 0 (2048 * 1)
      (fun i => d.data (2048 * (node.dataOffset + offset / 2048) + i)) (offset % 2048 + i)).getD 0 =
        d.data (2048 * node.dataOffset + (offset + i)) := by
    intro i hi
    rw [getD_memCopy (by omega)]
    refine congrArg d.data ?_
    omega
  rw [memCopy_congr hhead]

lemma readCut_eq (honmedium : OnMedium d node) (hinside : offset + n ≤ node.dataLength)
    (hhead : n = 0 ∨ offset % 2048 = 0 ∨ 2048 ≤ offset % 2048 + n) :
    readCut d node offset n = (n, fun i =>
      if i < n then some (d.data (2048 * node.dataOffset + (offset + i))) else none) := by
  have hlength := node.dataLength_lt
  rw [OnMedium] at honmedium
  obtain rfl | hn := eq_or_ne n 0
  · rw [readCut_zero]
    simp only [Nat.not_lt_zero, if_false]
  obtain hpadding | hpadding := eq_or_ne (offset % 2048) 0
  · rw [readCut_whole hn hpadding, readBlocks_eq (by omega) (by omega) (by omega), memCopy_file]
    have hoffset (i : ℕ) : 2048 * (node.dataOffset + offset / 2048) + i =
        2048 * node.dataOffset + (offset + i) := by omega
    simp only [hoffset]
  · have hrest : (n + 2 ^ 64 - (2048 - offset % 2048)) % 2 ^ 64 = n - (2048 - offset % 2048) := by
      omega
    have hoffset (i : ℕ) : 2048 * (node.dataOffset + (offset / 2048 + 1)) + i =
        2048 * node.dataOffset + (offset + (2048 - offset % 2048 + i)) := by omega
    rw [readCut_head hn hpadding (by omega) (by omega), hrest,
      readBlocks_eq (by omega) (by omega) (by omega)]
    simp only [hoffset]
    have happend := memCopy_append (fun _ => none) 0 (2048 - offset % 2048)
      (n - (2048 - offset % 2048)) fun i => d.data (2048 * node.dataOffset + (offset + i))
    rw [Nat.zero_add, show 2048 - offset % 2048 + (n - (2048 - offset % 2048)) = n by omega,
      memCopy_file n] at happend
    exact Prod.ext rfl happend

lemma readCut_first (hn : n ≠ 0) (hlt : n < 2 ^ 64) (hoffset : offset < 2 ^ 64)
    (h : node.dataOffset + offset / 2048 < d.blockCount) :
    ((readCut d node offset n).2 0).isSome := by
  obtain hpadding | hpadding := eq_or_ne (offset % 2048) 0
  · rw [readCut_whole hn hpadding]
    exact readBlocks_first h hn hlt
  · rw [readCut_head hn hpadding hoffset h]
    refine readBlocks_isSome ?_
    rw [memCopy, if_pos (by omega)]
    rfl

lemma readCut_short (hn : n ≠ 0) (hpadding : offset % 2048 ≠ 0) (hoffset : offset < 2 ^ 64)
    (h : node.dataOffset + offset / 2048 < d.blockCount) (hshort : offset % 2048 + n < 2048) :
    ((readCut d node offset n).2 n).isSome := by
  rw [readCut_head hn hpadding hoffset h]
  refine readBlocks_isSome ?_
  rw [memCopy, if_pos (by omega)]
  rfl

lemma readCut_large (hlarge : 2 ^ 45 < n) (hlt : n < 2 ^ 64) :
    (readCut d node offset n).1 = 0 := by
  obtain hpadding | hpadding := eq_or_ne (offset % 2048) 0
  · rw [readCut_whole (by omega) hpadding]
    exact readBlocks_large (by omega) hlt
  · rw [readCut, if_neg (by omega), and_2047]
    dsimp only
    rw [if_pos hpadding]
    split_ifs
    · rfl
    · exact readBlocks_large (by omega) (by omega)

end

/-- **Reads.** The requested bytes are read exactly when the offset is in a block behind the drive,
or the read is of nothing, starts with a block or goes at least to the end of its first block. -/
theorem readsExactly_iff {d : Drive} {node : Node} {offset size : ℕ} (honmedium : OnMedium d node)
    (hoffset : offset < 2 ^ 64) (hsize : size < 2 ^ 64) :
    Exact d node offset size ↔ Behind d node offset ∨ Regular node offset size := by
  have hlength := node.dataLength_lt
  rw [Exact, iso9660Read]
  by_cases hbehind : Behind d node offset
  · have hzero : wanted node offset size = 0 := by
      rw [OnMedium] at honmedium
      rw [Behind] at hbehind
      rw [wanted]
      omega
    rw [readCut_behind hbehind hoffset, hzero]
    refine iff_of_true ?_ (.inl hbehind)
    simp only [Nat.not_lt_zero, if_false]
  · have hblock : node.dataOffset + offset / 2048 < d.blockCount := not_le.mp hbehind
    rw [or_iff_right hbehind]
    by_cases hregular : offset ≤ node.dataLength ∧ size + offset < 2 ^ 64
    · obtain ⟨hinside, hsmall⟩ := hregular
      have hcut : cutSize node offset size = wanted node offset size := by
        rw [cutSize, wanted, Nat.mod_eq_of_lt hsmall]
        split_ifs
        all_goals omega
      have hle : offset + wanted node offset size ≤ node.dataLength := by
        rw [wanted]
        omega
      rw [hcut]
      constructor
      · intro h
        refine ⟨hinside, hsmall, ?_⟩
        by_contra hhead
        rw [not_or, not_or, not_le] at hhead
        have hshort := readCut_short hhead.1 hhead.2.1 hoffset hblock hhead.2.2
        rw [h] at hshort
        dsimp only at hshort
        rw [if_neg (lt_irrefl _)] at hshort
        cases hshort
      · exact fun h => readCut_eq honmedium hle h.head
    · have hcut : cutSize node offset size ≠ 0 ∧ cutSize node offset size < 2 ^ 64 := by
        rw [cutSize]
        split_ifs
        all_goals omega
      refine iff_of_false (fun h => ?_) fun h => hregular ⟨h.inside, h.small⟩
      have hfirst := readCut_first hcut.1 hcut.2 hoffset hblock
      rw [h] at hfirst
      dsimp only at hfirst
      split_ifs at hfirst with hpos
      · -- There is something to read, and the sum of the size and the offset is too large.
        have hlarge : 2 ^ 45 < cutSize node offset size := by
          rw [wanted] at hpos
          rw [cutSize]
          split_ifs
          all_goals omega
        have hreturned := @readCut_large d node offset _ hlarge hcut.2
        rw [h] at hreturned
        dsimp only at hreturned
        omega
      · cases hfirst

/-- A drive of two blocks of ones. -/
def ones : Drive := ⟨2, fun _ => 1, by norm_num⟩

/-- A file that is the second block. -/
def second : Node := ⟨1, 2048, by norm_num, by norm_num⟩

/-- Three bytes are wanted, and the rest of the block is written. -/
theorem exact_fails : ¬Exact ones second 1 3 := by
  intro h
  have hshort : ((iso9660Read ones second 1 3).2 3).isSome :=
    @readCut_short ones second 1 3 (by decide) (by decide) (by decide) (by decide) (by decide)
  rw [h] at hshort
  exact absurd hshort (by decide)

theorem readsExactly_iff_second :
    Exact ones second 5 4000 ↔ Behind ones second 5 ∨ Regular second 5 4000 :=
  readsExactly_iff (by unfold OnMedium; decide) (by norm_num) (by norm_num)

end KernelModel.Iso9660
