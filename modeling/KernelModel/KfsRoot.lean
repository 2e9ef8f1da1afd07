import KernelModel.KfsDrive
import Mathlib.Data.List.GetD

/-!
The root block of a KFS2 volume, its checksum and its place in memory.

All fields of the root block but the last three begin at a multiple of eight bytes; these
three share the last word, which ends with the checksum of everything before it.
-/

namespace KernelModel.Kfs

/-! ### The checksum -/

/-- `_kfs2_crc_table` -/
def kfs2CrcTable : List ℕ := [
    0x00000000, 0x77073096, 0xee0e612c, 0x990951ba, 0x076dc419, 0x706af48f,
    0xe963a535, 0x9e6495a3, 0x0edb8832, 0x79dcb8a4, 0xe0d5e91e, 0x97d2d988,
    0x09b64c2b, 0x7eb17cbd, 0xe7b82d07, 0x90bf1d91, 0x1db71064, 0x6ab020f2,
    0xf3b97148, 0x84be41de, 0x1adad47d, 0x6ddde4eb, 0xf4d4b551, 0x83d385c7,
    0x136c9856, 0x646ba8c0, 0xfd62f97a, 0x8a65c9ec, 0x14015c4f, 0x63066cd9,
    0xfa0f3d63, 0x8d080df5, 0x3b6e20c8, 0x4c69105e, 0xd56041e4, 0xa2677172,
    0x3c03e4d1, 0x4b04d447, 0xd20d85fd, 0xa50ab56b, 0x35b5a8fa, 0x42b2986c,
    0xdbbbc9d6, 0xacbcf940, 0x32d86ce3, 0x45df5c75, 0xdcd60dcf, 0xabd13d59,
    0x26d930ac, 0x51de003a, 0xc8d75180, 0xbfd06116, 0x21b4f4b5, 0x56b3c423,
    0xcfba9599, 0xb8bda50f, 0x2802b89e, 0x5f058808, 0xc60cd9b2, 0xb10be924,
    0x2f6f7c87, 0x58684c11, 0xc1611dab, 0xb6662d3d, 0x76dc4190, 0x01db7106,
    0x98d220bc, 0xefd5102a, 0x71b18589, 0x06b6b51f, 0x9fbfe4a5, 0xe8b8d433,
    0x7807c9a2, 0x0f00f934, 0x9609a88e, 0xe10e9818, 0x7f6a0dbb, 0x086d3d2d,
    0x91646c97, 0xe6635c01, 0x6b6b51f4, 0x1c6c6162, 0x856530d8, 0xf262004e,
    0x6c0695ed, 0x1b01a57b, 0x8208f4c1, 0xf50fc457, 0x65b0d9c6, 0x12b7e950,
    0x8bbeb8ea, 0xfcb9887c, 0x62dd1ddf, 0x15da2d49, 0x8cd37cf3, 0xfbd44c65,
    0x4db26158, 0x3ab551ce, 0xa3bc0074, 0xd4bb30e2, 0x4adfa541, 0x3dd895d7,
    0xa4d1c46d, 0xd3d6f4fb, 0x4369e96a, 0x346ed9fc, 0xad678846, 0xda60b8d0,
    0x44042d73, 0x33031de5, 0xaa0a4c5f, 0xdd0d7cc9, 0x5005713c, 0x270241aa,
    0xbe0b1010, 0xc90c2086, 0x5768b525, 0x206f85b3, 0xb966d409, 0xce61e49f,
    0x5edef90e, 0x29d9c998, 0xb0d09822, 0xc7d7a8b4, 0x59b33d17, 0x2eb40d81,
    0xb7bd5c3b, 0xc0ba6cad, 0xedb88320, 0x9abfb3b6, 0x03b6e20c, 0x74b1d29a,
    0xead54739, 0x9dd277af, 0x04db2615, 0x73dc1683, 0xe3630b12, 0x94643b84,
    0x0d6d6a3e, 0x7a6a5aa8, 0xe40ecf0b, 0x9309ff9d, 0x0a00ae27, 0x7d079eb1,
    0xf00f9344, 0x8708a3d2, 0x1e01f268, 0x6906c2fe, 0xf762575d, 0x806567cb,
    0x196c3671, 0x6e6b06e7, 0xfed41b76, 0x89d32be0, 0x10da7a5a, 0x67dd4acc,
    0xf9b9df6f, 0x8ebeeff9, 0x17b7be43, 0x60b08ed5, 0xd6d6a3e8, 0xa1d1937e,
    0x38d8c2c4, 0x4fdff252, 0xd1bb67f1, 0xa6bc5767, 0x3fb506dd, 0x48b2364b,
    0xd80d2bda, 0xaf0a1b4c, 0x36034af6, 0x41047a60, 0xdf60efc3, 0xa867df55,
    0x316e8eef, 0x4669be79, 0xcb61b38c, 0xbc66831a, 0x256fd2a0, 0x5268e236,
    0xcc0c7795, 0xbb0b4703, 0x220216b9, 0x5505262f, 0xc5ba3bbe, 0xb2bd0b28,
    0x2bb45a92, 0x5cb36a04, 0xc2d7ffa7, 0xb5d0cf31, 0x2cd99e8b, 0x5bdeae1d,
    0x9b64c2b0, 0xec63f226, 0x756aa39c, 0x026d930a, 0x9c0906a9, 0xeb0e363f,
    0x72076785, 0x05005713, 0x95bf4a82, 0xe2b87a14, 0x7bb12bae, 0x0cb61b38,
    0x92d28e9b, 0xe5d5be0d, 0x7cdcefb7, 0x0bdbdf21, 0x86d3d2d4, 0xf1d4e242,
    0x68ddb3f8, 0x1fda836e, 0x81be16cd, 0xf6b9265b, 0x6fb077e1, 0x18b74777,
    0x88085ae6, 0xff0f6a70, 0x66063bca, 0x11010b5c, 0x8f659eff, 0xf862ae69,
    0x616bffd3, 0x166ccf45, 0xa00ae278, 0xd70dd2ee, 0x4e048354, 0x3903b3c2,
    0xa7672661, 0xd06016f7, 0x4969474d, 0x3e6e77db, 0xaed16a4a, 0xd9d65adc,
    0x40df0b66, 0x37d83bf0, 0xa9bcae53, 0xdebb9ec5, 0x47b2cf7f, 0x30b5ffe9,
    0xbdbdf21c, 0xcabac28a, 0x53b39330, 0x24b4a3a6, 0xbad03605, 0xcdd70693,
    0x54de5729, 0x23d967bf, 0xb3667a2e, 0xc4614ab8, 0x5d681b02, 0x2a6f2b94,
    0xb40bbe37, 0xc30c8ea1, 0x5a05df1b, 0x2d02ef8d]

/-- Byte `i` of memory that is seen as words. -/
def byteAt (data : Buffer) (i : ℕ) : ℕ := data (i / 8) / 2 ^ (8 * (i % 8)) % 256

/-- The value of `out` after `n` rounds of the loop of `kfs2_calculate_crc`. -/
def crcRounds (data : Buffer) : ℕ → ℕ
  | 0 => 0xffffffff
  | n + 1 =>
    let out := crcRounds data n
    kfs2CrcTable.getD ((out &&& 0xff) ^^^ byteAt data n) 0 ^^^ (out >>> 8)

def kfs2CalculateCrc (data : Buffer) (size : ℕ) : ℕ := 0xffffffff ^^^ crcRounds data size

/-- Writes the checksum to the last four bytes; `size` is a multiple of eight. -/
def kfs2InsertCrc (data : Buffer) (size : ℕ) : Buffer :=
  Function.update data (size / 8 - 1)
    (data (size / 8 - 1) % 2 ^ 32 + kfs2CalculateCrc data (size - 4) * 2 ^ 32)

def kfs2VerifyCrc (data : Buffer) (size : ℕ) : Bool :=
  kfs2CalculateCrc data (size - 4) == data (size / 8 - 1) / 2 ^ 32 % 2 ^ 32

lemma kfs2CrcTable_lt (i : ℕ) : kfs2CrcTable.getD i 0 < 2 ^ 32 := by
  have h : ∀ e ∈ kfs2CrcTable, e < 2 ^ 32 := by decide +kernel
  by_cases hi : i < kfs2CrcTable.length
  · rw [List.getD_eq_getElem _ _ hi]
    exact h _ (List.getElem_mem hi)
  · rw [List.getD_eq_default _ _ (by omega)]
    norm_num

lemma crcRounds_lt (data : Buffer) : ∀ n, crcRounds data n < 2 ^ 32
  | 0 => by norm_num [crcRounds]
  | n + 1 => by
    have ih := crcRounds_lt data n
    rw [crcRounds]
    refine Nat.xor_lt_two_pow (kfs2CrcTable_lt _) ?_
    rw [Nat.shiftRight_eq_div_pow]
    omega

lemma kfs2CalculateCrc_lt (data : Buffer) (size : ℕ) : kfs2CalculateCrc data size < 2 ^ 32 :=
  Nat.xor_lt_two_pow (by norm_num) (crcRounds_lt data size)

lemma kfs2CalculateCrc_congr {data data' : Buffer} {size : ℕ}
    (h : ∀ i < size, byteAt data i = byteAt data' i) :
    kfs2CalculateCrc data size = kfs2CalculateCrc data' size := by
  have hr : ∀ n ≤ size, crcRounds data n = crcRounds data' n := by
    intro n
    induction n with
    | zero => intro _; rfl
    | succ n ih =>
      intro hn
      rw [crcRounds, crcRounds, ih (by omega), h n (by omega)]
  rw [kfs2CalculateCrc, kfs2CalculateCrc, hr size le_rfl]

lemma byteAt_kfs2InsertCrc (data : Buffer) {n i : ℕ} (hi : i < 8 * (n + 1) - 4) :
    byteAt (kfs2InsertCrc data (8 * (n + 1))) i = byteAt data i := by
  have hn : 8 * (n + 1) / 8 - 1 = n := by omega
  by_cases hin : i / 8 = n
  · -- one of the four bytes that share a word with the checksum
    have hpow : 2 ^ 32 = 2 ^ (8 * (i % 8)) * 2 ^ (32 - 8 * (i % 8)) := by
      rw [← pow_add]
      congr 1
      omega
    have hdvd : 256 ∣ 2 ^ (32 - 8 * (i % 8)) := by
      rw [show 256 = 2 ^ 8 by norm_num]
      exact pow_dvd_pow 2 (by omega)
    obtain ⟨q, hq⟩ := hdvd
    have hpos : 0 < 2 ^ (8 * (i % 8)) := Nat.two_pow_pos _
    rw [byteAt, byteAt, kfs2InsertCrc, hn, hin, Function.update_self]
    have hdm := Nat.div_add_mod (data n) (2 ^ 32)
    generalize kfs2CalculateCrc data (8 * (n + 1) - 4) = crc
    generalize data n % 2 ^ 32 = low at hdm ⊢
    generalize data n / 2 ^ 32 = high at hdm
    have hl : (low + crc * 2 ^ 32) / 2 ^ (8 * (i % 8))
        = low / 2 ^ (8 * (i % 8)) + 256 * (crc * q) := by
      rw [hpow, hq, show low + crc * (2 ^ (8 * (i % 8)) * (256 * q))
        = low + 2 ^ (8 * (i % 8)) * (256 * (crc * q)) by ring, Nat.add_mul_div_left _ _ hpos]
    have hr : data n / 2 ^ (8 * (i % 8)) = low / 2 ^ (8 * (i % 8)) + 256 * (high * q) := by
      rw [← hdm, hpow, hq, show 2 ^ (8 * (i % 8)) * (256 * q) * high + low
        = low + 2 ^ (8 * (i % 8)) * (256 * (high * q)) by ring, Nat.add_mul_div_left _ _ hpos]
    rw [hl, hr, Nat.add_mul_mod_self_left, Nat.add_mul_mod_self_left]
  · rw [byteAt, byteAt, kfs2InsertCrc, hn, Function.update_of_ne hin]

/-- What `kfs2_insert_crc` has written, `kfs2_verify_crc` accepts. -/
theorem kfs2VerifyCrc_kfs2InsertCrc (data : Buffer) (n : ℕ) :
    kfs2VerifyCrc (kfs2InsertCrc data (8 * (n + 1))) (8 * (n + 1)) := by
  have hcrc : kfs2CalculateCrc (kfs2InsertCrc data (8 * (n + 1))) (8 * (n + 1) - 4)
      = kfs2CalculateCrc data (8 * (n + 1) - 4) :=
    kfs2CalculateCrc_congr fun i hi => byteAt_kfs2InsertCrc data hi
  have hn : 8 * (n + 1) / 8 - 1 = n := by omega
  have hlt := kfs2CalculateCrc_lt data (8 * (n + 1) - 4)
  rw [kfs2VerifyCrc, hcrc, kfs2InsertCrc, hn, Function.update_self, beq_iff_eq]
  omega

/-- The checksum of a node or of the root block does not depend on other memory. -/
lemma kfs2VerifyCrc_congr {data data' : Buffer} {n : ℕ} (h : ∀ r < n + 1, data r = data' r) :
    kfs2VerifyCrc data (8 * (n + 1)) = kfs2VerifyCrc data' (8 * (n + 1)) := by
  have hcrc : kfs2CalculateCrc data (8 * (n + 1) - 4) =
      kfs2CalculateCrc data' (8 * (n + 1) - 4) := by
    refine kfs2CalculateCrc_congr fun i hi => ?_
    rw [byteAt, byteAt, h (i / 8) (by omega)]
  rw [kfs2VerifyCrc, kfs2VerifyCrc, hcrc, show 8 * (n + 1) / 8 - 1 = n by omega, h n (by omega)]

/-! ### The root block -/

def kfs2RootBlockSignature : ℕ := 0x544f4f523253464b

/-- `kfs2_root_block_t`, without the identifier, the key and the checksum. -/
structure RootBlock where
  signature : ℕ
  blockCount : ℕ
  inodeCount : ℕ
  dataBlockCount : ℕ
  firstInodeBlock : ℕ
  firstDataBlock : ℕ
  inodeAllocationBitmapOffsets : ℕ → ℕ
  dataBlockAllocationBitmapOffsets : ℕ → ℕ
  inodeAllocationBitmapHighestLevelLength : ℕ
  dataBlockAllocationBitmapHighestLevelLength : ℕ

/-- `sizeof(kfs2_root_block_t)` -/
def sizeofRootBlock : ℕ := 8 * (26 + 1)

/-- The root block in memory. The identifier and the key, which formatting leaves as they are
in a fresh page, take words `1` to `10`. -/
def RootBlock.toBuffer (b : RootBlock) : Buffer
  | 0 => b.signature
  | 11 => b.blockCount
  | 12 => b.inodeCount
  | 13 => b.dataBlockCount
  | 14 => b.firstInodeBlock
  | 15 => b.firstDataBlock
  | 16 => b.inodeAllocationBitmapOffsets 0
  | 17 => b.inodeAllocationBitmapOffsets 1
  | 18 => b.inodeAllocationBitmapOffsets 2
  | 19 => b.inodeAllocationBitmapOffsets 3
  | 20 => b.inodeAllocationBitmapOffsets 4
  | 21 => b.dataBlockAllocationBitmapOffsets 0
  | 22 => b.dataBlockAllocationBitmapOffsets 1
  | 23 => b.dataBlockAllocationBitmapOffsets 2
  | 24 => b.dataBlockAllocationBitmapOffsets 3
  | 25 => b.dataBlockAllocationBitmapOffsets 4
  | 26 => b.inodeAllocationBitmapHighestLevelLength
      + b.dataBlockAllocationBitmapHighestLevelLength * 2 ^ 16
  | _ => 0

def RootBlock.ofBuffer (data : Buffer) : RootBlock where
  signature := data 0
  blockCount := data 11
  inodeCount := data 12
  dataBlockCount := data 13
  firstInodeBlock := data 14
  firstDataBlock := data 15
  inodeAllocationBitmapOffsets := fun k => data (16 + k)
  dataBlockAllocationBitmapOffsets := fun k => data (21 + k)
  inodeAllocationBitmapHighestLevelLength := data 26 % 2 ^ 16
  dataBlockAllocationBitmapHighestLevelLength := data 26 / 2 ^ 16 % 2 ^ 16

/-- Two root blocks with the same fields. -/
structure RootBlock.Same (b b' : RootBlock) : Prop where
  signature : b.signature = b'.signature
  inodeCount : b.inodeCount = b'.inodeCount
  dataBlockCount : b.dataBlockCount = b'.dataBlockCount
  inodeOffsets : ∀ k < 5, b.inodeAllocationBitmapOffsets k = b'.inodeAllocationBitmapOffsets k
  dataBlockOffsets : ∀ k < 5,
    b.dataBlockAllocationBitmapOffsets k = b'.dataBlockAllocationBitmapOffsets k
  inodeLength : b.inodeAllocationBitmapHighestLevelLength
    = b'.inodeAllocationBitmapHighestLevelLength
  dataBlockLength : b.dataBlockAllocationBitmapHighestLevelLength
    = b'.dataBlockAllocationBitmapHighestLevelLength

/-- **The root block survives the drive.** Memory that agrees with a written root block is
accepted and gives its fields back. -/
theorem RootBlock.ofBuffer_toBuffer {b : RootBlock} {data : Buffer}
    (hi : b.inodeAllocationBitmapHighestLevelLength < 2 ^ 16)
    (hd : b.dataBlockAllocationBitmapHighestLevelLength < 2 ^ 16)
    (h : ∀ r < 27, data r = kfs2InsertCrc b.toBuffer sizeofRootBlock r) :
    kfs2VerifyCrc data sizeofRootBlock ∧ (ofBuffer data).Same b := by
  have hlow : ∀ r < 26, data r = b.toBuffer r := by
    intro r hr
    rw [h r (by omega), kfs2InsertCrc, Function.update_of_ne (by rw [sizeofRootBlock]; omega)]
  have hlast : data 26 % 2 ^ 32 = b.toBuffer 26 := by
    have hlt : b.toBuffer 26 < 2 ^ 32 := by
      simp only [toBuffer]
      omega
    rw [h 26 (by omega), kfs2InsertCrc, sizeofRootBlock, show 8 * (26 + 1) / 8 - 1 = 26 by norm_num,
      Function.update_self]
    omega
  simp only [toBuffer] at hlast
  refine ⟨?_, hlow 0 (by omega), hlow 12 (by omega), hlow 13 (by omega), fun k hk => ?_,
    fun k hk => ?_, ?_, ?_⟩
  · rw [sizeofRootBlock, kfs2VerifyCrc_congr h]
    exact kfs2VerifyCrc_kfs2InsertCrc b.toBuffer 26
  · refine (hlow (16 + k) (by omega)).trans ?_
    interval_cases k <;> rfl
  · refine (hlow (21 + k) (by omega)).trans ?_
    interval_cases k <;> rfl
  · simp only [ofBuffer]
    omega
  · simp only [ofBuffer]
    omega

end KernelModel.Kfs
