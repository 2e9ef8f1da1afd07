import KernelModel.Gpt
import Mathlib.Data.List.GetD

/-!
Formatting a drive with the GPT module, and reading the table back.

Formatting writes the entries at both ends of the drive and the header in block `1`, twice:
the second header, meant for the last block, replaces the first.
-/

namespace KernelModel.Gpt

open LittleEndian

/-! ### Fields of the header -/

lemma Field.disjoint {f g : Field} (h : f ≠ g) :
    g.offset + g.size ≤ f.offset ∨ f.offset + f.size ≤ g.offset := by
  cases f <;> cases g <;> first | exact absurd rfl h | decide

lemma Field.le_sizeof (f : Field) : f.offset + f.size ≤ sizeofHeader := by
  cases f <;> decide

lemma Field.not_guid (f : Field) : f.offset + f.size ≤ 56 ∨ 72 ≤ f.offset := by
  cases f <;> decide

namespace Buffer

variable {h h' : Buffer} {f g : Field} {v w : ℕ}

@[simp] lemma get_set_self : (h.set f v).get f = v % 256 ^ f.size := get_put_self _ _ _ _

lemma get_set_of_ne (hne : f ≠ g) : (h.set f v).get g = h.get g :=
  get_put_of_disjoint (Field.disjoint hne)

@[simp] lemma set_set : (h.set f v).set f w = h.set f w := put_put w

@[simp] lemma get_setGuid (guid : Buffer) : (setGuid h guid).get f = h.get f := by
  refine get_congr fun i h1 h2 => if_neg ?_
  have := f.not_guid
  omega

lemma get_congr_header (heq : ∀ i < sizeofHeader, h i = h' i) : h.get f = h'.get f :=
  get_congr fun i _ h2 => heq i (lt_of_lt_of_le h2 f.le_sizeof)

lemma set_congr_header (heq : ∀ i < sizeofHeader, h i = h' i) :
    ∀ i < sizeofHeader, h.set f v i = h'.set f v i := by
  intro i hi
  unfold set put
  rw [heq i hi]

end Buffer

/-! ### The checksum -/

/-- The numbers of a list are distinct, and none of them is a bit that is set. -/
def distinctFrom (bits : ℕ) : List ℕ → Bool
  | [] => true
  | x :: l => !bits.testBit x && distinctFrom (bits ||| 1 <<< x) l

lemma distinctFrom_nodup {bits : ℕ} {l : List ℕ} (h : distinctFrom bits l = true) :
    l.Nodup ∧ ∀ x ∈ l, bits.testBit x = false := by
  induction l generalizing bits with
  | nil => exact ⟨List.nodup_nil, nofun⟩
  | cons x l ih =>
    rw [distinctFrom, Bool.and_eq_true, Bool.not_eq_true'] at h
    obtain ⟨hnodup, hbits⟩ := ih h.2
    have hnew : ∀ y ∈ l, bits.testBit y = false ∧ y ≠ x := by
      intro y hy
      have hor := hbits y hy
      rw [Nat.testBit_or, Bool.or_eq_false_iff, Nat.one_shiftLeft] at hor
      refine ⟨hor.1, ?_⟩
      rintro rfl
      rw [Nat.testBit_two_pow_self] at hor
      cases hor.2
    refine ⟨List.nodup_cons.mpr ⟨fun hx => (hnew x hx).2 rfl, hnodup⟩, ?_⟩
    intro y hy
    rcases List.mem_cons.mp hy with rfl | hy
    · exact h.1
    · exact (hnew y hy).1

lemma gptCrcTable_distinct : Crc.Distinct gptCrcTable := by
  have hdistinct : distinctFrom 0 (gptCrcWords.map fun w => w % 2 ^ 32 / 2 ^ 24) = true := by
    decide +kernel
  have hnodup := (distinctFrom_nodup hdistinct).1
  have hlen : gptCrcWords.length = 256 := by decide +kernel
  have htop : ∀ i, (gptCrcTable i >>> 24).toNat = gptCrcWords.getD i 0 % 2 ^ 32 / 2 ^ 24 := by
    intro i
    rw [gptCrcTable, BitVec.toNat_ushiftRight, BitVec.toNat_ofNat, Nat.shiftRight_eq_div_pow]
  intro i hi j hj heq
  have hnat := congrArg BitVec.toNat heq
  rw [htop, htop, List.getD_eq_getElem _ _ (by omega), List.getD_eq_getElem _ _ (by omega)] at hnat
  have hi' : i < (gptCrcWords.map fun w => w % 2 ^ 32 / 2 ^ 24).length := by
    rwa [List.length_map, hlen]
  have hj' : j < (gptCrcWords.map fun w => w % 2 ^ 32 / 2 ^ 24).length := by
    rwa [List.length_map, hlen]
  refine (@List.Nodup.getElem_inj_iff _ _ hnodup i hi' j hj').mp ?_
  rwa [List.getElem_map, List.getElem_map]

lemma calculateCrc_congr {x y : Buffer} {size : ℕ} (h : ∀ i < size, x i = y i) :
    calculateCrc x size = calculateCrc y size := by
  have hmap : (List.range (size % 2 ^ 32)).map x = (List.range (size % 2 ^ 32)).map y := by
    refine List.map_congr_left fun i hi => h i ?_
    exact lt_of_lt_of_le (List.mem_range.mp hi) (Nat.mod_le _ _)
  rw [calculateCrc, calculateCrc, hmap]

lemma calculateCrc_lt (x : Buffer) (size : ℕ) : calculateCrc x size < 256 ^ 4 := BitVec.isLt _

lemma header_bytes (h : Buffer) :
    (List.range (sizeofHeader % 2 ^ 32)).map h =
      (List.range 16).map h ++ (List.range' 16 4).map h ++ (List.range' 20 72).map h := by
  rw [← List.map_append, ← List.map_append]
  congr 1

/-- **The checksum tells** what stands in the header's own checksum field. -/
lemma calculateCrc_set_crc (h : Buffer) (v : ℕ) :
    calculateCrc (h.set .crc v) sizeofHeader = calculateCrc h sizeofHeader ↔
      h.get .crc = v % 2 ^ 32 := by
  have hbefore : (List.range 16).map (h.set .crc v) = (List.range 16).map h :=
    List.map_congr_left fun i hi => put_of_lt (List.mem_range.mp hi)
  have hafter : (List.range' 20 72).map (h.set .crc v) = (List.range' 20 72).map h :=
    List.map_congr_left fun i hi => put_of_ge (List.mem_range'_1.mp hi).1
  have hget : (h.set .crc v).get .crc = v % 2 ^ 32 := Buffer.get_set_self
  rw [calculateCrc, calculateCrc, header_bytes, header_bytes, hbefore, hafter,
    BitVec.toNat_inj, BitVec.not_inj,
    Crc.ofBytes_middle gptCrcTable_distinct _ _ _ (by simp) (by simp), ← hget]
  constructor
  · intro hmid
    refine get_congr fun i h1 h2 => ?_
    have hmem : i ∈ List.range' 16 4 := List.mem_range'_1.mpr ⟨h1, h2⟩
    exact (List.map_inj_left.mp hmid i hmem).symm
  · intro hval
    refine List.map_congr_left fun i hi => ?_
    obtain ⟨h1, h2⟩ := List.mem_range'_1.mp hi
    exact (get_inj hval i h1 h2).symm

/-! ### Reading and writing blocks -/

namespace Drive

variable {d : Drive} {offset size : ℕ} {buffer : Buffer}

lemma blockSize_pos : 0 < d.blockSize := Nat.two_pow_pos _

lemma shiftRight_eq (x : ℕ) : x >>> d.blockSizeShift = x / d.blockSize :=
  Nat.shiftRight_eq_div_pow _ _

lemma blockCount_lt : d.blockCount < 2 ^ 64 := by
  have hsize := d.size_lt
  have hpos : 0 < 2 ^ d.blockSizeShift := Nat.two_pow_pos _
  nlinarith

lemma blockCount_lt_of_header (hbs : sizeofHeader ≤ d.blockSize) : d.blockCount < 2 ^ 58 := by
  have hsize := d.size_lt
  have hbs' : 92 ≤ 2 ^ d.blockSizeShift := hbs
  nlinarith

lemma offsetMask_eq (h : offset < 2 ^ 63) : offsetMask offset = offset := Nat.mod_eq_of_lt h

lemma transferSize_eq (h : offset + size ≤ d.blockCount) : d.transferSize offset size = size := by
  have hlt := d.blockCount_lt
  rw [transferSize, Nat.mod_eq_of_lt (by omega), if_neg (by omega)]

lemma write_eq (hro : d.readOnly = false) (h : offset + size ≤ d.blockCount) (hpos : 0 < size) :
    d.write offset buffer size = (size, d.store (offsetMask offset) buffer size) := by
  have hcond : ¬(d.readOnly = true ∨ offset ≥ d.blockCount) := by
    rintro (h' | h')
    · rw [hro] at h'
      cases h'
    · omega
  simp only [write, if_neg hcond, transferSize_eq h]

lemma read_eq (h : offset + size ≤ d.blockCount) (hoff : offset < 2 ^ 63) (hpos : 0 < size) :
    ∃ out, d.read offset buffer size = (size, out) ∧ ∀ k < size, ∀ j < d.blockSize,
      out (k * d.blockSize + j) = d.block (offset + k) j := by
  have hcond : ¬offset ≥ d.blockCount := by omega
  simp only [read, if_neg hcond, transferSize_eq h]
  refine ⟨_, rfl, fun k hk j hj => ?_⟩
  have hin : k * d.blockSize + j < size * d.blockSize := by nlinarith
  have hdiv : (k * d.blockSize + j) / d.blockSize = k := by
    rw [Nat.add_comm, Nat.add_mul_div_right _ _ blockSize_pos, Nat.div_eq_of_lt hj, Nat.zero_add]
  have hmod : (k * d.blockSize + j) % d.blockSize = j := by
    rw [Nat.add_comm, Nat.add_mul_mod_self_right, Nat.mod_eq_of_lt hj]
  simp only [if_pos hin, hdiv, hmod, offsetMask_eq hoff]

lemma read_cut (hoff : offset < d.blockCount) (h : d.blockCount < offset + size)
    (hlt : offset + size < 2 ^ 64) : (d.read offset buffer size).1 ≠ size := by
  simp only [read, if_neg (not_le.mpr hoff), transferSize, Nat.mod_eq_of_lt hlt, if_pos h]
  omega

lemma store_block_of_mem {k j : ℕ} (hk : k < size) (hj : j < d.blockSize) :
    (d.store offset buffer size).block (offset + k) j = buffer (k * d.blockSize + j) := by
  have hcond : offset ≤ offset + k ∧ offset + k < offset + size ∧ j < d.blockSize := by omega
  simp only [store, if_pos hcond, Nat.add_sub_cancel_left]

lemma store_block_of_notMem {b : ℕ} (h : b < offset ∨ offset + size ≤ b) :
    (d.store offset buffer size).block b = d.block b := by
  funext j
  exact if_neg (by omega)

end Drive

/-! ### A readable table -/

/-- `lba` holds a header that names itself and the other one. -/
structure ValidHeader (d : Drive) (lba other : ℕ) : Prop where
  fits : sizeofHeader ≤ d.blockSize
  signature : (d.block lba).get .signature = tableHeaderSignature
  headerSize : (d.block lba).get .headerSize ≤ d.blockSize
  checksum : calculateCrc ((d.block lba).set .crc 0) ((d.block lba).get .headerSize) =
    (d.block lba).get .crc
  currentLba : (d.block lba).get .currentLba = lba
  backupLba : (d.block lba).get .backupLba = other

/-- Block `b` holds entries of the header in block `lba`. -/
def InEntries (d : Drive) (lba b : ℕ) : Prop :=
  (d.block lba).get .entryLba ≤ b ∧
    b < (d.block lba).get .entryLba + alignedEntryBufferSize d (d.block lba)

/-- The last block of the drive. -/
def lastLba (d : Drive) : ℕ := d.blockCount - 1

/-- Two headers that agree, entries where nothing else is, and no partition. -/
structure Readable (d : Drive) : Prop where
  primary : ValidHeader d 1 (lastLba d)
  backup : ValidHeader d (lastLba d) 1
  primaryEntries : ∀ b, InEntries d 1 b → b < d.blockCount ∧ b ≠ 1 ∧ b ≠ lastLba d
  backupEntries : ∀ b, InEntries d (lastLba d) b → b < d.blockCount ∧ b ≠ 1 ∧ b ≠ lastLba d
  disjoint : ∀ b, ¬(InEntries d 1 b ∧ InEntries d (lastLba d) b)
  loads : ∀ headerMemory entryMemory, loadPartitions d headerMemory entryMemory = some []

/-! ### The drive after formatting -/

section

variable {d : Drive} (memory guid : Buffer)

lemma tableBlocks_eq (d : Drive) : tableBlocks d = (16384 + d.blockSize - 1) / d.blockSize := by
  rw [tableBlocks, Drive.shiftRight_eq, partitionTableSize,
    Nat.mul_div_cancel _ Drive.blockSize_pos]
  rfl

lemma tableBlocks_pos (d : Drive) : 0 < tableBlocks d := by
  rw [tableBlocks_eq]
  exact Nat.div_pos (by omega) Drive.blockSize_pos

lemma tableBlocks_le_one : tableBlocks d ≤ 1 ↔ 16384 ≤ d.blockSize := by
  have hpos := d.blockSize_pos
  rw [tableBlocks_eq, ← Nat.lt_succ_iff, Nat.div_lt_iff_lt_mul hpos]
  omega

lemma tableBlocks_le (d : Drive) : tableBlocks d ≤ 16384 := by
  have hpos := d.blockSize_pos
  rw [tableBlocks_eq, ← Nat.lt_succ_iff, Nat.div_lt_iff_lt_mul hpos]
  omega

/-- The drive with all four writes done. -/
def formatted (d : Drive) (memory guid : Buffer) : Drive :=
  (((d.store (Drive.offsetMask 2) memory (tableBlocks d)).store
      (Drive.offsetMask (d.blockCount - tableBlocks d - 1)) memory (tableBlocks d)).store
    (Drive.offsetMask 1) (firstHeader d memory guid) 1).store
    (Drive.offsetMask 1) (secondHeader d memory guid) 1

lemma formatDrive_eq (hro : d.readOnly = false) (hbc : requiredSpace d < d.blockCount) :
    formatDrive d memory guid = (true, formatted d memory guid) := by
  have hpos := tableBlocks_pos d
  have hspace : 3 + 2 * tableBlocks d < d.blockCount := hbc
  have h1 := @Drive.write_eq d 2 (tableBlocks d) memory hro (by omega) hpos
  have h2 := @Drive.write_eq (d.store (Drive.offsetMask 2) memory (tableBlocks d))
    (d.blockCount - tableBlocks d - 1) (tableBlocks d) memory hro
    (by simp only [Drive.store]; omega) hpos
  have h3 := @Drive.write_eq ((d.store (Drive.offsetMask 2) memory (tableBlocks d)).store
    (Drive.offsetMask (d.blockCount - tableBlocks d - 1)) memory (tableBlocks d)) 1 1
    (firstHeader d memory guid) hro (by simp only [Drive.store]; omega) Nat.one_pos
  have h4 := @Drive.write_eq (((d.store (Drive.offsetMask 2) memory (tableBlocks d)).store
      (Drive.offsetMask (d.blockCount - tableBlocks d - 1)) memory (tableBlocks d)).store
    (Drive.offsetMask 1) (firstHeader d memory guid) 1) 1 1
    (secondHeader d memory guid) hro (by simp only [Drive.store]; omega) Nat.one_pos
  simp only [formatDrive, if_neg (not_le.mpr hbc), h1, h2, h3, h4, ne_eq, not_true_eq_false,
    if_false, formatted]

/-- Formatting reports success where the drive is writable and large enough. -/
lemma formatDrive_fst : (formatDrive d memory guid).1 = true ↔
    d.readOnly = false ∧ requiredSpace d < d.blockCount := by
  constructor
  · intro h
    by_cases hbc : d.blockCount ≤ requiredSpace d
    · simp only [formatDrive, if_pos hbc, Bool.false_eq_true] at h
    refine ⟨?_, not_le.mp hbc⟩
    by_contra hro
    rw [Bool.not_eq_false] at hro
    have hpos := tableBlocks_pos d
    have hne : ¬0 = tableBlocks d := by omega
    simp only [formatDrive, if_neg hbc, Drive.write, hro, true_or, if_true, ne_eq, hne,
      not_false_eq_true, Bool.false_eq_true] at h
  · rintro ⟨hro, hbc⟩
    rw [formatDrive_eq memory guid hro hbc]

variable (hbs : sizeofHeader ≤ d.blockSize) (hbc : requiredSpace d < d.blockCount)
include hbs hbc

lemma formatted_eq : formatted d memory guid =
    (((d.store 2 memory (tableBlocks d)).store (d.blockCount - tableBlocks d - 1) memory
      (tableBlocks d)).store 1 (firstHeader d memory guid) 1).store 1
      (secondHeader d memory guid) 1 := by
  have hlt := Drive.blockCount_lt_of_header hbs
  rw [formatted, Drive.offsetMask_eq (by omega), Drive.offsetMask_eq (by omega),
    Drive.offsetMask_eq (by omega)]

lemma formatted_header {j : ℕ} (hj : j < d.blockSize) :
    (formatted d memory guid).block 1 j = secondHeader d memory guid j := by
  rw [formatted_eq memory guid hbs hbc]
  have h := @Drive.store_block_of_mem
    (((d.store 2 memory (tableBlocks d)).store (d.blockCount - tableBlocks d - 1) memory
      (tableBlocks d)).store 1 (firstHeader d memory guid) 1) 1 1
    (secondHeader d memory guid) 0 j Nat.one_pos hj
  rwa [Nat.zero_mul, Nat.zero_add] at h

lemma formatted_entries {k j : ℕ} (hk : k < tableBlocks d) (hj : j < d.blockSize) :
    (formatted d memory guid).block (d.blockCount - tableBlocks d - 1 + k) j =
      memory (k * d.blockSize + j) := by
  have hspace : 3 + 2 * tableBlocks d < d.blockCount := hbc
  rw [formatted_eq memory guid hbs hbc, Drive.store_block_of_notMem (by omega),
    Drive.store_block_of_notMem (by omega)]
  exact Drive.store_block_of_mem hk hj

lemma formatted_last : (formatted d memory guid).block (lastLba d) = d.block (lastLba d) := by
  have hspace : 3 + 2 * tableBlocks d < d.blockCount := hbc
  have hpos := tableBlocks_pos d
  unfold lastLba
  rw [formatted_eq memory guid hbs hbc, Drive.store_block_of_notMem (by omega),
    Drive.store_block_of_notMem (by omega), Drive.store_block_of_notMem (by omega),
    Drive.store_block_of_notMem (by omega)]

end

/-! ### The header in block 1 -/

/-- What stands in the header apart from its checksum. -/
structure Written (d : Drive) (memory h : Buffer) : Prop where
  signature : h.get .signature = tableHeaderSignature
  headerSize : h.get .headerSize = sizeofHeader
  currentLba : h.get .currentLba = 1
  backupLba : h.get .backupLba = lastLba d
  entryLba : h.get .entryLba = d.blockCount - 2
  entryCount : h.get .entryCount = 128
  entrySize : h.get .entrySize = 128
  entryCrc : h.get .entryCrc = calculateCrc memory (partitionTableSize d)

section

variable {d : Drive} {memory guid h h' : Buffer}

lemma Written.congr (hw : Written d memory h) (heq : ∀ i < sizeofHeader, h' i = h i) :
    Written d memory h' where
  signature := (Buffer.get_congr_header heq).trans hw.signature
  headerSize := (Buffer.get_congr_header heq).trans hw.headerSize
  currentLba := (Buffer.get_congr_header heq).trans hw.currentLba
  backupLba := (Buffer.get_congr_header heq).trans hw.backupLba
  entryLba := (Buffer.get_congr_header heq).trans hw.entryLba
  entryCount := (Buffer.get_congr_header heq).trans hw.entryCount
  entrySize := (Buffer.get_congr_header heq).trans hw.entrySize
  entryCrc := (Buffer.get_congr_header heq).trans hw.entryCrc

lemma Written.set_crc (hw : Written d memory h) (v : ℕ) : Written d memory (h.set .crc v) where
  signature := (Buffer.get_set_of_ne (by decide)).trans hw.signature
  headerSize := (Buffer.get_set_of_ne (by decide)).trans hw.headerSize
  currentLba := (Buffer.get_set_of_ne (by decide)).trans hw.currentLba
  backupLba := (Buffer.get_set_of_ne (by decide)).trans hw.backupLba
  entryLba := (Buffer.get_set_of_ne (by decide)).trans hw.entryLba
  entryCount := (Buffer.get_set_of_ne (by decide)).trans hw.entryCount
  entrySize := (Buffer.get_set_of_ne (by decide)).trans hw.entrySize
  entryCrc := (Buffer.get_set_of_ne (by decide)).trans hw.entryCrc

lemma secondHeader_written (d : Drive) (memory guid : Buffer) :
    Written d memory (secondHeader d memory guid) := by
  have hlt := d.blockCount_lt
  have hcrc := calculateCrc_lt memory (partitionTableSize d)
  refine Written.set_crc ?_ _
  constructor <;>
    simp only [firstHeader, setCrc, newHeader, Buffer.get_set_of_ne, Buffer.get_set_self,
      Buffer.get_setGuid, ne_eq, reduceCtorEq, not_false_eq_true, Field.size,
      tableHeaderSignature, sizeofHeader, sizeofEntry, formatPartitionTableEntryCount, lastLba,
      Nat.mod_eq_of_lt hcrc] <;>
    omega

/-- **The checksum of the header in block 1** covers that of the header it replaced. -/
lemma secondHeader_checksum (d : Drive) (memory guid : Buffer) :
    calculateCrc ((secondHeader d memory guid).set .crc 0) sizeofHeader =
        (secondHeader d memory guid).get .crc ↔
      calculateCrc (newHeader d memory guid) sizeofHeader = 0 := by
  have hfirst : ((firstHeader d memory guid).set .entryLba (d.blockCount - 2)).get .crc =
      calculateCrc (newHeader d memory guid) sizeofHeader := by
    rw [Buffer.get_set_of_ne (by decide), firstHeader, setCrc, Buffer.get_set_self]
    exact Nat.mod_eq_of_lt (calculateCrc_lt _ _)
  have hsecond : (secondHeader d memory guid).get .crc =
      calculateCrc ((firstHeader d memory guid).set .entryLba (d.blockCount - 2))
        sizeofHeader := by
    rw [secondHeader, setCrc, Buffer.get_set_self]
    exact Nat.mod_eq_of_lt (calculateCrc_lt _ _)
  rw [hsecond, secondHeader, setCrc, Buffer.set_set, calculateCrc_set_crc, hfirst, Nat.zero_mod]

end

/-! ### Scanning the entries -/

lemma foldl_or_eq_zero (f : ℕ → UInt8) (l : List ℕ) (a : UInt8) :
    l.foldl (fun acc j => acc ||| f j) a = 0 ↔ a = 0 ∧ ∀ j ∈ l, f j = 0 := by
  induction l generalizing a with
  | nil => simp
  | cons j l ih =>
    rw [List.foldl_cons, ih, UInt8.or_eq_zero_iff, List.forall_mem_cons, and_assoc]

lemma nonzeroGuid_eq_zero (entries : Buffer) (i : ℕ) :
    nonzeroGuid entries i = 0 ↔ ∀ j < 16, entries (i + j) = 0 := by
  rw [nonzeroGuid, foldl_or_eq_zero]
  simp only [List.mem_range, true_and]

lemma scanEntries_eq_nil (entries : Buffer) {k fuel : ℕ} (hk : k ≤ 128) (hfuel : k < fuel) :
    scanEntries entries (128 * 128) 128 fuel (128 * (128 - k)) = some [] ↔
      ∀ i, 128 - k ≤ i → i < 128 → nonzeroGuid entries (128 * i) = 0 := by
  induction k generalizing fuel with
  | zero =>
    obtain ⟨fuel, rfl⟩ := Nat.exists_eq_succ_of_ne_zero (Nat.ne_of_gt hfuel)
    rw [scanEntries, if_neg (by omega)]
    refine ⟨fun _ i h1 h2 => ?_, fun _ => rfl⟩
    omega
  | succ k ih =>
    obtain ⟨fuel, rfl⟩ := Nat.exists_eq_succ_of_ne_zero (show fuel ≠ 0 by omega)
    have hnext : (128 * (128 - (k + 1)) + 128) % 2 ^ 32 = 128 * (128 - k) := by
      rw [Nat.mod_eq_of_lt (by omega)]
      omega
    have ih' := @ih fuel (by omega) (by omega)
    rw [scanEntries, if_pos (by omega), hnext]
    split_ifs with hz
    · rw [ih']
      constructor
      · intro h i h1 h2
        rcases Nat.eq_or_lt_of_le h1 with h | h'
        · rwa [← h]
        · exact h i (by omega) h2
      · exact fun h i h1 h2 => h i (by omega) h2
    · refine ⟨fun h => ?_, fun h => absurd (h _ le_rfl (by omega)) hz⟩
      obtain ⟨rest, -, hrest⟩ := Option.map_eq_some_iff.mp h
      cases hrest

/-! ### Loading what was formatted -/

section

variable {d : Drive} {memory guid : Buffer}

lemma Written.aligned {h : Buffer} (hw : Written d memory h) :
    alignedEntryBufferSize d h = tableBlocks d := by
  have hle := tableBlocks_le d
  have hsize : 128 * 128 % 2 ^ 32 = 16384 := by norm_num
  rw [alignedEntryBufferSize, entryBufferSize, hw.entryCount, hw.entrySize, hsize,
    Drive.shiftRight_eq]
  rw [tableBlocks_eq] at hle ⊢
  exact Nat.mod_eq_of_lt (by omega)

lemma loadPartitions_formatted (hbs : sizeofHeader ≤ d.blockSize)
    (hbc : requiredSpace d < d.blockCount) (headerMemory entryMemory : Buffer) :
    loadPartitions (formatted d memory guid) headerMemory entryMemory =
      if calculateCrc (newHeader d memory guid) sizeofHeader ≠ 0 then none
      else
        let (count, entries) :=
          (formatted d memory guid).read (d.blockCount - 2) entryMemory (tableBlocks d)
        if count ≠ tableBlocks d then none
        else if calculateCrc entries (128 * 128) ≠ calculateCrc memory (partitionTableSize d) then
          none
        else scanEntries entries (128 * 128) 128 (2 ^ 32) 0 := by
  have hspace : 3 + 2 * tableBlocks d < d.blockCount := hbc
  have hcount : (formatted d memory guid).blockCount = d.blockCount := rfl
  have hsize : (formatted d memory guid).blockSize = d.blockSize := rfl
  obtain ⟨h, hread, hblock⟩ := @Drive.read_eq (formatted d memory guid) 1 1 headerMemory
    (by omega) (by omega) Nat.one_pos
  have heq : ∀ i < sizeofHeader, h i = secondHeader d memory guid i := by
    intro i hi
    have hi' := hblock 0 Nat.one_pos i (by omega)
    rwa [Nat.zero_mul, Nat.zero_add, Nat.add_zero,
      formatted_header memory guid hbs hbc (by omega)] at hi'
  have hw := (secondHeader_written d memory guid).congr heq
  have hw0 := hw.set_crc 0
  have hsum : calculateCrc (h.set .crc 0) sizeofHeader = h.get .crc ↔
      calculateCrc (newHeader d memory guid) sizeofHeader = 0 := by
    rw [calculateCrc_congr (Buffer.set_congr_header heq), Buffer.get_congr_header heq]
    exact secondHeader_checksum d memory guid
  have hbuffer : entryBufferSize (h.set .crc 0) = 128 * 128 := by
    rw [entryBufferSize, hw0.entryCount, hw0.entrySize]
    norm_num
  have haligned : alignedEntryBufferSize (formatted d memory guid) (h.set .crc 0) =
      tableBlocks d := hw0.aligned
  have hfits : ¬sizeofHeader > (formatted d memory guid).blockSize := by
    rw [hsize]
    omega
  simp only [loadPartitions, hread, hw.signature, hw.headerSize, hfits, hbuffer, haligned,
    hw0.headerSize, hw0.entrySize, hw0.entryLba, hw0.entryCrc, ne_eq, hsum]
  simp only [Nat.reduceMul, Nat.reduceLT, Nat.reduceEqDiff, not_true_eq_false, or_self, if_false]

/-- Where a copy of the entries takes three blocks or more, the table is not accepted: the
entries are looked for in the last two blocks. -/
lemma loadPartitions_formatted_cut (hbs : sizeofHeader ≤ d.blockSize)
    (hbc : requiredSpace d < d.blockCount) (hlong : 2 < tableBlocks d)
    (headerMemory entryMemory : Buffer) :
    loadPartitions (formatted d memory guid) headerMemory entryMemory = none := by
  have hspace : 3 + 2 * tableBlocks d < d.blockCount := hbc
  have hcount : (formatted d memory guid).blockCount = d.blockCount := rfl
  have hlt := Drive.blockCount_lt_of_header hbs
  have hle := tableBlocks_le d
  have hcut := @Drive.read_cut (formatted d memory guid) (d.blockCount - 2) (tableBlocks d)
    entryMemory (by omega) (by omega) (by omega)
  rw [loadPartitions_formatted hbs hbc]
  split_ifs with hcrc
  · rfl
  · exact if_pos hcut

lemma loadPartitions_formatted_one (hbs : 128 * 128 ≤ d.blockSize)
    (hbc : requiredSpace d < d.blockCount) (headerMemory entryMemory : Buffer) :
    loadPartitions (formatted d memory guid) headerMemory entryMemory = some [] ↔
      calculateCrc (newHeader d memory guid) sizeofHeader = 0 ∧
        calculateCrc memory (128 * 128) = calculateCrc memory (partitionTableSize d) ∧
        ∀ i < 128, ∀ j < 16, memory (128 * i + j) = 0 := by
  have hone : tableBlocks d = 1 := le_antisymm (tableBlocks_le_one.mpr hbs) (tableBlocks_pos d)
  have hspace : 3 + 2 * tableBlocks d < d.blockCount := hbc
  have hcount : (formatted d memory guid).blockCount = d.blockCount := rfl
  have hsize : (formatted d memory guid).blockSize = d.blockSize := rfl
  have hheader : sizeofHeader ≤ d.blockSize := le_trans (by decide) hbs
  have hlt := Drive.blockCount_lt_of_header hheader
  obtain ⟨entries, hread, hblock⟩ := @Drive.read_eq (formatted d memory guid)
    (d.blockCount - 2) 1 entryMemory (by omega) (by omega) Nat.one_pos
  have heq : ∀ i < 128 * 128, entries i = memory i := by
    intro i hi
    have hi' := hblock 0 Nat.one_pos i (by omega)
    have hentry := @formatted_entries d memory guid hheader hbc 0 i (tableBlocks_pos d)
      (by omega)
    rw [hone, show d.blockCount - 1 - 1 = d.blockCount - 2 by omega] at hentry
    rw [Nat.add_zero] at hi' hentry
    rw [hsize, hentry, Nat.zero_mul, Nat.zero_add] at hi'
    exact hi'
  have hscan := @scanEntries_eq_nil entries 128 (2 ^ 32) le_rfl (by norm_num)
  simp only [Nat.sub_self, Nat.mul_zero, Nat.zero_le, true_imp_iff] at hscan
  have hunused : (∀ i < 128, nonzeroGuid entries (128 * i) = 0) ↔
      ∀ i < 128, ∀ j < 16, memory (128 * i + j) = 0 := by
    refine forall₂_congr fun i hi => ?_
    rw [nonzeroGuid_eq_zero]
    refine forall₂_congr fun j hj => ?_
    rw [heq _ (by omega)]
  rw [loadPartitions_formatted hheader hbc, hone, hread]
  simp only [ne_eq, not_true_eq_false, if_false, calculateCrc_congr heq]
  split_ifs with hcrc hcrc'
  · rw [hscan, hunused, and_iff_right hcrc, and_iff_right hcrc']
  · simp [hcrc']
  · simp [hcrc]

end

/-! ### When the table is readable -/

/-- The contents of drive and memory with which formatting leaves a readable table. -/
structure ReadableWhen (d : Drive) (memory guid : Buffer) : Prop where
  writable : d.readOnly = false
  space : requiredSpace d < d.blockCount
  oneBlock : 128 * 128 ≤ d.blockSize
  /-- the checksum of the header, computed over itself, is zero -/
  zeroCrc : calculateCrc (newHeader d memory guid) sizeofHeader = 0
  /-- the backup header is already there -/
  backup : ValidHeader d (lastLba d) 1
  backupEntries : ∀ b, InEntries d (lastLba d) b →
    b < d.blockCount ∧ b ≠ 1 ∧ b ≠ lastLba d ∧ b ≠ d.blockCount - 2
  entriesCrc : calculateCrc memory (128 * 128) = calculateCrc memory (partitionTableSize d)
  /-- the memory for the entries holds none, as `pmm_alloc` leaves it -/
  unused : ∀ i < 128, ∀ j < 16, memory (128 * i + j) = 0

section

variable {d : Drive} {memory guid : Buffer}

lemma formatted_inEntries_primary (hbs : sizeofHeader ≤ d.blockSize)
    (hbc : requiredSpace d < d.blockCount) (b : ℕ) :
    InEntries (formatted d memory guid) 1 b ↔
      d.blockCount - 2 ≤ b ∧ b < d.blockCount - 2 + tableBlocks d := by
  have heq : ∀ i < sizeofHeader,
      (formatted d memory guid).block 1 i = secondHeader d memory guid i := fun i hi =>
    formatted_header memory guid hbs hbc (by omega)
  have hw := (secondHeader_written d memory guid).congr heq
  have haligned : alignedEntryBufferSize (formatted d memory guid)
      ((formatted d memory guid).block 1) = tableBlocks d := hw.aligned
  rw [InEntries, hw.entryLba, haligned]

lemma formatted_inEntries_last (hbs : sizeofHeader ≤ d.blockSize)
    (hbc : requiredSpace d < d.blockCount) (b : ℕ) :
    InEntries (formatted d memory guid) (lastLba d) b ↔ InEntries d (lastLba d) b := by
  rw [InEntries, InEntries, formatted_last memory guid hbs hbc]
  rfl

lemma formatted_primary (hbs : sizeofHeader ≤ d.blockSize)
    (hbc : requiredSpace d < d.blockCount) :
    ValidHeader (formatted d memory guid) 1 (lastLba d) ↔
      calculateCrc (newHeader d memory guid) sizeofHeader = 0 := by
  have heq : ∀ i < sizeofHeader,
      (formatted d memory guid).block 1 i = secondHeader d memory guid i := fun i hi =>
    formatted_header memory guid hbs hbc (by omega)
  have hw := (secondHeader_written d memory guid).congr heq
  have hsum : calculateCrc (((formatted d memory guid).block 1).set .crc 0)
        (((formatted d memory guid).block 1).get .headerSize) =
        ((formatted d memory guid).block 1).get .crc ↔
      calculateCrc (newHeader d memory guid) sizeofHeader = 0 := by
    rw [hw.headerSize, calculateCrc_congr (Buffer.set_congr_header heq),
      Buffer.get_congr_header heq]
    exact secondHeader_checksum d memory guid
  constructor
  · exact fun hv => hsum.mp hv.checksum
  · intro hcrc
    exact {
      fits := hbs
      signature := hw.signature
      headerSize := hw.headerSize.trans_le hbs
      checksum := hsum.mpr hcrc
      currentLba := hw.currentLba
      backupLba := hw.backupLba }

lemma formatted_backup (hbs : sizeofHeader ≤ d.blockSize)
    (hbc : requiredSpace d < d.blockCount) :
    ValidHeader (formatted d memory guid) (lastLba d) 1 ↔ ValidHeader d (lastLba d) 1 := by
  have hlast := formatted_last memory guid hbs hbc
  constructor
  · rintro ⟨h1, h2, h3, h4, h5, h6⟩
    rw [hlast] at h2 h3 h4 h5 h6
    exact ⟨h1, h2, h3, h4, h5, h6⟩
  · rintro ⟨h1, h2, h3, h4, h5, h6⟩
    rw [← hlast] at h2 h3 h4 h5 h6
    exact ⟨h1, h2, h3, h4, h5, h6⟩

lemma Readable.oneBlock (h : Readable (formatted d memory guid))
    (hbc : requiredSpace d < d.blockCount) : 128 * 128 ≤ d.blockSize := by
  have hspace : 3 + 2 * tableBlocks d < d.blockCount := hbc
  by_contra hbs
  have hlong : ¬tableBlocks d ≤ 1 := fun hle => hbs (tableBlocks_le_one.mp hle)
  have hheader : sizeofHeader ≤ d.blockSize := h.primary.fits
  have hlast : lastLba d = d.blockCount - 1 := rfl
  have hin : InEntries (formatted d memory guid) 1 (lastLba d) :=
    (formatted_inEntries_primary hheader hbc _).mpr (by omega)
  exact (h.primaryEntries _ hin).2.2 rfl

/-- **Exactly when formatting leaves a readable table.** -/
theorem readable_iff (d : Drive) (memory guid : Buffer) :
    (formatDrive d memory guid).1 = true ∧ Readable (formatDrive d memory guid).2 ↔
      ReadableWhen d memory guid := by
  constructor
  · rintro ⟨hsuccess, hread⟩
    obtain ⟨hro, hbc⟩ := (formatDrive_fst memory guid).mp hsuccess
    rw [formatDrive_eq memory guid hro hbc] at hread
    have hone := hread.oneBlock hbc
    have hbs : sizeofHeader ≤ d.blockSize := le_trans (by decide) hone
    have htable : tableBlocks d = 1 :=
      le_antisymm (tableBlocks_le_one.mpr hone) (tableBlocks_pos d)
    obtain ⟨hcrc, hentries, hunused⟩ :=
      (loadPartitions_formatted_one hone hbc memory memory).mp (hread.loads _ _)
    refine ⟨hro, hbc, hone, hcrc, (formatted_backup hbs hbc).mp hread.backup, ?_, hentries,
      hunused⟩
    intro b hb
    have hb' := (@formatted_inEntries_last d memory guid hbs hbc b).mpr hb
    obtain ⟨h1, h2, h3⟩ := hread.backupEntries b hb'
    refine ⟨h1, h2, h3, fun heq => hread.disjoint b ⟨?_, hb'⟩⟩
    exact (formatted_inEntries_primary hbs hbc b).mpr (by omega)
  · intro h
    have hbs : sizeofHeader ≤ d.blockSize := le_trans (by decide) h.oneBlock
    have htable : tableBlocks d = 1 :=
      le_antisymm (tableBlocks_le_one.mpr h.oneBlock) (tableBlocks_pos d)
    have hspace : 3 + 2 * tableBlocks d < d.blockCount := h.space
    rw [formatDrive_eq memory guid h.writable h.space]
    refine ⟨rfl, (?_ : Readable (formatted d memory guid))⟩
    exact {
      primary := (formatted_primary hbs h.space).mpr h.zeroCrc
      backup := (formatted_backup hbs h.space).mpr h.backup
      primaryEntries := by
        intro b hb
        have hb' := (formatted_inEntries_primary hbs h.space b).mp hb
        have hlast : lastLba (formatted d memory guid) = d.blockCount - 1 := rfl
        have hcount : (formatted d memory guid).blockCount = d.blockCount := rfl
        omega
      backupEntries := by
        intro b hb
        obtain ⟨h1, h2, h3, -⟩ :=
          h.backupEntries b ((formatted_inEntries_last hbs h.space b).mp hb)
        exact ⟨h1, h2, h3⟩
      disjoint := by
        rintro b ⟨hp, hb⟩
        have hb' := (formatted_inEntries_primary hbs h.space b).mp hp
        have hne := (h.backupEntries b ((formatted_inEntries_last hbs h.space b).mp hb)).2.2.2
        omega
      loads := fun _ _ => (loadPartitions_formatted_one h.oneBlock h.space _ _).mpr
        ⟨h.zeroCrc, h.entriesCrc, h.unused⟩ }

end

/-- An empty drive of a thousand blocks of `512` bytes. -/
def smallDrive : Drive where
  readOnly := false
  blockCount := 1000
  blockSizeShift := 9
  block := fun _ _ => 0
  size_lt := by norm_num

/-- Formatting it reports success, and the table is not accepted. -/
theorem smallDrive_not_loaded :
    (formatDrive smallDrive (fun _ => 0) fun _ => 0).1 = true ∧
      ∀ headerMemory entryMemory, loadPartitions
        (formatDrive smallDrive (fun _ => 0) fun _ => 0).2 headerMemory entryMemory = none := by
  have hblocks : tableBlocks smallDrive = 32 := by decide
  have hbc : requiredSpace smallDrive < smallDrive.blockCount := by
    rw [requiredSpace, hblocks]
    decide
  rw [formatDrive_eq _ _ rfl hbc]
  refine ⟨rfl, loadPartitions_formatted_cut ?_ hbc ?_⟩
  · decide
  · rw [hblocks]
    decide

end KernelModel.Gpt
