import KernelModel.Crc
import KernelModel.LittleEndian

/-!
The GPT module: partition tables are read from a drive and written to one.

A table is a header block and an array of entries. One copy belongs at the start of the drive,
with its header in block `1`, the other at the end. A buffer is a function from offsets to
bytes. What a new buffer holds is an argument (`pmm_alloc` clears its pages). Allocations are
taken to succeed here, so blocks are of `128` MiB at most.
-/

namespace KernelModel.Gpt

abbrev Buffer := ℕ → UInt8

/-! ### Drives -/

/-- `drive_t`: the blocks behind `io_callback`, which transfers all that it is asked to. -/
structure Drive where
  readOnly : Bool
  blockCount : ℕ
  blockSizeShift : ℕ
  block : ℕ → Buffer
  /-- the size in bytes is a 64-bit word -/
  size_lt : blockCount * 2 ^ blockSizeShift < 2 ^ 64

namespace Drive

def blockSize (d : Drive) : ℕ := 2 ^ d.blockSizeShift

/-- The transfer stops at the end of the drive. -/
def transferSize (d : Drive) (offset size : ℕ) : ℕ :=
  if (offset + size) % 2 ^ 64 > d.blockCount then d.blockCount - offset else size

/-- The offset without `DRIVE_OFFSET_FLAG_WRITE`. -/
def offsetMask (offset : ℕ) : ℕ := offset % 2 ^ 63

/-- `drive_read`: the number of blocks read and the buffer afterwards. -/
def read (d : Drive) (offset : ℕ) (buffer : Buffer) (size : ℕ) : ℕ × Buffer :=
  if offset ≥ d.blockCount then (0, buffer)
  else
    let size := d.transferSize offset size
    (size, fun i =>
      if i < size * d.blockSize then
        d.block (offsetMask offset + i / d.blockSize) (i % d.blockSize)
      else buffer i)

/-- Blocks `offset` to `offset + size - 1` are taken from the buffer. -/
def store (d : Drive) (offset : ℕ) (buffer : Buffer) (size : ℕ) : Drive where
  readOnly := d.readOnly
  blockCount := d.blockCount
  blockSizeShift := d.blockSizeShift
  block := fun b j =>
    if offset ≤ b ∧ b < offset + size ∧ j < d.blockSize then
      buffer ((b - offset) * d.blockSize + j)
    else d.block b j
  size_lt := d.size_lt

/-- `drive_write`: the number of blocks written and the drive afterwards. -/
def write (d : Drive) (offset : ℕ) (buffer : Buffer) (size : ℕ) : ℕ × Drive :=
  if d.readOnly = true ∨ offset ≥ d.blockCount then (0, d)
  else
    let size := d.transferSize offset size
    (size, d.store (offsetMask offset) buffer size)

end Drive

/-! ### The header -/

/-- The numbers in `gpt_table_header_t`. -/
inductive Field
  | signature
  | revision
  | headerSize
  | crc
  | zero
  | currentLba
  | backupLba
  | firstLba
  | lastLba
  | entryLba
  | entryCount
  | entrySize
  | entryCrc
  deriving DecidableEq

namespace Field

def offset : Field → ℕ
  | signature => 0
  | revision => 8
  | headerSize => 12
  | crc => 16
  | zero => 20
  | currentLba => 24
  | backupLba => 32
  | firstLba => 40
  | lastLba => 48
  | entryLba => 72
  | entryCount => 80
  | entrySize => 84
  | entryCrc => 88

def size : Field → ℕ
  | signature | currentLba | backupLba | firstLba | lastLba | entryLba => 8
  | _ => 4

end Field

/-- `sizeof(gpt_table_header_t)` -/
def sizeofHeader : ℕ := 92

/-- `sizeof(gpt_partition_entry_t)` -/
def sizeofEntry : ℕ := 128

def tableHeaderSignature : ℕ := 0x5452415020494645

def Buffer.get (h : Buffer) (f : Field) : ℕ := LittleEndian.get f.size h f.offset

def Buffer.set (h : Buffer) (f : Field) (v : ℕ) : Buffer := LittleEndian.put f.size h f.offset v

/-- `header->guid`: sixteen bytes at offset `56`, with the marks of a random one. -/
def setGuid (h guid : Buffer) : Buffer := fun i =>
  if 56 ≤ i ∧ i < 72 then
    if i = 62 then (guid 6 &&& 0x0f) ||| 0x40
    else if i = 64 then (guid 8 &&& 0x3f) ||| 0x80
    else guid (i - 56)
  else h i

def gptCrcWords : List ℕ := [
  0x00000000, 0x77073096, 0xee0e612c, 0x990951ba, 0x076dc419, 0x706af48f, 0xe963a535, 0x9e6495a3,
  0x0edb8832, 0x79dcb8a4, 0xe0d5e91e, 0x97d2d988, 0x09b64c2b, 0x7eb17cbd, 0xe7b82d07, 0x90bf1d91,
  0x1db71064, 0x6ab020f2, 0xf3b97148, 0x84be41de, 0x1adad47d, 0x6ddde4eb, 0xf4d4b551, 0x83d385c7,
  0x136c9856, 0x646ba8c0, 0xfd62f97a, 0x8a65c9ec, 0x14015c4f, 0x63066cd9, 0xfa0f3d63, 0x8d080df5,
  0x3b6e20c8, 0x4c69105e, 0xd56041e4, 0xa2677172, 0x3c03e4d1, 0x4b04d447, 0xd20d85fd, 0xa50ab56b,
  0x35b5a8fa, 0x42b2986c, 0xdbbbc9d6, 0xacbcf940, 0x32d86ce3, 0x45df5c75, 0xdcd60dcf, 0xabd13d59,
  0x26d930ac, 0x51de003a, 0xc8d75180, 0xbfd06116, 0x21b4f4b5, 0x56b3c423, 0xcfba9599, 0xb8bda50f,
  0x2802b89e, 0x5f058808, 0xc60cd9b2, 0xb10be924, 0x2f6f7c87, 0x58684c11, 0xc1611dab, 0xb6662d3d,
  0x76dc4190, 0x01db7106, 0x98d220bc, 0xefd5102a, 0x71b18589, 0x06b6b51f, 0x9fbfe4a5, 0xe8b8d433,
  0x7807c9a2, 0x0f00f934, 0x9609a88e, 0xe10e9818, 0x7f6a0dbb, 0x086d3d2d, 0x91646c97, 0xe6635c01,
  0x6b6b51f4, 0x1c6c6162, 0x856530d8, 0xf262004e, 0x6c0695ed, 0x1b01a57b, 0x8208f4c1, 0xf50fc457,
  0x65b0d9c6, 0x12b7e950, 0x8bbeb8ea, 0xfcb9887c, 0x62dd1ddf, 0x15da2d49, 0x8cd37cf3, 0xfbd44c65,
  0x4db26158, 0x3ab551ce, 0xa3bc0074, 0xd4bb30e2, 0x4adfa541, 0x3dd895d7, 0xa4d1c46d, 0xd3d6f4fb,
  0x4369e96a, 0x346ed9fc, 0xad678846, 0xda60b8d0, 0x44042d73, 0x33031de5, 0xaa0a4c5f, 0xdd0d7cc9,
  0x5005713c, 0x270241aa, 0xbe0b1010, 0xc90c2086, 0x5768b525, 0x206f85b3, 0xb966d409, 0xce61e49f,
  0x5edef90e, 0x29d9c998, 0xb0d09822, 0xc7d7a8b4, 0x59b33d17, 0x2eb40d81, 0xb7bd5c3b, 0xc0ba6cad,
  0xedb88320, 0x9abfb3b6, 0x03b6e20c, 0x74b1d29a, 0xead54739, 0x9dd277af, 0x04db2615, 0x73dc1683,
  0xe3630b12, 0x94643b84, 0x0d6d6a3e, 0x7a6a5aa8, 0xe40ecf0b, 0x9309ff9d, 0x0a00ae27, 0x7d079eb1,
  0xf00f9344, 0x8708a3d2, 0x1e01f268, 0x6906c2fe, 0xf762575d, 0x806567cb, 0x196c3671, 0x6e6b06e7,
  0xfed41b76, 0x89d32be0, 0x10da7a5a, 0x67dd4acc, 0xf9b9df6f, 0x8ebeeff9, 0x17b7be43, 0x60b08ed5,
  0xd6d6a3e8, 0xa1d1937e, 0x38d8c2c4, 0x4fdff252, 0xd1bb67f1, 0xa6bc5767, 0x3fb506dd, 0x48b2364b,
  0xd80d2bda, 0xaf0a1b4c, 0x36034af6, 0x41047a60, 0xdf60efc3, 0xa867df55, 0x316e8eef, 0x4669be79,
  0xcb61b38c, 0xbc66831a, 0x256fd2a0, 0x5268e236, 0xcc0c7795, 0xbb0b4703, 0x220216b9, 0x5505262f,
  0xc5ba3bbe, 0xb2bd0b28, 0x2bb45a92, 0x5cb36a04, 0xc2d7ffa7, 0xb5d0cf31, 0x2cd99e8b, 0x5bdeae1d,
  0x9b64c2b0, 0xec63f226, 0x756aa39c, 0x026d930a, 0x9c0906a9, 0xeb0e363f, 0x72076785, 0x05005713,
  0x95bf4a82, 0xe2b87a14, 0x7bb12bae, 0x0cb61b38, 0x92d28e9b, 0xe5d5be0d, 0x7cdcefb7, 0x0bdbdf21,
  0x86d3d2d4, 0xf1d4e242, 0x68ddb3f8, 0x1fda836e, 0x81be16cd, 0xf6b9265b, 0x6fb077e1, 0x18b74777,
  0x88085ae6, 0xff0f6a70, 0x66063bca, 0x11010b5c, 0x8f659eff, 0xf862ae69, 0x616bffd3, 0x166ccf45,
  0xa00ae278, 0xd70dd2ee, 0x4e048354, 0x3903b3c2, 0xa7672661, 0xd06016f7, 0x4969474d, 0x3e6e77db,
  0xaed16a4a, 0xd9d65adc, 0x40df0b66, 0x37d83bf0, 0xa9bcae53, 0xdebb9ec5, 0x47b2cf7f, 0x30b5ffe9,
  0xbdbdf21c, 0xcabac28a, 0x53b39330, 0x24b4a3a6, 0xbad03605, 0xcdd70693, 0x54de5729, 0x23d967bf,
  0xb3667a2e, 0xc4614ab8, 0x5d681b02, 0x2a6f2b94, 0xb40bbe37, 0xc30c8ea1, 0x5a05df1b, 0x2d02ef8d
]

/-- `_gpt_crc_table` -/
def gptCrcTable (i : ℕ) : BitVec 32 := BitVec.ofNat 32 (gptCrcWords.getD i 0)

/-- `_calculate_crc`; the size is a 32-bit word. -/
def calculateCrc (data : Buffer) (size : ℕ) : ℕ :=
  (~~~Crc.ofBytes gptCrcTable 0xffffffff#32 ((List.range (size % 2 ^ 32)).map data)).toNat

/-! ### Formatting -/

def formatPartitionTableEntryCount : ℕ := 128

section

variable (d : Drive) (memory guid : Buffer)

def partitionTableSize : ℕ :=
  (formatPartitionTableEntryCount * sizeofEntry + d.blockSize - 1) / d.blockSize * d.blockSize

/-- `partition_table_size>>drive->block_size_shift` -/
def tableBlocks : ℕ := partitionTableSize d >>> d.blockSizeShift

def requiredSpace : ℕ := 3 + 2 * tableBlocks d

/-- The header before its checksum is computed. It is built over the entries. -/
def newHeader : Buffer :=
  let h := memory.set .signature tableHeaderSignature
  let h := h.set .revision 0x00010000
  let h := h.set .headerSize sizeofHeader
  let h := h.set .crc 0
  let h := h.set .zero 0
  let h := h.set .currentLba 1
  let h := h.set .backupLba (d.blockCount - 1)
  let h := h.set .firstLba (2 + tableBlocks d)
  let h := h.set .lastLba (d.blockCount - tableBlocks d - 1)
  let h := setGuid h guid
  let h := h.set .entryLba 2
  let h := h.set .entryCount formatPartitionTableEntryCount
  let h := h.set .entrySize sizeofEntry
  h.set .entryCrc (calculateCrc memory (partitionTableSize d))

/-- `header->crc=_calculate_crc(header,sizeof(gpt_table_header_t))` -/
def setCrc (h : Buffer) : Buffer := h.set .crc (calculateCrc h sizeofHeader)

def firstHeader : Buffer := setCrc (newHeader d memory guid)

/-- The header of the second write: the checksum covers the first one. -/
def secondHeader : Buffer := setCrc ((firstHeader d memory guid).set .entryLba (d.blockCount - 2))

/-- `_gpt_format_drive` -/
def formatDrive : Bool × Drive :=
  let blocks := tableBlocks d
  if d.blockCount ≤ requiredSpace d then (false, d)
  else
    let (count, d1) := d.write 2 memory blocks
    if count ≠ blocks then (false, d1)
    else
      let (count, d2) := d1.write (d.blockCount - blocks - 1) memory blocks
      if count ≠ blocks then (false, d2)
      else
        let (count, d3) := d2.write 1 (firstHeader d memory guid) 1
        if count ≠ 1 then (false, d3)
        else
          let (count, d4) := d3.write 1 (secondHeader d memory guid) 1
          if count ≠ 1 then (false, d4) else (true, d4)

end

/-! ### Loading -/

/-- The arguments of `partition_create`. -/
structure Partition where
  index : ℕ
  name : List UInt8
  startLba : ℕ
  endLba : ℕ
  guid : List UInt8

/-- `_byteswap_guid` -/
def byteswapGuid (src : Buffer) : List UInt8 :=
  [3, 2, 1, 0, 5, 4, 7, 6, 8, 9, 10, 11, 12, 13, 14, 15].map src

/-- `nonzero_guid` of the entry at offset `i`. -/
def nonzeroGuid (entries : Buffer) (i : ℕ) : UInt8 :=
  (List.range 16).foldl (fun acc j => acc ||| entries (i + j)) 0

/-- The entry at offset `i`; of each character of the name only the low byte is kept. -/
def partitionAt (entries : Buffer) (entrySize i : ℕ) : Partition where
  index := i / entrySize
  name := (List.range 36).map fun j => entries (i + 56 + 2 * j)
  startLba := LittleEndian.get 8 entries (i + 32)
  endLba := LittleEndian.get 8 entries (i + 40)
  guid := byteswapGuid fun j => entries (i + j)

/-- The loop over the entries, from offset `i` on; `none` where the offset never gets past
the end. -/
def scanEntries (entries : Buffer) (bufferSize entrySize : ℕ) : ℕ → ℕ → Option (List Partition)
  | 0, _ => none
  | fuel + 1, i =>
    if i < bufferSize then
      let rest := scanEntries entries bufferSize entrySize fuel ((i + entrySize) % 2 ^ 32)
      if nonzeroGuid entries i = 0 then rest
      else rest.map (partitionAt entries entrySize i :: ·)
    else some []

/-- `entry_buffer_size` -/
def entryBufferSize (h : Buffer) : ℕ := h.get .entryCount * h.get .entrySize % 2 ^ 32

/-- `aligned_entry_buffer_size`, in blocks -/
def alignedEntryBufferSize (d : Drive) (h : Buffer) : ℕ :=
  (entryBufferSize h + d.blockSize - 1) >>> d.blockSizeShift % 2 ^ 32

/-- `_gpt_load_partitions`: the partitions created, `none` where the table is not accepted.
The offsets of the entries are 32-bit words, so `2 ^ 32` rounds are enough. -/
def loadPartitions (d : Drive) (headerMemory entryMemory : Buffer) : Option (List Partition) :=
  let (count, h) := d.read 1 headerMemory 1
  if count ≠ 1 ∨ h.get .signature ≠ tableHeaderSignature ∨ h.get .headerSize > d.blockSize then
    none
  else
    let crc := h.get .crc
    let h := h.set .crc 0
    if calculateCrc h (h.get .headerSize) ≠ crc then none
    else if h.get .entrySize < 128 then none
    -- `pmm_alloc` stops on a request for no page
    else if entryBufferSize h = 0 then none
    else
      let (count, entries) := d.read (h.get .entryLba) entryMemory (alignedEntryBufferSize d h)
      if count ≠ alignedEntryBufferSize d h then none
      else if calculateCrc entries (entryBufferSize h) ≠ h.get .entryCrc then none
      else scanEntries entries (entryBufferSize h) (h.get .entrySize) (2 ^ 32) 0

end KernelModel.Gpt
