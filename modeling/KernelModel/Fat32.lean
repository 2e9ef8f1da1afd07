import KernelModel.LittleEndian

/-!
FAT32 volumes.

A volume has a boot sector, allocation tables and clusters. The table is read sector by sector
when it is first needed. The disk transfers all that it is asked for, and the allocator returns
cleared pages, so a new table has no sector loaded. The directory functions get fuel for their
loops, as a chain on the disk may be cyclic; `none` is a loop that does not end with it.
-/

namespace KernelModel.Fat32

open LittleEndian

abbrev Buffer := ℕ → UInt8

/-- `FAT32_SECTOR_SIZE` -/
def sectorSize : ℕ := 512

/-- The numbers of `fat32_filesystem_config_t`. -/
structure Config where
  blockSize : ℕ
  startLba : ℕ
  endLba : ℕ

/-- `fat32_filesystem_t` without the table. -/
structure Filesystem where
  config : Config
  clusterSize : ℕ
  reservedSectors : ℕ
  fatCount : ℕ
  sectorCount : ℕ
  sectorsPerFat : ℕ
  rootDirectoryCluster : ℕ
  firstClusterLba : ℕ

/-- `fat32_filesystem_init`, with the first sector of the partition. -/
def filesystemInit (config : Config) (boot : Buffer) : Option Filesystem :=
  let blockCount := (config.endLba + 2 ^ 64 - config.startLba + 1) % 2 ^ 32
  if config.blockSize ≠ sectorSize ∨ blockCount < 32 then none
  else if boot 0 ≠ 0xeb ∨ boot 2 ≠ 0x90 ∨ boot 21 ≠ 0xf8 ∨ (boot 66 ≠ 0x28 ∧ boot 66 ≠ 0x29) ∨
      boot 510 ≠ 0x55 ∨ boot 511 ≠ 0xaa then none
  else if get 2 boot 11 ≠ sectorSize ∨ get 2 boot 17 ≠ 0 ∨ get 2 boot 19 ≠ 0 ∨
      get 2 boot 22 ≠ 0 ∨ get 2 boot 42 ≠ 0 then none
  else
    some {
      config := config
      clusterSize := (boot 13).toNat * sectorSize
      reservedSectors := (boot 14).toNat
      fatCount := (boot 16).toNat
      sectorCount := get 4 boot 32
      sectorsPerFat := get 4 boot 36
      rootDirectoryCluster := get 4 boot 44
      firstClusterLba := (config.startLba + (boot 14).toNat +
        (boot 16).toNat * get 4 boot 36) % 2 ^ 32 }

/-- What changes: the sectors, and the table as far as it is loaded. -/
structure Volume where
  disk : ℕ → Buffer
  fatBitmap : ℕ → Bool
  fatData : Buffer

/-- The data of `count` sectors; what is behind them in the buffer stays. -/
def readSectors (disk : ℕ → Buffer) (lba count : ℕ) (buffer : Buffer) : Buffer := fun i =>
  if i < count * sectorSize then disk (lba + i / sectorSize) (i % sectorSize) else buffer i

def writeSectors (disk : ℕ → Buffer) (lba count : ℕ) (buffer : Buffer) : ℕ → Buffer := fun b i =>
  if lba ≤ b ∧ b < lba + count ∧ i < sectorSize then buffer ((b - lba) * sectorSize + i)
  else disk b i

namespace Volume

def write (v : Volume) (lba count : ℕ) (buffer : Buffer) : Volume :=
  { v with disk := writeSectors v.disk lba count buffer }

/-- A sector of the table is loaded, unless it is. -/
def load (fs : Filesystem) (v : Volume) (i : ℕ) : Volume :=
  if v.fatBitmap i then v
  else
    { v with
      fatBitmap := Function.update v.fatBitmap i true
      fatData := fun j =>
        if i * sectorSize ≤ j ∧ j < (i + 1) * sectorSize then
          v.disk (fs.config.startLba + fs.reservedSectors + i) (j - i * sectorSize)
        else v.fatData j }

end Volume

section

variable (fs : Filesystem) (v : Volume)

/-! ### The table -/

def sectorsPerCluster : ℕ := fs.clusterSize / sectorSize

def clusterCount : ℕ :=
  (fs.sectorCount + 2 ^ 32 - fs.firstClusterLba) % 2 ^ 32 / sectorsPerCluster fs

/-- The numbers that are clusters. -/
def ValidCluster (cluster : ℕ) : Prop := 2 ≤ cluster ∧ cluster < clusterCount fs

instance (cluster : ℕ) : Decidable (ValidCluster fs cluster) :=
  inferInstanceAs (Decidable (_ ∧ _))

def endOfChain : ℕ := 0x0fffffff

/-- `FAT32_SECTOR_SIZE/sizeof(u32)` -/
def entriesPerSector : ℕ := 128

/-- `_get_cluster_value` -/
def getClusterValue (cluster : ℕ) : ℕ × Volume :=
  if ¬ValidCluster fs cluster then (endOfChain, v)
  else
    let v := v.load fs (cluster / entriesPerSector)
    (get 4 v.fatData (4 * cluster) % 2 ^ 28, v)

/-- `_set_cluster_value`: the sector is written as it is in memory. -/
def setClusterValue (cluster value : ℕ) : Volume :=
  let data := put 4 v.fatData (4 * cluster) value
  let i := cluster / entriesPerSector
  Volume.write { v with fatData := data } (fs.config.startLba + fs.reservedSectors + i) 1
    fun j => data (i * sectorSize + j)

/-- The loop of `_alloc_cluster`, over `n` clusters. -/
def allocFrom (v : Volume) : ℕ → ℕ → ℕ × Volume
  | 0, _ => (0, v)
  | n + 1, cluster =>
    let (value, v) := getClusterValue fs v cluster
    if value ≠ 0 then allocFrom v n (cluster + 1)
    else (cluster, setClusterValue fs v cluster endOfChain)

/-- `_alloc_cluster`: the first free cluster, `0` where there is none. -/
def allocCluster : ℕ × Volume := allocFrom fs v (clusterCount fs - 2) 2

/-- `_get_next_cluster` -/
def getNextCluster (cluster : ℕ) : ℕ × Volume :=
  let (next, v) := getClusterValue fs v cluster
  (if ValidCluster fs next then next else 0, v)

/-! ### Clusters -/

/-- The first sector of a cluster, a 32-bit word. -/
def clusterLba (cluster : ℕ) : ℕ := (fs.firstClusterLba + cluster + 2 ^ 32 - 2) % 2 ^ 32

def readCluster (cluster : ℕ) (buffer : Buffer) : Buffer :=
  readSectors v.disk (clusterLba fs cluster) (sectorsPerCluster fs) buffer

def writeCluster (cluster : ℕ) (buffer : Buffer) : Volume :=
  v.write (clusterLba fs cluster) (sectorsPerCluster fs) buffer

/-- What the allocator returns. -/
def cleared : Buffer := fun _ => 0

/-- `data_chunk_t` -/
structure Chunk where
  offset : ℕ
  cluster : ℕ
  lastValidCluster : ℕ
  data : Option Buffer

/-- `_chunk_init` -/
def chunkInit : Chunk := ⟨0, 0, 0, none⟩

/-- The loop of `_chunk_read`: `n` clusters further, `0` behind the last one. -/
def follow (v : Volume) : ℕ → ℕ → ℕ × Volume
  | 0, cluster => (cluster, v)
  | n + 1, cluster =>
    let (next, v) := getNextCluster fs v cluster
    if next = 0 then (0, v) else follow v n next

/-- `_chunk_read` with `fetch_data`, of the file that starts with the cluster `first`. -/
def chunkRead (first offset : ℕ) (chunk : Chunk) : Bool × Chunk × Volume :=
  if first = 0 then (false, chunk, v)
  else
    let offset := offset / fs.clusterSize
    if chunk.cluster ≠ 0 ∧ chunk.offset = offset then (true, chunk, v)
    else
      let (start, cluster) :=
        if chunk.offset > offset ∨ chunk.cluster = 0 then (0, first)
        else (chunk.offset, chunk.cluster)
      let (cluster, v) := follow fs v (offset - start) cluster
      if cluster = 0 then (false, { chunk with offset := 0, cluster := 0 }, v)
      else
        (true, {
          offset := offset
          cluster := cluster
          lastValidCluster := cluster
          data := some (readCluster fs v cluster (chunk.data.getD cleared)) }, v)

/-! ### Nodes -/

/-- `fat32_time_t` -/
structure Time where
  year : ℕ
  month : ℕ
  day : ℕ
  hour : ℕ
  minute : ℕ
  second : ℕ
  nanosecond : ℕ

def Time.zero : Time := ⟨0, 0, 0, 0, 0, 0, 0⟩

/-- `fat32_node_t` -/
structure Node where
  pointer : ℕ
  readonly : Bool
  directory : Bool
  cluster : ℕ
  size : ℕ
  timeAccess : Time
  timeModify : Time
  timeBirth : Time

/-- `fat32_filesystem_get_root` -/
def getRoot : Node :=
  ⟨0, false, true, fs.rootDirectoryCluster, 0, Time.zero, Time.zero, Time.zero⟩

def Time.timeBits (t : Time) : ℕ := (t.hour <<< 11) ||| (t.minute <<< 5) ||| (t.second >>> 1)

def Time.dateBits (t : Time) : ℕ :=
  ((t.year + 2 ^ 16 - 1980) <<< 9) ||| (t.month <<< 8) ||| t.day

/-- The entry at offset `e` of a cluster, with the data of the node. -/
def putNode (node : Node) (e : ℕ) (buffer : Buffer) : Buffer :=
  let attributes := (buffer (e + 11) &&& 0xfe) ||| (if node.readonly then 1 else 0)
  let b := put 1 buffer (e + 11) attributes.toNat
  let b := put 1 b (e + 13) (node.timeBirth.second % 2 * 100 + node.timeBirth.nanosecond / 1000000)
  let b := put 2 b (e + 14) node.timeBirth.timeBits
  let b := put 2 b (e + 16) node.timeBirth.dateBits
  let b := put 2 b (e + 18) node.timeAccess.dateBits
  let b := put 2 b (e + 20) (node.cluster >>> 16)
  let b := put 2 b (e + 22) node.timeModify.timeBits
  let b := put 2 b (e + 24) node.timeModify.dateBits
  let b := put 2 b (e + 26) node.cluster
  put 4 b (e + 28) node.size

/-- The first sector of the cluster that holds a node's entry, a 64-bit word. -/
def entryLba (node : Node) : ℕ :=
  (fs.firstClusterLba + node.pointer / fs.clusterSize + 2 ^ 64 - 2) % 2 ^ 64

/-- `fat32_node_flush` -/
def nodeFlush (node : Node) : Bool × Volume :=
  if node.pointer = 0 then (false, v)
  else
    let buffer := readSectors v.disk (entryLba fs node) (sectorsPerCluster fs) cleared
    let entry := node.pointer &&& (fs.clusterSize - 1)
    (true, v.write (entryLba fs node) (sectorsPerCluster fs) (putNode node entry buffer))

/-! ### Resizing -/

/-- What `fat32_node_resize` leaves behind; `full` says that a cluster was asked for in vain. -/
structure Resized where
  returned : ℕ
  node : Node
  volume : Volume
  full : Bool

/-- The loop of `fat32_node_resize`: it follows the chain for `remaining` clusters, and makes it
longer where it ends. -/
def extend (v : Volume) : ℕ → ℕ → Bool → Volume × Bool
  | 0, _, full => (v, full)
  | remaining + 1, cluster, full =>
    let (next, v) := getNextCluster fs v cluster
    if next ≠ 0 then extend v remaining next full
    else
      let (next, v) := allocCluster fs v
      let v := setClusterValue fs v cluster next
      extend (writeCluster fs v next cleared) remaining next (full || next == 0)

/-- `(size+fs->cluster_size-1)/fs->cluster_size` in 64-bit words -/
def clustersOf (size : ℕ) : ℕ := (size + fs.clusterSize - 1) % 2 ^ 64 / fs.clusterSize

/-- `fat32_node_resize`; it stops on a smaller size, and on clusters of no sectors. The size of a
node is a 32-bit word, in the comparison too. -/
def nodeResize (node : Node) (size : ℕ) : Option Resized :=
  if node.directory then some ⟨0, node, v, false⟩
  else if fs.clusterSize = 0 then none
  else if (node.size + fs.clusterSize - 1) % 2 ^ 32 / fs.clusterSize =
      clustersOf fs size then
    let node := { node with size := size % 2 ^ 32 }
    some ⟨size, node, (nodeFlush fs v node).2, false⟩
  else if node.size > size then none
  else
    let remaining := clustersOf fs size % 2 ^ 32
    let (node, v, full) :=
      if node.cluster = 0 then
        let (cluster, v) := allocCluster fs v
        let node := { node with cluster := cluster }
        let v := (nodeFlush fs v node).2
        (node, writeCluster fs v cluster cleared, cluster == 0)
      else (node, v, false)
    let (v, full) := extend fs v remaining node.cluster full
    let node := { node with size := size % 2 ^ 32 }
    some ⟨node.size, node, (nodeFlush fs v node).2, full⟩

end

end KernelModel.Fat32
