import KernelModel.Gpt

/-!
Loading a partition table, with all that it does to memory.

The drive may transfer fewer blocks than it is asked for. A run is the list of its allocations,
accesses and partitions, with how it ended. Allocating stops the kernel for no page and for more
than one bucket holds; otherwise there is enough memory. `partition_create` looks for a file
system in the new partition, and some of these stop the kernel for some disks: whether it returns
is a parameter. The calls differ in the index, so that one answer for each partition is enough.
-/

namespace KernelModel.Gpt

/-- The buffers of one run; each `drive_read` has one of its own. -/
inductive Chunk
  | header
  | entries
  | transfer (i : ℕ)
  deriving DecidableEq

inductive Event
  | alloc (chunk : Chunk) (pages : ℕ)
  | dealloc (chunk : Chunk) (pages : ℕ)
  | access (chunk : Chunk) (offset size : ℕ)
  | create (offset : ℕ) (partition : Partition)

/-- The partition that an event makes. -/
def Event.partition? : Event → Option Partition
  | .create _ partition => some partition
  | _ => none

inductive Outcome
  | returned (out : Bool)
  | panicked
  | running
  deriving DecidableEq

def pageSize : ℕ := 4096

def pmmAllocatorBucketCount : ℕ := 16

/-- `pmm_align_up_address(size)>>PAGE_SIZE_SHIFT` -/
def pages (size : ℕ) : ℕ := (size + pageSize - 1) / pageSize

/-- `pmm_alloc` and `pmm_dealloc` do not stop the kernel; the bucket is the logarithm of the
count, rounded up. -/
def Serves (count : ℕ) : Prop := count ≠ 0 ∧ Nat.clog 2 count < pmmAllocatorBucketCount

instance (count : ℕ) : Decidable (Serves count) := inferInstanceAs (Decidable (_ ∧ _))

section

variable (d : Drive) (io : ℕ → ℕ) (creates : Partition → Bool)

/-- `drive_read`, the `i`-th one, into the start of a chunk: its events, and the number of blocks
read with the buffer afterwards. The drive transfers at most `io i` blocks. -/
def driveRead (i offset : ℕ) (chunk : Chunk) (buffer : Buffer) (size : ℕ) :
    List Event × Option (ℕ × Buffer) :=
  if offset ≥ d.blockCount then ([], some (0, buffer))
  else
    let size := d.transferSize offset size
    if size = 0 then ([], some (0, buffer))
    else
      let count := pages (size * d.blockSize)
      if ¬Serves count then ([], none)
      else
        let out := min (io i) size
        ([.alloc (.transfer i) count, .access (.transfer i) 0 (out * d.blockSize),
            .access chunk 0 (out * d.blockSize), .dealloc (.transfer i) count],
          some (out, fun j =>
            if j < out * d.blockSize then
              d.block (Drive.offsetMask offset + j / d.blockSize) (j % d.blockSize)
            else buffer j))

/-- The loop over the entries, from offset `i` on: its events, and how it ends. -/
def scan (entries : Buffer) (bufferSize entrySize : ℕ) : ℕ → ℕ → List Event × Outcome
  | 0, _ => ([], .running)
  | fuel + 1, i =>
    if i < bufferSize then
      let rest := scan entries bufferSize entrySize fuel ((i + entrySize) % 2 ^ 32)
      if nonzeroGuid entries i = 0 then (.access .entries i 16 :: rest.1, rest.2)
      else
        let partition := partitionAt entries entrySize i
        let events :=
          [.access .entries i 16, .access .entries i sizeofEntry, .create i partition]
        if creates partition then (events ++ rest.1, rest.2) else (events, .panicked)
    else ([], .returned true)

/-- `_gpt_load_partitions` from the entries on, without the release of the header. -/
def loadEntries (h entryMemory : Buffer) : List Event × Outcome :=
  let size := entryBufferSize h
  if ¬Serves (pages size) then ([], .panicked)
  else
    let allocate := Event.alloc .entries (pages size)
    let free := Event.dealloc .entries (pages size)
    let blocks := alignedEntryBufferSize d h
    match driveRead d io 1 (h.get .entryLba) .entries entryMemory blocks with
    | (events, none) => (allocate :: events, .panicked)
    | (events, some (count, entries)) =>
      -- the buffer is freed here and in the cleanup again
      if count ≠ blocks then (allocate :: events ++ [free, free], .returned false)
      else if calculateCrc entries size ≠ h.get .entryCrc then
        (allocate :: events ++ [.access .entries 0 size, free], .returned false)
      else
        match scan creates entries size (h.get .entrySize) (2 ^ 32) 0 with
        | (events', .returned out) =>
          (allocate :: events ++ .access .entries 0 size :: events' ++ [free], .returned out)
        | (events', outcome) => (allocate :: events ++ .access .entries 0 size :: events', outcome)

/-- `_gpt_load_partitions` -/
def load (headerMemory entryMemory : Buffer) : List Event × Outcome :=
  let headerPages := pages d.blockSize
  if ¬Serves headerPages then ([], .panicked)
  else
    let allocate := Event.alloc .header headerPages
    let free := Event.dealloc .header headerPages
    match driveRead d io 0 1 .header headerMemory 1 with
    | (events, none) => (allocate :: events, .panicked)
    | (events, some (count, h)) =>
      if count ≠ 1 then (allocate :: events ++ [free], .returned false)
      else if h.get .signature ≠ tableHeaderSignature ∨ h.get .headerSize > d.blockSize then
        (allocate :: events ++ [.access .header 0 sizeofHeader, free], .returned false)
      else
        let crc := h.get .crc
        let h := h.set .crc 0
        let checked := [.access .header 0 sizeofHeader, .access .header 0 (h.get .headerSize)]
        if calculateCrc h (h.get .headerSize) ≠ crc ∨ h.get .entrySize < 128 then
          (allocate :: events ++ checked ++ [free], .returned false)
        else
          match loadEntries d io creates h entryMemory with
          | (events', .returned out) =>
            (allocate :: events ++ checked ++ events' ++ [free], .returned out)
          | (events', outcome) => (allocate :: events ++ checked ++ events', outcome)

end

/-! ### What is safe -/

/-- The pages of the chunks that are allocated. -/
abbrev Live := Chunk → Option ℕ

/-- One event: a chunk is freed as it was allocated, and accessed inside. -/
def Live.event (live : Live) : Event → Option Live
  | .alloc chunk pages =>
    if live chunk = none then some (Function.update live chunk (some pages)) else none
  | .dealloc chunk pages =>
    if live chunk = some pages then some (Function.update live chunk none) else none
  | .access chunk offset size =>
    match live chunk with
    | some pages => if offset + size ≤ pages * pageSize then some live else none
    | none => none
  | .create _ _ => some live

def Live.events (live : Live) : List Event → Option Live
  | [] => some live
  | event :: events => (live.event event).bind (Live.events · events)

/-- Nothing is allocated. -/
def Live.none : Live := fun _ => Option.none

/-- The header after the read, without its checksum. -/
def loadedHeader (d : Drive) (io : ℕ → ℕ) (headerMemory : Buffer) : Buffer :=
  match (driveRead d io 0 1 .header headerMemory 1).2 with
  | some (_, h) => h.set .crc 0
  | none => headerMemory

/-- A run that ends, frees what it allocates once, stays inside of its buffers, and makes
partitions of whole entries only. -/
structure Safe (d : Drive) (io : ℕ → ℕ) (creates : Partition → Bool)
    (headerMemory entryMemory : Buffer) : Prop where
  ends : ∃ out, (load d io creates headerMemory entryMemory).2 = .returned out
  memory : Live.none.events (load d io creates headerMemory entryMemory).1 = some Live.none
  whole : ∀ i partition, .create i partition ∈ (load d io creates headerMemory entryMemory).1 →
    i + sizeofEntry ≤ entryBufferSize (loadedHeader d io headerMemory)

end KernelModel.Gpt
