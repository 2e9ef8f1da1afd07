import KernelModel.DoublyLinked
import KernelModel.DyadicTiling

/-!
The allocator of physical pages.

Addresses are counted in pages, so a block of order `i` has `2 ^ i` of them. The fields of the
block descriptors are kept by pages, those of the buckets by allocators and orders. Null pointers
are `none`. What the memory contains, and when its pages were cleared, is left out.
-/

namespace KernelModel.Pmm

open DoublyLinked DyadicTiling

/-- `PMM_ALLOCATOR_BUCKET_COUNT` -/
def bucketCount : ℕ := 16

/-- `PMM_ALLOCATOR_BLOCK_DESCRIPTOR_INDEX_USED` -/
def indexUsed : ℕ := 31

structure State where
  idx : ℕ → ℕ
  prevIdx : ℕ → ℕ
  prev : ℕ → Option ℕ
  next : ℕ → Option ℕ
  head : ℕ × ℕ → Option ℕ
  tail : ℕ × ℕ → Option ℕ
  bucketBitmap : ℕ × ℕ → Bool
  allocatorCount : ℕ
  loadBalancerIndex : ℕ
  isPartiallyInitialized : Bool

/-- The messages of `panic`. -/
inductive Panic
  | zeroPages
  | tooManyPages
  | outOfMemory
  | listHeadCorrupted
  deriving DecidableEq, Repr

/-- `_get_allocator_from_address` -/
def getAllocatorFromAddress (page : ℕ) : ℕ := page / 2 ^ bucketCount

/-! ### Block descriptors -/

def blockDescriptorDeinit (s : State) (page : ℕ) : State :=
  { s with idx := Function.update s.idx page indexUsed }

def blockDescriptorInit (s : State) (page : ℕ) (prev : Option ℕ) (idx : ℕ) : State :=
  { s with
    prev := Function.update s.prev page prev
    idx := Function.update s.idx page idx
    next := Function.update s.next page none }

def blockDescriptorSetPrevIdx (s : State) (page prevIdx : ℕ) : State :=
  { s with prevIdx := Function.update s.prevIdx page prevIdx }

def blockDescriptorSetPrev (s : State) (page : ℕ) (prev : Option ℕ) : State :=
  { s with prev := Function.update s.prev page prev }

def blockDescriptorSetNext (s : State) (page : ℕ) (next : Option ℕ) : State :=
  { s with next := Function.update s.next page next }

/-! ### Memory ranges -/

/-- `__builtin_ctzll` -/
def ctz (n : ℕ) : ℕ := ((List.range 64).find? n.testBit).getD 64

/-- A block becomes the last one of its bucket; the code is in `_add_memory_range` and at the end
of `pmm_dealloc`. -/
def appendBlock (s : State) (allocator page i : ℕ) : State :=
  let s := blockDescriptorSetPrevIdx s (page + 2 ^ i) i
  let s := blockDescriptorInit s page (s.tail (allocator, i)) i
  let s :=
    match s.tail (allocator, i) with
    | some last => blockDescriptorSetNext s last (some page)
    | none => { s with head := Function.update s.head (allocator, i) (some page) }
  { s with
    tail := Function.update s.tail (allocator, i) (some page)
    bucketBitmap := Function.update s.bucketBitmap (allocator, i) true }

/-- The order of the next block of a range. -/
def rangeOrder (page last : ℕ) : ℕ :=
  let idx := min (ctz page) (bucketCount - 1)
  let length := last - page
  if 2 ^ idx > length then min (Nat.log2 length) (bucketCount - 1) else idx

/-- The loop of `_add_memory_range`, at most `n` times. -/
def addBlocks : ℕ → State → ℕ → ℕ → State
  | 0, s, _, _ => s
  | n + 1, s, page, last =>
    if page < last then
      let i := rangeOrder page last
      addBlocks n (appendBlock s (getAllocatorFromAddress page) page i) (page + 2 ^ i) last
    else s

def addMemoryRange (s : State) (page last : ℕ) : State := addBlocks (last - page) s page last

/-! ### `pmm_alloc` -/

/-- The order of the blocks for a number of pages. -/
def order (count : ℕ) : ℕ := Nat.log2 count + if count &&& (count - 1) ≠ 0 then 1 else 0

/-- The lowest bit in `bucket_bitmap >> i`, as an order. -/
def lowestBit (s : State) (allocator i : ℕ) : Option ℕ :=
  (List.range' i (bucketCount - i)).find? fun j => s.bucketBitmap (allocator, j)

/-- The load balancer goes on to the next allocator. -/
def advance (s : State) : State :=
  let index := s.loadBalancerIndex + 1
  { s with
    loadBalancerIndex := if index ≥ s.allocatorCount then index - s.allocatorCount else index }

/-- The loop that takes allocators in turn, at most `f` times. -/
def nextAllocator : ℕ → State → ℕ → Option (State × ℕ)
  | 0, _, _ => none
  | f + 1, s, i =>
    let index := s.loadBalancerIndex
    let s := advance s
    if (lowestBit s index i).isSome then some (s, index) else nextAllocator f s i

/-- `PMM_LOW_ALLOCATOR_LIMIT/PMM_ALLOCATOR_MAX_REGION_SIZE-1` -/
def lowMemoryWrap : ℕ := 3

def wrapOf (lowMemory : Bool) : ℕ := if lowMemory then lowMemoryWrap else 0xffffffff

/-- `_retry_allocator`, at most `f` times; it gives the allocator, if it finds one. -/
def retryAllocator (s : State) (i wrap baseIndex : ℕ) : ℕ → ℕ → Option (Option ℕ)
  | 0, _ => none
  | f + 1, index =>
    if (lowestBit s index i).isSome then some (some index)
    else
      let index := (index + 1) &&& wrap
      let index := if index = s.allocatorCount then 0 else index
      if index ≠ baseIndex then retryAllocator s i wrap baseIndex f index else some none

/-- The first block of a bucket is taken out. -/
def popBlock (s : State) (allocator j out : ℕ) : State :=
  let s := { s with head := Function.update s.head (allocator, j) (s.next out) }
  let s :=
    match s.head (allocator, j) with
    | none =>
      { s with
        tail := Function.update s.tail (allocator, j) none
        bucketBitmap := Function.update s.bucketBitmap (allocator, j) false }
    | some first => blockDescriptorSetPrev s first none
  blockDescriptorDeinit s out

/-- The second half of a block becomes the only one of its bucket. -/
def splitBlock (s : State) (allocator out j : ℕ) : State :=
  let splitBlock := out + 2 ^ j
  let s := blockDescriptorSetPrevIdx s (splitBlock + 2 ^ j) j
  let s := blockDescriptorInit s splitBlock none j
  { s with
    head := Function.update s.head (allocator, j) (some splitBlock)
    tail := Function.update s.tail (allocator, j) (some splitBlock)
    bucketBitmap := Function.update s.bucketBitmap (allocator, j) true }

/-- The loop from order `i + n` down to `i`. -/
def splitLoop (allocator out i : ℕ) : ℕ → State → State
  | 0, s => s
  | n + 1, s => splitLoop allocator out i n (splitBlock s allocator out (i + n))

/-- What is done with the allocator that has a block. -/
def takeBlock (s : State) (allocator i : ℕ) : Except Panic (State × ℕ) :=
  match lowestBit s allocator i with
  | none => .error .outOfMemory
  | some j =>
    match s.head (allocator, j) with
    | none => .error .listHeadCorrupted
    | some out =>
      if s.idx out ≠ j then .error .listHeadCorrupted
      else
        let s := popBlock s allocator j out
        let s := blockDescriptorSetPrevIdx s (out + 2 ^ i) i
        .ok (splitLoop allocator out i (j - i) s, out)

/-- `pmm_alloc`, with at most `f` rounds of its loops. -/
def pmmAlloc (f : ℕ) (s : State) (count : ℕ) (lowMemory : Bool) :
    Option (Except Panic (State × Option ℕ)) :=
  if !s.isPartiallyInitialized then some (.ok (s, none))
  else if count = 0 then some (.error .zeroPages)
  else
    let i := order count
    if i ≥ bucketCount then some (.error .tooManyPages)
    else
      (nextAllocator f s i).bind fun r =>
        let s := r.1
        let wrap := wrapOf lowMemory
        let index := r.2 &&& wrap
        (retryAllocator s i wrap index f index).map fun
          | none => .error .outOfMemory
          | some allocator => (takeBlock s allocator i).map fun r => (r.1, some r.2)

/-! ### `pmm_dealloc` -/

/-- The buddy is taken out of its bucket. -/
def unlinkBuddy (s : State) (allocator i buddy : ℕ) : State :=
  let buddyPrev := s.prev buddy
  let buddyNext := s.next buddy
  let s := blockDescriptorDeinit s buddy
  let s :=
    match buddyPrev with
    | some prev => blockDescriptorSetNext s prev buddyNext
    | none =>
      { s with
        head := Function.update s.head (allocator, i) buddyNext
        bucketBitmap :=
          if buddyNext = none then Function.update s.bucketBitmap (allocator, i) false
          else s.bucketBitmap }
  match buddyNext with
  | some next => blockDescriptorSetPrev s next buddyPrev
  | none => { s with tail := Function.update s.tail (allocator, i) buddyPrev }

/-- The loop is left in front of a buddy that is not free as a whole. -/
def mergeStops (s : State) (page i : ℕ) : Bool :=
  (page.testBit i && s.prevIdx page ≠ i) || s.idx (page ^^^ 2 ^ i) ≠ i

/-- The page without the bit of the order. -/
def clearBit (page i : ℕ) : ℕ := if page.testBit i then page - 2 ^ i else page

/-- The loop that merges a block with its buddies, at most `n` times. -/
def mergeLoop (allocator : ℕ) : ℕ → State → ℕ → ℕ → State × ℕ × ℕ
  | 0, s, page, i => (s, page, i)
  | n + 1, s, page, i =>
    if mergeStops s page i then (s, page, i)
    else
      mergeLoop allocator n (unlinkBuddy s allocator i (page ^^^ 2 ^ i)) (clearBit page i) (i + 1)

def pmmDealloc (s : State) (page count : ℕ) : Except Panic State :=
  if count = 0 then .error .zeroPages
  else
    let i := order count
    if i ≥ bucketCount then .error .tooManyPages
    else
      let allocator := getAllocatorFromAddress page
      let r := mergeLoop allocator (bucketCount - 1 - i) s page i
      .ok (appendBlock r.1 allocator r.2.1 r.2.2)

end KernelModel.Pmm
