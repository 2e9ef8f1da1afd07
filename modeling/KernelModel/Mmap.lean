import KernelModel.KeyTree
import KernelModel.Tiling

/-!
The regions of a memory map.

The addresses from the heap address to the top address belong to regions or are free. The free
regions are found by their address, and by their length through groups. The pages of a region and
its file are left out.
-/

namespace KernelModel.MemoryMap

open KeyTree

/-- The guard pages below a region, `MMAP_STACK_GUARD_PAGE_COUNT` of them for a stack. -/
def guardPageSize (isStack : Bool) : ℕ := if isStack then 4 * 2 ^ 12 else 0

structure Region where
  key : ℕ
  length : ℕ
  isStack : Bool
  deriving DecidableEq

/-- A free region; its length is the key of its group. -/
structure FreeRegion where
  key : ℕ
  length : ℕ
  deriving DecidableEq

/-- The free regions of a length, by their addresses. -/
structure LengthGroup where
  key : ℕ
  regions : List ℕ
  deriving DecidableEq

structure Mmap where
  bottomAddress : ℕ
  breakAddress : ℕ
  heapAddress : ℕ
  topAddress : ℕ
  addressTree : List Region
  lengthTree : List LengthGroup
  freeAddressTree : List FreeRegion

/-- `mmap_init` -/
def mmapInit (bottomAddress topAddress : ℕ) : Mmap where
  bottomAddress := bottomAddress
  breakAddress := bottomAddress
  heapAddress := topAddress
  topAddress := topAddress
  addressTree := []
  lengthTree := []
  freeAddressTree := []

/-! ### Free regions -/

/-- The free region leaves its group, which goes when it is empty. -/
def popFromGroup (lengthTree : List LengthGroup) (freeRegion : FreeRegion) : List LengthGroup :=
  match lookupNode LengthGroup.key lengthTree freeRegion.length with
  | none => lengthTree
  | some group =>
    let regions := group.regions.erase freeRegion.key
    if regions = [] then removeNode LengthGroup.key lengthTree freeRegion.length
    else modifyNode LengthGroup.key lengthTree freeRegion.length fun g => { g with regions }

/-- `_pop_free_region` -/
def popFreeRegion (m : Mmap) (freeRegion : FreeRegion) : Mmap :=
  { m with
    freeAddressTree := removeNode FreeRegion.key m.freeAddressTree freeRegion.key
    lengthTree := popFromGroup m.lengthTree freeRegion }

/-- The groups with one for the length. -/
def withGroup (lengthTree : List LengthGroup) (length : ℕ) : Option (List LengthGroup) :=
  if (lookupNode LengthGroup.key lengthTree length).isSome then some lengthTree
  else insertNode LengthGroup.key lengthTree ⟨length, []⟩

/-- A free region is put at the head of its group. -/
def insertFreeRegion (m : Mmap) (address length : ℕ) : Option Mmap := do
  let lengthTree ← withGroup m.lengthTree length
  let freeAddressTree ← insertNode FreeRegion.key m.freeAddressTree ⟨address, length⟩
  let lengthTree := modifyNode LengthGroup.key lengthTree length fun g =>
    { g with regions := address :: g.regions }
  some { m with lengthTree, freeAddressTree }

/-- The free region that ends at an address. -/
def leftNeighbour (m : Mmap) (address : ℕ) : Option FreeRegion :=
  (lookupDecreasingNode FreeRegion.key m.freeAddressTree address).filter fun f =>
    (f.key + f.length) % 2 ^ 64 = address

/-- The end of `_push_free_region`, after a left neighbour was taken in. -/
def pushMerged (m : Mmap) (address length : ℕ) : Option Mmap :=
  if address = m.heapAddress then
    some { m with heapAddress := (m.heapAddress + length) % 2 ^ 64 }
  else insertFreeRegion m address length

/-- `_push_free_region` -/
def pushFreeRegion (m : Mmap) (address length : ℕ) : Option Mmap :=
  match leftNeighbour m address with
  | some f =>
    pushMerged (popFreeRegion m f) ((address + 2 ^ 64 - f.length) % 2 ^ 64)
      ((length + f.length) % 2 ^ 64)
  | none => pushMerged m address length

/-! ### Regions -/

/-- `_dealloc_region` -/
def deallocRegion (m : Mmap) (region : Region) : Option Mmap :=
  pushFreeRegion
    { m with addressTree := removeNode Region.key m.addressTree region.key }
    ((region.key + 2 ^ 64 - guardPageSize region.isStack) % 2 ^ 64)
    ((region.length + guardPageSize region.isStack) % 2 ^ 64)

/-- Addresses for a region: a free region that is long enough, or the end of the heap. -/
def takeAddress (m : Mmap) (length : ℕ) : Option (Option ℕ × Mmap) :=
  match lookupIncreasingNode LengthGroup.key m.lengthTree length with
  | some group =>
    match group.regions with
    | [] => none
    | address :: _ =>
      let m := popFreeRegion m ⟨address, group.key⟩
      if group.key > length then
        (pushFreeRegion m ((address + length) % 2 ^ 64) (group.key - length)).map fun m =>
          (some address, m)
      else some (some address, m)
  | none =>
    if (m.breakAddress + length) % 2 ^ 64 > m.heapAddress then some (none, m)
    else
      let heapAddress := (m.heapAddress + 2 ^ 64 - length) % 2 ^ 64
      some (some heapAddress, { m with heapAddress })

/-- `mmap_alloc` with the address 0: the region, or none for a null pointer. -/
def mmapAlloc (m : Mmap) (length : ℕ) (isStack : Bool) : Option (Option Region × Mmap) :=
  if length % 2 ^ 12 ≠ 0 then some (none, m)
  else if length = 0 ∨ length / 2 ^ 47 ≠ 0 then some (none, m)
  else do
    let (address, m) ← takeAddress m (length + guardPageSize isStack)
    match address with
    | none => some (none, m)
    | some address =>
      let region : Region := ⟨(address + guardPageSize isStack) % 2 ^ 64, length, isStack⟩
      let addressTree ← insertNode Region.key m.addressTree region
      some (some region, { m with addressTree })

/-- `mmap_dealloc` -/
def mmapDealloc (m : Mmap) (address length : ℕ) : Option (Bool × Mmap) :=
  match lookupDecreasingNode Region.key m.addressTree address with
  | none => some (false, m)
  | some region =>
    if (region.key + region.length) % 2 ^ 64 ≤ address then some (false, m)
    else
      let length := if length = 0 then (region.key + region.length - address) % 2 ^ 64 else length
      if region.key ≠ address ∨ region.length ≠ length then none
      else (deallocRegion m region).map fun m => (true, m)

/-- `mmap_lookup` -/
def mmapLookup (m : Mmap) (address : ℕ) : Option Region :=
  (lookupDecreasingNode Region.key m.addressTree address).filter fun region =>
    ¬(region.key + region.length) % 2 ^ 64 ≤ address

/-! ### Calls -/

inductive Op
  | alloc (length : ℕ) (isStack : Bool)
  | deallocRegion (region : Region)
  | dealloc (address length : ℕ)

/-- Lengths are multiples of a page, and whole regions are given back. -/
def Op.Called (m : Mmap) : Op → Prop
  | .alloc length _ => length % 2 ^ 12 = 0
  | .deallocRegion region => region ∈ m.addressTree
  | .dealloc address length =>
    ∃ region ∈ m.addressTree, region.key = address ∧ (length = 0 ∨ length = region.length)

def step (m : Mmap) : Op → Option Mmap
  | .alloc length isStack => (mmapAlloc m length isStack).map Prod.snd
  | .deallocRegion region => MemoryMap.deallocRegion m region
  | .dealloc address length => (mmapDealloc m address length).map Prod.snd

/-- What any calls make of a new memory map. -/
inductive Reaches (bottomAddress topAddress : ℕ) : Mmap → Prop
  | init : Reaches bottomAddress topAddress (mmapInit bottomAddress topAddress)
  | step {m m' : Mmap} {op : Op} : Reaches bottomAddress topAddress m → op.Called m →
      MemoryMap.step m op = some m' → Reaches bottomAddress topAddress m'

end KernelModel.MemoryMap
