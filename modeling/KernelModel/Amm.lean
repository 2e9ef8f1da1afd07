import KernelModel.LittleEndian
import KernelModel.Tiling

/-!
The kernel's heap of blocks of arbitrary size.

A block starts with a header that holds an index: of a slab allocator, whose sizes are the powers
of two and the numbers halfway between them, or a number of bytes that is a power of two, in whole
pages. Where a block lies is decided by the allocator that it is taken from; what the allocators
keep in free memory is left out.
-/

namespace KernelModel.Amm

open LittleEndian

def pageSize : ℕ := 2 ^ 12

/-- `ALLOCATOR_COUNT` -/
def allocatorCount : ℕ := (12 - 3) <<< 1

/-- `sizeof(amm_header_t)` -/
def headerSize : ℕ := 8

/-- `!!(size&(size-1))` -/
def isUneven (size : ℕ) : ℕ := if size &&& (size - 1) ≠ 0 then 1 else 0

/-- `_size_to_index`; `__builtin_clzll` counts the zeros above the highest bit. -/
def sizeToIndex (size : ℕ) : ℕ :=
  let size := (size + 7) / 8 * 8
  let i := 60 - (63 - size.log2)
  if size > 3 <<< 10 then 8 <<< (i + isUneven size)
  else (i <<< 1) + isUneven size + if size > 3 <<< (i + 2) then 1 else 0

/-- `_index_to_size`; the shift is negative at index 1 alone, for which there is no allocator. -/
def indexToSize (index : ℕ) : ℕ :=
  if index ≥ pageSize then index
  else (8 ||| (index % 2) <<< 4) <<< (index / 2 - index % 2)

/-! ### The heap -/

/-- Where a block comes from. -/
inductive Source
  | allocator (index : ℕ)
  | pages (count : ℕ)
  deriving DecidableEq

/-- The index in the header of a block. -/
def Source.index : Source → ℕ
  | allocator index => index
  | pages count => count * pageSize

/-- The size of a block: `omm_init` gets the size of the objects, `pmm_alloc` the page count. -/
def Source.size : Source → ℕ
  | allocator index => indexToSize index + headerSize
  | pages count => count * pageSize

structure Block where
  address : ℕ
  source : Source
  deriving DecidableEq

/-- The bytes a block takes up. -/
def Block.range (b : Block) : Range := ⟨b.address, b.address + b.source.size⟩

/-- The pointer that `amm_alloc` returns. -/
def Block.ptr (b : Block) : ℕ := b.address + headerSize

/-- `current_length` in `amm_realloc` -/
def Block.capacity (b : Block) : ℕ := indexToSize b.source.index - headerSize

/-- The memory, with the blocks that are in use. -/
structure Heap where
  memory : ℕ → UInt8
  blocks : List Block

/-- The order of a page count, `PMM_ALLOCATOR_BUCKET_COUNT` of which exist. -/
def pageOrder (count : ℕ) : ℕ := count.log2 + isUneven count

/-- What a block with the index is taken from; `pmm_alloc` panics if there are too many pages. -/
def sourceOf (index : ℕ) : Option Source :=
  if index ≥ pageSize then
    if pageOrder (index / pageSize) ≥ 16 then none else some (.pages (index / pageSize))
  else if index < allocatorCount ∧ index ≠ 1 then some (.allocator index)
  else none

/-- What `amm_alloc` takes a block of a length from, if `pmm_alloc` does not panic. -/
def sourceFor (length : ℕ) : Option Source := sourceOf (sizeToIndex (length + headerSize))

def memFill (memory : ℕ → UInt8) (ptr length : ℕ) (value : UInt8) : ℕ → UInt8 := fun i =>
  if ptr ≤ i ∧ i < ptr + length then value else memory i

def memCopy (memory : ℕ → UInt8) (dst src length : ℕ) : ℕ → UInt8 := fun i =>
  if dst ≤ i ∧ i < dst + length then memory (src + (i - dst)) else memory i

/-- `amm_alloc`, for a block at `address`: the heap and the pointer. -/
def ammAlloc (h : Heap) (length address : ℕ) : Option (Heap × ℕ) :=
  if length = 0 then some (h, 0)
  else
    (sourceFor length).map fun source =>
      let memory := put 8 h.memory address (sizeToIndex (length + headerSize))
      let memory := memFill memory (address + headerSize) length 0
      (⟨memory, ⟨address, source⟩ :: h.blocks⟩, address + headerSize)

/-- A block of memory as its owner sees it, with the index in its header. -/
structure Allocation where
  index : ℕ
  data : ℕ → UInt8

/-- `amm_alloc` as its caller sees it; `heap` is what lies behind the bytes that are cleared. -/
def alloc (heap : ℕ → UInt8) (length : ℕ) : Option (Option Allocation) :=
  if length = 0 then some none
  else (sourceFor length).map fun _ =>
    some ⟨sizeToIndex (length + headerSize), fun i => if i < length then 0 else heap i⟩

/-- `amm_dealloc`, with no result if the block did not come from where it is returned to. -/
def ammDealloc (h : Heap) (ptr : ℕ) : Option Heap :=
  if ptr = 0 then some h
  else
    let header := ptr - headerSize
    let index := get 8 h.memory header
    let memory := memFill h.memory header (indexToSize index) 0
    (sourceOf index).bind fun source =>
      if ⟨header, source⟩ ∈ h.blocks then some ⟨memory, h.blocks.erase ⟨header, source⟩⟩ else none

/-- `amm_realloc`; a new block lies at `address`. -/
def ammRealloc (h : Heap) (ptr length address : ℕ) : Option (Heap × ℕ) :=
  if ptr = 0 then ammAlloc h length address
  else if length = 0 then (ammDealloc h ptr).map fun h => (h, 0)
  else
    let header := get 8 h.memory (ptr - headerSize)
    if sizeToIndex (length + headerSize) = header then some (h, ptr)
    else
      let currentLength := indexToSize header - headerSize
      (ammAlloc h length address).bind fun (h, out) =>
        let h := { h with
          memory :=
            memCopy h.memory out ptr (if length < currentLength then length else currentLength) }
        (ammDealloc h ptr).map fun h => (h, out)

/-! ### Calls -/

/-- The place is free for a block of the length: the allocator finds no other. -/
def IsFree (h : Heap) (length address : ℕ) : Prop :=
  ∀ source, sourceFor length = some source →
    ∀ b ∈ h.blocks, (Block.mk address source).range.Apart b.range

inductive Op
  | alloc (length address : ℕ)
  | dealloc (ptr : ℕ)
  | realloc (ptr length address : ℕ)
  | write (ptr offset : ℕ) (value : UInt8)

/-- The pointer is null, or one to a block in use. -/
def IsPtr (h : Heap) (ptr : ℕ) : Prop := ptr = 0 ∨ ∃ b ∈ h.blocks, ptr = b.ptr

/-- How the functions are called, and what the owner of a block writes. -/
def Op.Called (h : Heap) : Op → Prop
  | .alloc length address => length < 2 ^ 32 ∧ IsFree h length address
  | .dealloc ptr => IsPtr h ptr
  | .realloc ptr length address => IsPtr h ptr ∧ length < 2 ^ 32 ∧ IsFree h length address
  | .write ptr offset _ => ∃ b ∈ h.blocks, ptr = b.ptr ∧ offset < b.capacity

def step (h : Heap) : Op → Option Heap
  | .alloc length address => (ammAlloc h length address).map Prod.fst
  | .dealloc ptr => ammDealloc h ptr
  | .realloc ptr length address => (ammRealloc h ptr length address).map Prod.fst
  | .write ptr offset value =>
    some { h with memory := Function.update h.memory (ptr + offset) value }

/-- What any calls make of a heap without blocks. -/
inductive Reaches : Heap → Prop
  | init (memory : ℕ → UInt8) : Reaches ⟨memory, []⟩
  | step {h h' : Heap} {op : Op} : Reaches h → op.Called h → Amm.step h op = some h' → Reaches h'

/-! ### Sizes -/

lemma isUneven_eq_zero {n : ℕ} (hn : n ≠ 0) : isUneven n = 0 ↔ ∃ k, n = 2 ^ k := by
  rw [isUneven, ← Nat.isPowerOfTwo, ← Nat.and_sub_one_eq_zero_iff_isPowerOfTwo hn]
  split <;> simp_all

lemma isUneven_le (n : ℕ) : isUneven n ≤ 1 := by
  rw [isUneven]
  split <;> omega

lemma isUneven_two_pow (k : ℕ) : isUneven (2 ^ k) = 0 :=
  (isUneven_eq_zero (by positivity)).mpr ⟨k, rfl⟩

lemma isUneven_between {n k : ℕ} (hlt : 2 ^ k < n) (hgt : n < 2 ^ (k + 1)) : isUneven n = 1 := by
  have hne : isUneven n ≠ 0 := by
    intro h0
    obtain ⟨j, rfl⟩ := (isUneven_eq_zero (by omega)).mp h0
    have h1 := (Nat.pow_lt_pow_iff_right (by norm_num)).mp hlt
    have h2 := (Nat.pow_lt_pow_iff_right (by norm_num)).mp hgt
    omega
  have hle := isUneven_le n
  omega

lemma indexToSize_even {i : ℕ} (hi : i < 2 ^ 11) : indexToSize (2 * i) = 8 * 2 ^ i := by
  have hsmall : ¬2 * i ≥ pageSize := by
    rw [pageSize]
    omega
  rw [indexToSize, if_neg hsmall, Nat.mul_mod_right, Nat.mul_div_cancel_left _ (by norm_num),
    Nat.shiftLeft_eq, Nat.sub_zero]
  rfl

lemma indexToSize_odd {i : ℕ} (hi : i + 1 < 2 ^ 11) :
    indexToSize (2 * (i + 1) + 1) = 24 * 2 ^ i := by
  have hsmall : ¬2 * (i + 1) + 1 ≥ pageSize := by
    rw [pageSize]
    omega
  rw [indexToSize, if_neg hsmall, show (2 * (i + 1) + 1) % 2 = 1 by omega,
    show (2 * (i + 1) + 1) / 2 - 1 = i by omega, Nat.shiftLeft_eq]
  rfl

lemma indexToSize_pages {index : ℕ} (h : index ≥ pageSize) : indexToSize index = index := if_pos h

section

variable {size : ℕ}

lemma exists_log {s : ℕ} (hs : 8 ≤ s) :
    ∃ i, s.log2 = i + 3 ∧ 2 ^ (i + 3) ≤ s ∧ s < 2 ^ (i + 4) := by
  have hne : s ≠ 0 := by omega
  have hlog : 3 ≤ s.log2 := (Nat.le_log2 hne).mpr hs
  obtain ⟨i, hi⟩ := Nat.exists_eq_add_of_le' hlog
  exact ⟨i, hi, (Nat.log2_eq_iff hne).mp hi⟩

lemma up_to_power {s i : ℕ} (hle : 2 ^ (i + 3) ≤ s) (hlt : s < 2 ^ (i + 4)) :
    s ≤ 8 * 2 ^ (i + isUneven s) ∧ 8 * 2 ^ (i + isUneven s) < 2 * s := by
  have hpow : 2 ^ (i + 3) = 8 * 2 ^ i := by ring
  have hpow' : 2 ^ (i + 4) = 16 * 2 ^ i := by ring
  rcases hle.eq_or_lt with heq | hgt
  · have heven : isUneven s = 0 := heq ▸ isUneven_two_pow (i + 3)
    rw [heven, Nat.add_zero]
    omega
  · rw [isUneven_between hgt hlt, pow_succ]
    omega

lemma sizeToIndex_large (h : 3072 < (size + 7) / 8 * 8) (hmax : size ≤ 2 ^ 60) :
    ∃ k, 12 ≤ k ∧ sizeToIndex size = 2 ^ k ∧ (size + 7) / 8 * 8 ≤ 2 ^ k ∧
      2 ^ k < 2 * ((size + 7) / 8 * 8) := by
  set s := (size + 7) / 8 * 8 with hs
  obtain ⟨i, hlog, hle, hlt⟩ := exists_log (show 8 ≤ s by omega)
  have hi : i ≤ 57 := by
    by_contra hi
    have hpow : 2 ^ 61 ≤ 2 ^ (i + 3) := Nat.pow_le_pow_right (by norm_num) (by omega)
    omega
  have hindex : sizeToIndex size = 2 ^ (i + isUneven s + 3) := by
    rw [sizeToIndex, ← hs, hlog, if_pos (by simpa using h),
      show 60 - (63 - (i + 3)) = i by omega, Nat.shiftLeft_eq]
    ring
  have hpow : 2 ^ (i + isUneven s + 3) = 8 * 2 ^ (i + isUneven s) := by ring
  obtain ⟨hup, hdown⟩ := up_to_power hle hlt
  rw [← hpow] at hup hdown
  refine ⟨_, ?_, hindex, hup, hdown⟩
  -- above 3072 the next power of two is a page at least
  by_contra hk
  have hpage : 2 ^ (i + isUneven s + 3) ≤ 2 ^ 11 := Nat.pow_le_pow_right (by norm_num) (by omega)
  omega

/-- **Small sizes** go to a slab allocator whose objects are large enough. -/
lemma sizeToIndex_small (h : (size + 7) / 8 * 8 ≤ 3072) (hpos : 8 < size) :
    2 ≤ sizeToIndex size ∧ sizeToIndex size < allocatorCount ∧
      (size + 7) / 8 * 8 ≤ indexToSize (sizeToIndex size) := by
  set s := (size + 7) / 8 * 8 with hs
  obtain ⟨i, hlog, hle, hlt⟩ := exists_log (show 8 ≤ s by omega)
  have hpow : 2 ^ (i + 3) = 8 * 2 ^ i := by ring
  have hpow' : 2 ^ (i + 4) = 16 * 2 ^ i := by ring
  have hi : i ≤ 8 := by
    by_contra hi
    have hpage : 2 ^ 12 ≤ 2 ^ (i + 3) := Nat.pow_le_pow_right (by norm_num) (by omega)
    omega
  -- 16 is the first size, and a multiple of 8
  have hi1 : 1 ≤ i := by
    by_contra hi0
    obtain rfl : i = 0 := by omega
    omega
  have hindex : sizeToIndex size = 2 * i + isUneven s + if s > 3 * 2 ^ (i + 2) then 1 else 0 := by
    rw [sizeToIndex, ← hs, hlog, if_neg (by simpa using h),
      show 60 - (63 - (i + 3)) = i by omega, Nat.shiftLeft_eq, Nat.shiftLeft_eq, pow_one,
      Nat.mul_comm i 2]
  have hthree : 3 * 2 ^ (i + 2) = 12 * 2 ^ i := by ring
  have hcount : allocatorCount = 18 := rfl
  rcases hle.eq_or_lt with heq | hgt
  · -- a power of two
    have hno : ¬s > 3 * 2 ^ (i + 2) := by omega
    have heven : isUneven s = 0 := heq ▸ isUneven_two_pow (i + 3)
    rw [hindex, heven, if_neg hno, Nat.add_zero, indexToSize_even (by omega)]
    omega
  · rw [hindex, isUneven_between hgt hlt]
    by_cases hhalf : s > 3 * 2 ^ (i + 2)
    · -- above the middle
      have hi7 : i ≤ 7 := by
        by_contra hi7
        obtain rfl : i = 8 := by omega
        omega
      rw [if_pos hhalf, show 2 * i + 1 + 1 = 2 * (i + 1) by ring, indexToSize_even (by omega),
        pow_succ]
      omega
    · -- up to the middle
      obtain ⟨j, rfl⟩ := Nat.exists_eq_add_of_le' hi1
      have hdouble : 2 ^ (j + 1) = 2 * 2 ^ j := by ring
      rw [if_neg hhalf, Nat.add_zero, indexToSize_odd (by omega)]
      omega

end

/-! ### Sources -/

lemma pageOrder_two_pow (k : ℕ) : pageOrder (2 ^ k) = k := by
  rw [pageOrder, isUneven_two_pow, Nat.log2_two_pow, Nat.add_zero]

lemma two_pow_div_page {k : ℕ} (hk : 12 ≤ k) : 2 ^ k / pageSize = 2 ^ (k - 12) :=
  Nat.pow_div hk (by norm_num)

lemma sourceOf_page {k : ℕ} (hk : 12 ≤ k) :
    sourceOf (2 ^ k) = if k ≥ 28 then none else some (.pages (2 ^ (k - 12))) := by
  have hpage : 2 ^ k ≥ pageSize := Nat.pow_le_pow_right (by norm_num) hk
  rw [sourceOf, if_pos hpage, two_pow_div_page hk, pageOrder_two_pow]
  by_cases hmany : k ≥ 28
  · rw [if_pos hmany, if_pos (by omega)]
  · rw [if_neg hmany, if_neg (by omega)]

lemma sourceOf_allocator {index : ℕ} (h2 : 2 ≤ index) (hcount : index < allocatorCount) :
    sourceOf index = some (.allocator index) := by
  have hcount' : allocatorCount = 18 := rfl
  have hsmall : ¬index ≥ pageSize := by
    rw [pageSize]
    omega
  rw [sourceOf, if_neg hsmall, if_pos ⟨hcount, by omega⟩]

/-- What the blocks of the heap come from. -/
structure Source.Valid (source : Source) : Prop where
  sourceOf : sourceOf source.index = some source
  index_lt : source.index < 2 ^ 64
  fits : indexToSize source.index ≤ source.size
  header : 16 ≤ indexToSize source.index

/-- **The choice** for a size: the source that is found again by its index, if there is one. -/
lemma sourceOf_sizeToIndex {size : ℕ} (hpos : 8 < size) (hmax : size ≤ 2 ^ 27) :
    ∃ source : Source, sourceOf (sizeToIndex size) = some source ∧
      source.index = sizeToIndex size ∧ source.Valid ∧ size ≤ indexToSize source.index := by
  by_cases hlarge : 3072 < (size + 7) / 8 * 8
  · obtain ⟨k, hk, hindex, hup, hdown⟩ := sizeToIndex_large hlarge (by omega)
    have hk28 : k < 28 := by
      by_contra hge
      have hpow : 2 ^ 28 ≤ 2 ^ k := Nat.pow_le_pow_right (by norm_num) (by omega)
      omega
    have hsource : sourceOf (2 ^ k) = some (.pages (2 ^ (k - 12))) := by
      rw [sourceOf_page hk, if_neg (by omega)]
    have hback : (Source.pages (2 ^ (k - 12))).index = 2 ^ k := by
      rw [Source.index, pageSize, ← pow_add, Nat.sub_add_cancel hk]
    have hpage : 2 ^ k ≥ pageSize := Nat.pow_le_pow_right (by norm_num) hk
    refine ⟨_, hindex ▸ hsource, hindex ▸ hback, ⟨hback ▸ hsource, ?_, ?_, ?_⟩, ?_⟩
    · rw [hback]
      exact Nat.pow_lt_pow_right (by norm_num) (by omega)
    · rw [hback, indexToSize_pages hpage, ← hback]
      rfl
    · rw [hback, indexToSize_pages hpage]
      exact le_trans (by norm_num [pageSize]) hpage
    · rw [hback, indexToSize_pages hpage]
      omega
  · obtain ⟨h2, hcount, hup⟩ := sizeToIndex_small (by omega) hpos
    have hsource := sourceOf_allocator h2 hcount
    have hcount' : allocatorCount = 18 := rfl
    have hrounded : 16 ≤ (size + 7) / 8 * 8 := by omega
    refine ⟨_, hsource, rfl, ⟨hsource, ?_, Nat.le_add_right _ _, hrounded.trans hup⟩, ?_⟩
    · show sizeToIndex size < 2 ^ 64
      omega
    · show size ≤ indexToSize (sizeToIndex size)
      omega

lemma sourceOf_sizeToIndex_large {size : ℕ} (h : 2 ^ 27 < size) (hmax : size ≤ 2 ^ 60) :
    sourceOf (sizeToIndex size) = none := by
  have hrounded : 3072 < (size + 7) / 8 * 8 := by omega
  obtain ⟨k, hk, hindex, hup, -⟩ := sizeToIndex_large hrounded hmax
  have hk28 : k ≥ 28 := by
    by_contra hlt
    have hpow : 2 ^ k ≤ 2 ^ 27 := Nat.pow_le_pow_right (by norm_num) (by omega)
    omega
  rw [hindex, sourceOf_page hk, if_pos hk28]

/-- The lengths that there are blocks for. -/
def Fits (length : ℕ) : Prop := length + headerSize ≤ 2 ^ 27

instance (length : ℕ) : Decidable (Fits length) := inferInstanceAs (Decidable (_ ≤ _))

section

variable {length : ℕ}

lemma sourceFor_eq (hpos : 0 < length) (h : Fits length) :
    ∃ source : Source, sourceFor length = some source ∧
      source.index = sizeToIndex (length + headerSize) ∧ source.Valid ∧
      length + headerSize ≤ indexToSize source.index :=
  sourceOf_sizeToIndex (Nat.lt_add_of_pos_left hpos) h

lemma sourceFor_large (h : ¬Fits length) (hlt : length < 2 ^ 32) : sourceFor length = none := by
  have hsize : headerSize = 8 := rfl
  have hlarge : 2 ^ 27 < length + headerSize := Nat.lt_of_not_le h
  exact sourceOf_sizeToIndex_large hlarge (by omega)

lemma alloc_eq (heap : ℕ → UInt8) (hpos : 0 < length) (h : Fits length) : alloc heap length =
    some (some ⟨sizeToIndex (length + headerSize), fun i => if i < length then 0 else heap i⟩) := by
  obtain ⟨source, hsource, -⟩ := sourceFor_eq hpos h
  rw [alloc, if_neg (by omega), hsource, Option.map_some]

lemma alloc_large (heap : ℕ → UInt8) (h : ¬Fits length) (hlt : length < 2 ^ 32) :
    alloc heap length = none := by
  have hpos : length ≠ 0 := by
    rintro rfl
    exact h (by decide)
  rw [alloc, if_neg hpos, sourceFor_large h hlt, Option.map_none]

end

end KernelModel.Amm
