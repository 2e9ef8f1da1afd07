import KernelModel.Amm

/-!
The blocks of the heap keep their sizes and their contents.

The blocks in use do not overlap, so that the header of a block stays as it was written. It leads
back to what the block was taken from, and to the number of bytes that a larger block takes over.
-/

namespace KernelModel.Amm

open LittleEndian

structure Sound (h : Heap) : Prop where
  apart : h.blocks.Pairwise fun b b' => b.range.Apart b'.range
  valid : ∀ b ∈ h.blocks, b.source.Valid
  header : ∀ b ∈ h.blocks, get 8 h.memory b.address = b.source.index

variable {h : Heap} {b : Block} {length address : ℕ}

/-! ### Memory -/

lemma memFill_of_lt {memory : ℕ → UInt8} {ptr n i : ℕ} (h : i < ptr) (value : UInt8) :
    memFill memory ptr n value i = memory i := if_neg (by omega)

lemma memFill_of_ge {memory : ℕ → UInt8} {ptr n i : ℕ} (h : ptr + n ≤ i) (value : UInt8) :
    memFill memory ptr n value i = memory i := if_neg (by omega)

lemma memCopy_of_lt {memory : ℕ → UInt8} {dst src n i : ℕ} (h : i < dst) :
    memCopy memory dst src n i = memory i := if_neg (by omega)

lemma memCopy_of_ge {memory : ℕ → UInt8} {dst src n i : ℕ} (h : dst + n ≤ i) :
    memCopy memory dst src n i = memory i := if_neg (by omega)

lemma memCopy_at {memory : ℕ → UInt8} {dst src n i : ℕ} (h : i < n) :
    memCopy memory dst src n (dst + i) = memory (src + i) := by
  rw [memCopy, if_pos ⟨Nat.le_add_right _ _, Nat.add_lt_add_left h _⟩, Nat.add_sub_cancel_left]

/-- Memory that differs in the bytes of one block only. -/
def OnlyIn (b : Block) (memory memory' : ℕ → UInt8) : Prop :=
  ∀ i, i < b.address ∨ b.address + b.source.size ≤ i → memory' i = memory i

lemma OnlyIn.at {memory memory' : ℕ → UInt8} {b' : Block} (h : OnlyIn b memory memory')
    (hapart : b.range.Apart b'.range) {i : ℕ} (hi : i < b'.source.size) :
    memory' (b'.address + i) = memory (b'.address + i) := by
  refine h _ ?_
  rcases hapart with hle | hle
  · have hstop : b.address + b.source.size ≤ b'.address := hle
    omega
  · have hstop : b'.address + b'.source.size ≤ b.address := hle
    omega

lemma OnlyIn.header {memory memory' : ℕ → UInt8} {b' : Block} (h : OnlyIn b memory memory')
    (hapart : b.range.Apart b'.range) (hvalid : b'.source.Valid) :
    get 8 memory' b'.address = get 8 memory b'.address := by
  have hsize := hvalid.header.trans hvalid.fits
  exact get_congr_add fun i hi => h.at hapart (by omega)

/-! ### Allocation -/

/-- The heap with a new block. -/
structure Allocated (h h' : Heap) (b : Block) : Prop where
  blocks : h'.blocks = b :: h.blocks
  memory : OnlyIn b h.memory h'.memory
  sound : Sound h'

lemma get_header (memory : ℕ → UInt8) (address length : ℕ) {index : ℕ} (hindex : index < 2 ^ 64) :
    get 8 (memFill (put 8 memory address index) (address + headerSize) length 0) address =
      index := by
  have hput : get 8 (memFill (put 8 memory address index) (address + headerSize) length 0)
      address = get 8 (put 8 memory address index) address :=
    get_congr fun i _ hi => memFill_of_lt hi 0
  rw [hput, get_put_self, Nat.mod_eq_of_lt (hindex.trans_eq (by norm_num))]

/-- **Allocation**: the new block is apart from the others, and they stay as they are. -/
lemma ammAlloc_spec (hs : Sound h) (hpos : 1 ≤ length) (hmax : length + headerSize ≤ 2 ^ 27)
    (hfree : IsFree h length address) :
    ∃ h' b, ammAlloc h length address = some (h', b.ptr) ∧ Allocated h h' b ∧
      length + headerSize ≤ indexToSize b.source.index := by
  have hsize : headerSize = 8 := rfl
  obtain ⟨source, hsource, hindex, hvalid, hlength⟩ :=
    sourceFor_eq hpos hmax
  have hfits := hvalid.fits
  have happart := hfree source hsource
  set memory := memFill (put 8 h.memory address (sizeToIndex (length + headerSize)))
    (address + headerSize) length 0 with hmemory
  have honly : OnlyIn ⟨address, source⟩ h.memory memory := by
    intro i hi
    simp only at hi
    rcases hi with hi | hi
    · exact (memFill_of_lt (by omega) 0).trans (put_of_lt hi)
    · exact (memFill_of_ge (by omega) 0).trans (put_of_ge (by omega))
  have hheader : get 8 memory address = source.index := by
    rw [hmemory, ← hindex]
    exact get_header _ _ _ hvalid.index_lt
  refine ⟨⟨memory, ⟨address, source⟩ :: h.blocks⟩, ⟨address, source⟩, ?_, ⟨rfl, honly, ?_, ?_, ?_⟩,
    hlength⟩
  · rw [ammAlloc, if_neg (by omega)]
    simp only [hsource, Option.map_some]
    rfl
  · exact List.pairwise_cons.mpr ⟨happart, hs.apart⟩
  · intro b hb
    rcases List.mem_cons.mp hb with rfl | hb
    · exact hvalid
    · exact hs.valid b hb
  · intro b hb
    rcases List.mem_cons.mp hb with rfl | hb
    · exact hheader
    · exact (honly.header (happart b hb) (hs.valid b hb)).trans (hs.header b hb)

lemma ammAlloc_large (h : Heap) (address : ℕ) (hlarge : 2 ^ 27 < length + headerSize)
    (hmax : length < 2 ^ 32) : ammAlloc h length address = none := by
  have hsize : headerSize = 8 := rfl
  rw [ammAlloc, if_neg (by omega), sourceFor_large (Nat.not_le_of_lt hlarge) hmax, Option.map_none]

/-- **Two levels of one function**: what `amm_alloc` returns on the heap is the memory that its
callers get. -/
theorem alloc_of_ammAlloc (h : Heap) (address : ℕ) (hpos : 0 < length)
    (hlt : length < 2 ^ 32) :
    alloc (fun i => h.memory (address + headerSize + i)) length =
      (ammAlloc h length address).map fun r =>
        some ⟨get 8 r.1.memory (r.2 - headerSize), fun i => r.1.memory (r.2 + i)⟩ := by
  by_cases hfits : Fits length
  · obtain ⟨source, hsource, hindex, hvalid, -⟩ := sourceFor_eq hpos hfits
    rw [alloc_eq _ hpos hfits, ammAlloc, if_neg (Nat.ne_of_gt hpos), hsource]
    simp only [Option.map_some, Nat.add_sub_cancel]
    rw [get_header _ _ _ (hindex ▸ hvalid.index_lt)]
    have hdata : (fun i => if i < length then 0 else h.memory (address + headerSize + i)) =
        fun i => memFill (put 8 h.memory address (sizeToIndex (length + headerSize)))
          (address + headerSize) length 0 (address + headerSize + i) := by
      funext i
      rw [memFill]
      by_cases hi : i < length
      · rw [if_pos hi, if_pos ⟨Nat.le_add_right _ _, by omega⟩]
      · rw [if_neg hi, if_neg (by omega), put_of_ge (by rw [headerSize]; omega)]
    rw [hdata]
  · rw [alloc_large _ hfits hlt, ammAlloc, if_neg (Nat.ne_of_gt hpos), sourceFor_large hfits hlt]
    rfl

/-! ### Deallocation -/

lemma Sound.apart_erase (hs : Sound h) (hb : b ∈ h.blocks) :
    ∀ b' ∈ h.blocks.erase b, b.range.Apart b'.range :=
  (List.pairwise_cons.mp (((List.perm_cons_erase hb).pairwise_iff fun hr => hr.symm).mp hs.apart)).1

lemma Sound.erase (hs : Sound h) (hb : b ∈ h.blocks) {memory : ℕ → UInt8}
    (hmemory : OnlyIn b h.memory memory) : Sound ⟨memory, h.blocks.erase b⟩ where
  apart := hs.apart.sublist List.erase_sublist
  valid := fun b' hb' => hs.valid b' (List.mem_of_mem_erase hb')
  header := fun b' hb' => by
    have hmem := List.mem_of_mem_erase hb'
    exact (hmemory.header (hs.apart_erase hb b' hb') (hs.valid b' hmem)).trans (hs.header b' hmem)

lemma Block.ptr_sub (b : Block) : b.ptr - headerSize = b.address := Nat.add_sub_cancel ..

lemma Block.ptr_ne_zero (b : Block) : b.ptr ≠ 0 := by
  have hsize : headerSize = 8 := rfl
  rw [Block.ptr]
  omega

/-- **Deallocation** finds what the block was taken from. -/
lemma ammDealloc_spec (hs : Sound h) (hb : b ∈ h.blocks) :
    ∃ memory, ammDealloc h b.ptr = some ⟨memory, h.blocks.erase b⟩ ∧ OnlyIn b h.memory memory ∧
      Sound ⟨memory, h.blocks.erase b⟩ := by
  have hvalid := hs.valid b hb
  have hfits := hvalid.fits
  have honly : OnlyIn b h.memory (memFill h.memory b.address (indexToSize b.source.index) 0) := by
    intro i hi
    rcases hi with hi | hi
    · exact memFill_of_lt hi 0
    · exact memFill_of_ge (by omega) 0
  refine ⟨_, ?_, honly, hs.erase hb honly⟩
  rw [ammDealloc, if_neg b.ptr_ne_zero]
  simp only [b.ptr_sub, hs.header b hb, hvalid.sourceOf, Option.bind_some]
  exact if_pos hb

lemma Sound.data (hs : Sound h) (hb : b ∈ h.blocks) {memory : ℕ → UInt8}
    (honly : OnlyIn b h.memory memory) (hlow : ∀ i < b.ptr, memory i = h.memory i) :
    Sound ⟨memory, h.blocks⟩ where
  apart := hs.apart
  valid := hs.valid
  header := fun b' hb' => by
    by_cases hne : b' = b
    · rw [hne, ← hs.header b hb]
      exact get_congr fun i _ hi => hlow i hi
    · have hrest : b' ∈ h.blocks.erase b := (List.mem_erase_of_ne hne).mpr hb'
      exact (honly.header (hs.apart_erase hb b' hrest) (hs.valid b' hb')).trans (hs.header b' hb')

/-! ### Resizing -/

/-- **The resized block** holds the new length, and what was in the old one. -/
structure Resized (h : Heap) (b : Block) (length : ℕ) (h' : Heap) (b' : Block) : Prop where
  mem : b' ∈ h'.blocks
  holds : length + headerSize ≤ b'.source.size
  kept : ∀ i < min b.capacity length, h'.memory (b'.ptr + i) = h.memory (b.ptr + i)

def Resizes (h : Heap) (b : Block) (length address : ℕ) : Prop :=
  ∃ h' b', ammRealloc h b.ptr length address = some (h', b'.ptr) ∧ Resized h b length h' b'

lemma ammRealloc_spec (hs : Sound h) (hb : b ∈ h.blocks) (hpos : 1 ≤ length)
    (hmax : length + headerSize ≤ 2 ^ 27) (hfree : IsFree h length address) :
    ∃ h' b', ammRealloc h b.ptr length address = some (h', b'.ptr) ∧ Resized h b length h' b' ∧
      Sound h' := by
  have hsize : headerSize = 8 := rfl
  have hvalid := hs.valid b hb
  have hfits := hvalid.fits
  rw [ammRealloc, if_neg b.ptr_ne_zero, if_neg (by omega), b.ptr_sub]
  simp only [hs.header b hb]
  by_cases hsame : sizeToIndex (length + headerSize) = b.source.index
  · -- the same size: the block stays
    obtain ⟨source, -, hindex, -, hlength⟩ :=
      sourceOf_sizeToIndex (show 8 < length + headerSize by omega) hmax
    rw [hindex, hsame] at hlength
    exact ⟨h, b, if_pos hsame, ⟨hb, hlength.trans hfits, fun _ _ => rfl⟩, hs⟩
  · obtain ⟨h₁, b', halloc, hnew, hlength⟩ := ammAlloc_spec hs hpos hmax hfree
    have hb₁ : b ∈ h₁.blocks := hnew.blocks ▸ List.mem_cons_of_mem _ hb
    have hb'₁ : b' ∈ h₁.blocks := hnew.blocks ▸ List.mem_cons_self ..
    have hfits' := (hnew.sound.valid b' hb'₁).fits
    have hapart : b'.range.Apart b.range :=
      (List.pairwise_cons.mp (hnew.blocks ▸ hnew.sound.apart)).1 b hb
    -- the copy, between the two blocks
    set n := if length < b.capacity then length else b.capacity with hn
    have hnmin : n = min b.capacity length := by
      rw [hn]
      split <;> omega
    have hcopy : OnlyIn b' h₁.memory (memCopy h₁.memory b'.ptr b.ptr n) := by
      intro i hi
      have hptr : b'.ptr = b'.address + headerSize := rfl
      rcases hi with hi | hi
      · exact memCopy_of_lt (by omega)
      · exact memCopy_of_ge (by omega)
    have hs₂ : Sound ⟨memCopy h₁.memory b'.ptr b.ptr n, h₁.blocks⟩ :=
      hnew.sound.data hb'₁ hcopy fun i hi => memCopy_of_lt hi
    obtain ⟨memory, hdealloc, honly, hs₃⟩ := ammDealloc_spec hs₂ hb₁
    have hrest : b' ∈ h₁.blocks.erase b := by
      have hne : b' ≠ b := by
        rintro rfl
        have hself := hnew.sound.valid b' hb'₁ |>.header
        rcases hapart with hle | hle <;> simp only [Block.range] at hle <;> omega
      exact (List.mem_erase_of_ne hne).mpr hb'₁
    refine ⟨_, b', ?_, ⟨hrest, hlength.trans hfits', fun i hi => ?_⟩, hs₃⟩
    · rw [if_neg hsame, halloc, Option.bind_some]
      exact (congrArg (Option.map _) hdealloc).trans rfl
    · have hptr : b.ptr = b.address + headerSize := rfl
      have hptr' : b'.ptr = b'.address + headerSize := rfl
      have hcapacity : b.capacity = indexToSize b.source.index - headerSize := rfl
      calc memory (b'.ptr + i)
          = memCopy h₁.memory b'.ptr b.ptr n (b'.ptr + i) := by
            rw [hptr', Nat.add_assoc]
            exact honly.at hapart.symm (by omega)
        _ = h₁.memory (b.ptr + i) := memCopy_at (hnmin ▸ hi)
        _ = h.memory (b.ptr + i) := by
            rw [hptr, Nat.add_assoc]
            exact hnew.memory.at hapart (by omega)

lemma ammRealloc_large (hs : Sound h) (hb : b ∈ h.blocks) (hlarge : 2 ^ 27 < length + headerSize)
    (hmax : length < 2 ^ 32) (address : ℕ) : ammRealloc h b.ptr length address = none := by
  have hsize : headerSize = 8 := rfl
  have hnone := sourceOf_sizeToIndex_large hlarge (by omega)
  have hdiff : sizeToIndex (length + headerSize) ≠ b.source.index := by
    intro heq
    rw [heq, (hs.valid b hb).sourceOf] at hnone
    cases hnone
  rw [ammRealloc, if_neg b.ptr_ne_zero, if_neg (by omega), b.ptr_sub]
  simp only [hs.header b hb, if_neg hdiff, ammAlloc_large h address hlarge hmax, Option.bind_none]

/-! ### Runs -/

lemma ammAlloc_sound (hs : Sound h) (hlt : length < 2 ^ 32) (hfree : IsFree h length address)
    {h' : Heap} {ptr : ℕ} (halloc : ammAlloc h length address = some (h', ptr)) : Sound h' := by
  by_cases h0 : length = 0
  · rw [ammAlloc, if_pos h0] at halloc
    cases halloc
    exact hs
  · by_cases hmax : length + headerSize ≤ 2 ^ 27
    · obtain ⟨h₁, b, halloc', hnew, -⟩ := ammAlloc_spec hs (by omega) hmax hfree
      rw [halloc'] at halloc
      cases halloc
      exact hnew.sound
    · rw [ammAlloc_large h address (by omega) hlt] at halloc
      cases halloc

lemma ammDealloc_sound (hs : Sound h) {ptr : ℕ} (hptr : IsPtr h ptr) {h' : Heap}
    (hdealloc : ammDealloc h ptr = some h') : Sound h' := by
  rcases hptr with rfl | ⟨b, hb, rfl⟩
  · cases hdealloc
    exact hs
  · obtain ⟨memory, hdealloc', -, hs'⟩ := ammDealloc_spec hs hb
    rw [hdealloc'] at hdealloc
    cases hdealloc
    exact hs'

lemma ammRealloc_sound (hs : Sound h) {ptr : ℕ} (hptr : IsPtr h ptr) (hlt : length < 2 ^ 32)
    (hfree : IsFree h length address) {h' : Heap} {out : ℕ}
    (hrealloc : ammRealloc h ptr length address = some (h', out)) : Sound h' := by
  by_cases h0 : ptr = 0
  · rw [ammRealloc, if_pos h0] at hrealloc
    exact ammAlloc_sound hs hlt hfree hrealloc
  by_cases hlength : length = 0
  · rw [ammRealloc, if_neg h0, if_pos hlength] at hrealloc
    obtain ⟨h₁, hdealloc, heq⟩ := Option.map_eq_some_iff.mp hrealloc
    cases heq
    exact ammDealloc_sound hs hptr hdealloc
  rcases hptr with rfl | ⟨b, hb, rfl⟩
  · exact absurd rfl h0
  · by_cases hmax : length + headerSize ≤ 2 ^ 27
    · obtain ⟨h₁, b', hrealloc', -, hs'⟩ := ammRealloc_spec hs hb (by omega) hmax hfree
      rw [hrealloc'] at hrealloc
      cases hrealloc
      exact hs'
    · rw [ammRealloc_large hs hb (by omega) hlt] at hrealloc
      cases hrealloc

lemma step_sound (hs : Sound h) {op : Op} (hcall : op.Called h) {h' : Heap}
    (hstep : step h op = some h') : Sound h' := by
  cases op with
  | alloc length address =>
    obtain ⟨r, halloc, rfl⟩ := Option.map_eq_some_iff.mp hstep
    exact ammAlloc_sound hs hcall.1 hcall.2 halloc
  | dealloc ptr => exact ammDealloc_sound hs hcall hstep
  | realloc ptr length address =>
    obtain ⟨r, hrealloc, rfl⟩ := Option.map_eq_some_iff.mp hstep
    exact ammRealloc_sound hs hcall.1 hcall.2.1 hcall.2.2 hrealloc
  | write ptr offset value =>
    obtain ⟨b, hb, rfl, hoffset⟩ := hcall
    cases hstep
    have hsize : headerSize = 8 := rfl
    have hfits := (hs.valid b hb).fits
    have hptr : b.ptr = b.address + headerSize := rfl
    have hcapacity : b.capacity = indexToSize b.source.index - headerSize := rfl
    refine hs.data hb (fun i hi => ?_) (fun i hi => ?_)
    · exact Function.update_of_ne (by omega) _ _
    · exact Function.update_of_ne (by omega) _ _

lemma Reaches.sound (hr : Reaches h) : Sound h := by
  induction hr with
  | init memory => exact ⟨.nil, nofun, nofun⟩
  | step _ hcall hstep ih => exact step_sound ih hcall hstep

/-! ### Sizing -/

/-- The index chosen for a size leads to a slab allocator with objects that are large enough, or
to whole pages that are. -/
def Chooses (size : ℕ) : Prop :=
  let index := sizeToIndex size
  (index < pageSize → index < allocatorCount ∧ index ≠ 1 ∧ size ≤ indexToSize index ∧
    size ≤ (Source.allocator index).size) ∧
  (pageSize ≤ index → size ≤ index / pageSize * pageSize)

lemma chooses {size : ℕ} (hpos : 8 < size) (hmax : size ≤ 2 ^ 60) : Chooses size := by
  by_cases hlarge : 3072 < (size + 7) / 8 * 8
  · obtain ⟨k, hk, hindex, hup, -⟩ := sizeToIndex_large hlarge hmax
    have hpage : pageSize ≤ 2 ^ k := Nat.pow_le_pow_right (by norm_num) hk
    refine ⟨fun hlt => absurd hlt (by rw [hindex]; omega), fun _ => ?_⟩
    rw [hindex, two_pow_div_page hk, pageSize, ← pow_add, Nat.sub_add_cancel hk]
    omega
  · have hrounded : (size + 7) / 8 * 8 ≤ 3072 := by omega
    obtain ⟨h2, hcount, hup⟩ := sizeToIndex_small hrounded hpos
    have hcount' : allocatorCount = 18 := rfl
    refine ⟨fun _ => ⟨hcount, by omega, by omega, ?_⟩, fun hge => absurd hge ?_⟩
    · rw [Source.size]
      omega
    · rw [pageSize]
      omega

/-- The header of a block leads back to where the block came from, for both functions. -/
structure MapsBack (h : Heap) (b : Block) : Prop where
  source : sourceOf (get 8 h.memory (b.ptr - headerSize)) = some b.source
  dealloc : ∃ memory, ammDealloc h b.ptr = some ⟨memory, h.blocks.erase b⟩

/-- **Every size** is rounded up, every block found again, and every resized block keeps what fits
in it, up to the sizes that the page allocator knows. -/
theorem sizing : (∀ length, 1 ≤ length → length < 2 ^ 32 → Chooses (length + headerSize)) ∧
    ∀ h, Reaches h → ∀ b ∈ h.blocks, MapsBack h b ∧
      ∀ length address, 1 ≤ length → length < 2 ^ 32 → IsFree h length address →
        (length + headerSize ≤ 2 ^ 27 → Resizes h b length address) ∧
        (2 ^ 27 < length + headerSize → ammRealloc h b.ptr length address = none) := by
  have hsize : headerSize = 8 := rfl
  refine ⟨fun length hpos hlt => chooses (by omega) (by omega), fun h hr b hb => ?_⟩
  have hs := hr.sound
  refine ⟨⟨?_, ?_⟩, fun length address hpos hlt hfree => ⟨fun hmax => ?_, fun hlarge => ?_⟩⟩
  · rw [b.ptr_sub, hs.header b hb, (hs.valid b hb).sourceOf]
  · obtain ⟨memory, hdealloc, -⟩ := ammDealloc_spec hs hb
    exact ⟨memory, hdealloc⟩
  · obtain ⟨h', b', hrealloc, hresized, -⟩ := ammRealloc_spec hs hb hpos hmax hfree
    exact ⟨h', b', hrealloc, hresized⟩
  · exact ammRealloc_large hs hb hlarge hlt address

lemma reaches_one : ∃ h b, Reaches h ∧ b ∈ h.blocks := by
  have hinit : Sound ⟨fun _ => 0, []⟩ := ⟨.nil, nofun, nofun⟩
  have hfree : IsFree ⟨fun _ => 0, []⟩ 1 0 := fun _ _ _ hb => by cases hb
  obtain ⟨h, b, halloc, hnew, -⟩ := ammAlloc_spec hinit le_rfl (by norm_num [headerSize]) hfree
  refine ⟨h, b, @Reaches.step _ _ (.alloc 1 0) (.init _) ⟨by norm_num, hfree⟩ ?_, ?_⟩
  · rw [step, halloc]
    rfl
  · rw [hnew.blocks]
    exact List.mem_cons_self ..

/-- The sizes around a page, and a block that is resized to a page. -/
theorem sizing_page : Chooses (4088 + headerSize) ∧ Chooses (4089 + headerSize) ∧
    ∃ h b, b ∈ h.blocks ∧ MapsBack h b ∧
      ∀ address, IsFree h 4088 address → Resizes h b 4088 address := by
  obtain ⟨hchooses, hblocks⟩ := sizing
  obtain ⟨h, b, hr, hb⟩ := reaches_one
  refine ⟨hchooses 4088 (by norm_num) (by norm_num), hchooses 4089 (by norm_num) (by norm_num),
    h, b, hb, (hblocks h hr b hb).1, fun address hfree => ?_⟩
  exact ((hblocks h hr b hb).2 4088 address (by norm_num) (by norm_num) hfree).1
    (by norm_num [headerSize])

/-- A block cannot grow to 128 MiB: with its header that is more than the page allocator gives. -/
theorem not_resizes_always : ¬∀ h, Reaches h → ∀ b ∈ h.blocks, ∀ length address, 1 ≤ length →
    length < 2 ^ 32 → IsFree h length address → Resizes h b length address := by
  intro hall
  obtain ⟨h, b, hr, hb⟩ := reaches_one
  have hnone : sourceFor (2 ^ 27) = none := sourceFor_large (by decide) (by norm_num)
  have hfree : IsFree h (2 ^ 27) 0 := by
    intro source hsource
    rw [hnone] at hsource
    cases hsource
  obtain ⟨h', b', hrealloc, -⟩ := hall h hr b hb (2 ^ 27) 0 (by norm_num) (by norm_num) hfree
  rw [ammRealloc_large hr.sound hb (by norm_num [headerSize]) (by norm_num)] at hrealloc
  cases hrealloc

end KernelModel.Amm
