import KernelModel.MmapRegions

/-!
Any calls on a memory map.

The sum of the break address and a length is computed in 64 bits. Where it cannot wrap, regions
and free regions tile the memory map after any calls; where it can, allocations of the length that
makes it zero are never refused, until the heap address itself wraps.
-/

namespace KernelModel.MemoryMap

open KeyTree

variable {bottomAddress topAddress length : ℕ} {isStack : Bool} {m m' : Mmap} {r : Region}

/-! ### Looking regions up -/

section

variable (hi : Inv bottomAddress topAddress m)
include hi

lemma stop_lt (hr : r ∈ m.addressTree) : r.key + r.length < 2 ^ 64 := by
  have hin := hi.free.tiled.inside r.range (List.mem_append_left _ (List.mem_map_of_mem hr))
  exact hin.2.2.trans_lt hi.free.top_lt

lemma lookup_of_mem (hr : r ∈ m.addressTree) {address : ℕ} (hle : r.key ≤ address)
    (hlt : address < r.key + r.length) :
    lookupDecreasingNode Region.key m.addressTree address = some r := by
  cases hfind : lookupDecreasingNode Region.key m.addressTree address with
  | none => exact absurd hle (Nat.not_le.2 (lookupDecreasingNode_eq_none hfind r hr))
  | some r' =>
    obtain ⟨hr', hle'⟩ := lookupDecreasingNode_some hfind
    have hmax := hi.ordered.lookupDecreasingNode_max hfind r hr hle
    by_contra hne
    have hpair := List.pairwise_map.1 (List.pairwise_append.1 hi.free.tiled.apart).1
    have : Std.Symm fun a b : Region => a.range.Apart b.range := ⟨fun _ _ h => h.symm⟩
    have hapart := hpair.forall hr' hr fun heq => hne (congrArg some heq)
    have hregion := hi.region r hr
    have hregion' := hi.region r' hr'
    simp only [Range.Apart, Region.range] at hapart
    omega

lemma mmapLookup_iff (address : ℕ) : mmapLookup m address = some r ↔
    r ∈ m.addressTree ∧ r.key ≤ address ∧ address < r.key + r.length := by
  constructor
  · intro h
    obtain ⟨hfind, hend⟩ := Option.filter_eq_some_iff.1 h
    obtain ⟨hr, hle⟩ := lookupDecreasingNode_some hfind
    rw [decide_eq_true_eq, Nat.mod_eq_of_lt (stop_lt hi hr)] at hend
    exact ⟨hr, hle, Nat.lt_of_not_le hend⟩
  · rintro ⟨hr, hle, hlt⟩
    rw [mmapLookup, lookup_of_mem hi hr hle hlt, Option.filter_some, if_pos]
    rw [decide_eq_true_eq, Nat.mod_eq_of_lt (stop_lt hi hr)]
    exact Nat.not_le.2 hlt

lemma mmapDealloc_eq (hr : r ∈ m.addressTree) (hlength : length = 0 ∨ length = r.length) :
    mmapDealloc m r.key length = (deallocRegion m r).map fun m => (true, m) := by
  have hpos := (hi.region r hr).2
  have hstop := stop_lt hi hr
  rw [mmapDealloc, lookup_of_mem hi hr le_rfl (by omega)]
  simp only [Nat.mod_eq_of_lt hstop, Nat.add_sub_cancel_left]
  rw [if_neg (by omega), if_neg]
  rintro (hkey | hlen)
  · exact hkey rfl
  · apply hlen
    rw [Nat.mod_eq_of_lt (by omega)]
    rcases hlength with rfl | rfl
    · rw [if_pos rfl]
    · rw [if_neg hpos.ne']

end

/-! ### Every run -/

/-- Regions and free regions tile the memory map, its trees are indexes of them, an allocation
gives a region of its own, regions can be given back, and addresses are looked up in them. -/
structure Kept (m : Mmap) : Prop where
  tiled : Tiled m.heapAddress m.topAddress
    (m.addressTree.map Region.range ++ m.freeAddressTree.map FreeRegion.range)
  ordered : Ordered Region.key m.addressTree
  indexed : Indexed m.lengthTree m.freeAddressTree
  alloc : ∀ length isStack, ∃ region m', mmapAlloc m length isStack = some (region, m') ∧
    ∀ r, region = some r → Allocated m m' length isStack r
  dealloc : ∀ r ∈ m.addressTree, (deallocRegion m r).isSome ∧ ∀ length,
    length = 0 ∨ length = r.length → ∃ m', mmapDealloc m r.key length = some (true, m')
  lookup : ∀ address r, mmapLookup m address = some r ↔
    r ∈ m.addressTree ∧ r.key ≤ address ∧ address < r.key + r.length

def KeepsRegions (bottomAddress topAddress : ℕ) : Prop :=
  ∀ m, Reaches bottomAddress topAddress m → Kept m

section

variable (hbottom : bottomAddress + maxLength < 2 ^ 64)
include hbottom

lemma Inv.kept (hi : Inv bottomAddress topAddress m) : Kept m where
  tiled := hi.free.tiled
  ordered := hi.ordered
  indexed := hi.free.indexed
  alloc := fun length isStack => by
    obtain ⟨region, m', hrun, -, hall⟩ := mmapAlloc_spec length hi hbottom isStack
    exact ⟨region, m', hrun, hall⟩
  dealloc := fun r hr => by
    obtain ⟨m', hm', -⟩ := deallocRegion_spec hi hr
    refine ⟨by rw [hm']; rfl, fun length hlength => ⟨m', ?_⟩⟩
    rw [mmapDealloc_eq hi hr hlength, hm', Option.map_some]
  lookup := fun address r => mmapLookup_iff hi address

lemma step_inv (hi : Inv bottomAddress topAddress m) {op : Op} (hcall : op.Called m)
    (hstep : step m op = some m') : Inv bottomAddress topAddress m' := by
  cases op with
  | alloc length isStack =>
    obtain ⟨region, m'', hrun, hi', -⟩ := mmapAlloc_spec length hi hbottom isStack
    rw [step, hrun] at hstep
    cases hstep
    exact hi'
  | deallocRegion region =>
    obtain ⟨m'', hm', hi'⟩ := deallocRegion_spec hi hcall
    cases hm'.symm.trans hstep
    exact hi'
  | dealloc address length =>
    obtain ⟨region, hregion, rfl, hlength⟩ := hcall
    obtain ⟨m'', hm', hi'⟩ := deallocRegion_spec hi hregion
    rw [step, mmapDealloc_eq hi hregion hlength, hm'] at hstep
    cases hstep
    exact hi'

lemma Reaches.inv (htop : topAddress < 2 ^ 64) (h : Reaches bottomAddress topAddress m) :
    Inv bottomAddress topAddress m := by
  induction h with
  | init => exact mmapInit_inv htop
  | step _ hcall hstep ih => exact step_inv hbottom ih hcall hstep

end

/-! ### A sum that wraps -/

/-- An allocation for which the sum of the break address and the length is zero. -/
lemma mmapAlloc_wrapped (hgroups : m.lengthTree = []) (hpage : length % 2 ^ 12 = 0)
    (hlength : length ≠ 0 ∧ length / 2 ^ 47 = 0)
    (hsum : m.breakAddress + (length + guardPageSize isStack) = 2 ^ 64) {region : Option Region}
    (hrun : mmapAlloc m length isStack = some (region, m')) :
    ∃ addressTree, m' = { m with
        heapAddress := (m.heapAddress + 2 ^ 64 - (length + guardPageSize isStack)) % 2 ^ 64
        addressTree } ∧
      region = some ⟨((m.heapAddress + 2 ^ 64 - (length + guardPageSize isStack)) % 2 ^ 64 +
        guardPageSize isStack) % 2 ^ 64, length, isStack⟩ := by
  obtain ⟨heapAddress, hheap, htake⟩ : ∃ heapAddress,
      heapAddress = (m.heapAddress + 2 ^ 64 - (length + guardPageSize isStack)) % 2 ^ 64 ∧
      takeAddress m (length + guardPageSize isStack) =
        some (some heapAddress, { m with heapAddress }) := by
    refine ⟨_, rfl, ?_⟩
    rw [takeAddress, hgroups, lookupIncreasingNode_none fun _ hg => absurd hg List.not_mem_nil]
    simp only [hsum, Nat.mod_self]
    rw [if_neg (Nat.not_lt_zero _)]
  rw [← hheap]
  rw [mmapAlloc, if_neg (not_not.2 hpage), if_neg (not_or.2 ⟨hlength.1, not_not.2 hlength.2⟩),
    htake] at hrun
  simp only [Option.bind_eq_bind, Option.bind_some] at hrun
  obtain ⟨addressTree, -, hrun⟩ := Option.bind_eq_some_iff.1 hrun
  cases hrun
  exact ⟨addressTree, rfl, rfl⟩

lemma exists_filled (h : KeepsRegions bottomAddress topAddress) (hpage : length % 2 ^ 12 = 0)
    (hlength : length ≠ 0 ∧ length / 2 ^ 47 = 0)
    (hsum : bottomAddress + (length + guardPageSize isStack) = 2 ^ 64)
    (htop : topAddress < 2 ^ 64) {k : ℕ}
    (hk : k * (length + guardPageSize isStack) ≤ topAddress) :
    ∃ m, Reaches bottomAddress topAddress m ∧ m.lengthTree = [] ∧
      m.breakAddress = bottomAddress ∧ m.topAddress = topAddress ∧
      m.heapAddress + k * (length + guardPageSize isStack) = topAddress := by
  induction k with
  | zero => exact ⟨_, .init, rfl, rfl, rfl, by rw [Nat.zero_mul]; rfl⟩
  | succ k ih =>
    rw [Nat.succ_mul] at hk
    obtain ⟨m, hm, hgroups, hbreak, htop', hheap⟩ := ih (by omega)
    obtain ⟨region, m', hrun, -⟩ := (h m hm).alloc length isStack
    have hreach : Reaches bottomAddress topAddress m' :=
      @Reaches.step _ _ m m' (.alloc length isStack) hm hpage (by rw [step, hrun]; rfl)
    obtain ⟨addressTree, rfl, -⟩ := mmapAlloc_wrapped hgroups hpage hlength
      (by rw [hbreak]; exact hsum) hrun
    refine ⟨_, hreach, hgroups, hbreak, htop', ?_⟩
    simp only
    rw [Nat.succ_mul]
    omega

lemma not_keepsRegions (hpage : bottomAddress % 2 ^ 12 = 0) (hbottom : bottomAddress < 2 ^ 64)
    (htop : topAddress < 2 ^ 64) (hwrap : 2 ^ 64 ≤ bottomAddress + maxLength) :
    ¬KeepsRegions bottomAddress topAddress := by
  intro h
  obtain ⟨length, isStack, hpage, hlength, hsum⟩ : ∃ length isStack, length % 2 ^ 12 = 0 ∧
      (length ≠ 0 ∧ length / 2 ^ 47 = 0) ∧
      bottomAddress + (length + guardPageSize isStack) = 2 ^ 64 := by
    rw [maxLength] at hwrap
    by_cases hlong : 2 ^ 64 - bottomAddress < 2 ^ 47
    · have hsmall : guardPageSize false = 0 := rfl
      exact ⟨2 ^ 64 - bottomAddress, false, by omega, ⟨by omega, by omega⟩, by omega⟩
    · have hstack : guardPageSize true = 4 * 2 ^ 12 := rfl
      exact ⟨2 ^ 64 - bottomAddress - 4 * 2 ^ 12, true, by omega, ⟨by omega, by omega⟩, by omega⟩
  have hguard := guardPageSize_le isStack
  have hdiv := Nat.div_add_mod' topAddress (length + guardPageSize isStack)
  have hmod := Nat.mod_lt topAddress (show 0 < length + guardPageSize isStack by omega)
  obtain ⟨m, hm, hgroups, hbreak, htop', hheap⟩ := exists_filled h hpage hlength hsum htop
    (k := topAddress / (length + guardPageSize isStack)) (by omega)
  obtain ⟨region, m', hrun, hall⟩ := (h m hm).alloc length isStack
  have hreach : Reaches bottomAddress topAddress m' :=
    @Reaches.step _ _ m m' (.alloc length isStack) hm hpage (by rw [step, hrun]; rfl)
  obtain ⟨addressTree, rfl, rfl⟩ := mmapAlloc_wrapped hgroups hpage hlength
    (by rw [hbreak]; exact hsum) hrun
  -- the last region ends behind the last address, or starts before the heap
  have hin := (h _ hreach).tiled.inside _
    (List.mem_append_left _ (List.mem_map_of_mem (hall _ rfl).mem))
  simp only [Region.range, htop'] at hin
  omega

/-- **A memory map** is tiled after any calls exactly when its break address and the largest length
cannot wrap. -/
theorem keepsRegions_iff (hpage : bottomAddress % 2 ^ 12 = 0) (hbottom : bottomAddress < 2 ^ 64)
    (htop : topAddress < 2 ^ 64) :
    KeepsRegions bottomAddress topAddress ↔ bottomAddress + maxLength < 2 ^ 64 := by
  constructor
  · intro h
    by_contra hwrap
    exact not_keepsRegions hpage hbottom htop (Nat.le_of_not_lt hwrap) h
  · exact fun hwrap m hm => (hm.inv hwrap htop).kept hwrap

/-- The memory map of a process. -/
theorem keepsRegions_process : KeepsRegions 0x8400000 0x7fff80000000 :=
  (keepsRegions_iff (by norm_num) (by norm_num) (by norm_num)).2 (by norm_num [maxLength])

/-- The memory map of the kernel. -/
theorem keepsRegions_not_kernel : ¬KeepsRegions 0xfffff00000000000 0xffffffff80000000 :=
  not_keepsRegions (by norm_num) (by norm_num) (by norm_num) (by norm_num [maxLength])

end KernelModel.MemoryMap
