import KernelModel.Mmap

/-!
Regions and free regions tile a memory map.

A step moves a range from the free regions to the regions or back. The trees of the free regions
are an index of each other, and every step that the code makes there keeps the index.
-/

namespace KernelModel.MemoryMap

open KeyTree

def Region.range (r : Region) : Range := ⟨r.key - guardPageSize r.isStack, r.key + r.length⟩

def FreeRegion.range (f : FreeRegion) : Range := ⟨f.key, f.key + f.length⟩

/-! ### The index -/

/-- Every group has the free regions of its length, each once, and there is no empty group. -/
structure Indexed (lengthTree : List LengthGroup) (free : List FreeRegion) : Prop where
  groups : Ordered LengthGroup.key lengthTree
  ordered : Ordered FreeRegion.key free
  group : ∀ g ∈ lengthTree, g.regions ≠ [] ∧ g.regions.Nodup ∧
    ∀ a ∈ g.regions, (⟨a, g.key⟩ : FreeRegion) ∈ free
  indexed : ∀ f ∈ free, ∃ g ∈ lengthTree, g.key = f.length ∧ f.key ∈ g.regions

section

variable {lengthTree : List LengthGroup} {free : List FreeRegion} {f : FreeRegion}

lemma Indexed.pop (h : Indexed lengthTree free) (hf : f ∈ free) :
    Indexed (popFromGroup lengthTree f) (removeNode FreeRegion.key free f.key) := by
  obtain ⟨g, hg, hkey, hmem⟩ := h.indexed f hf
  obtain ⟨-, hnodup, hgroup⟩ := h.group g hg
  have hfree : ∀ f', f' ∈ removeNode FreeRegion.key free f.key ↔ f' ∈ free ∧ f'.key ≠ f.key :=
    fun f' => mem_removeNode
  rw [popFromGroup, h.groups.lookupNode_eq hg hkey]
  -- the entry of another group is not the one that goes
  have hother : ∀ z ∈ lengthTree, z.key ≠ f.length → ∀ a ∈ z.regions,
      (⟨a, z.key⟩ : FreeRegion) ∈ removeNode FreeRegion.key free f.key := by
    intro z hz hne a ha
    refine (hfree _).2 ⟨(h.group z hz).2.2 a ha, fun heq => hne ?_⟩
    have hsame := h.ordered.eq_of_key ((h.group z hz).2.2 a ha) hf heq
    rw [← hsame]
  simp only
  split_ifs with hempty
  · refine ⟨h.groups.removeNode _, h.ordered.removeNode _, ?_, ?_⟩
    · intro z hz
      obtain ⟨hz, hne⟩ := mem_removeNode.1 hz
      exact ⟨(h.group z hz).1, (h.group z hz).2.1, hother z hz hne⟩
    · intro f' hf'
      obtain ⟨hf', hne⟩ := (hfree f').1 hf'
      obtain ⟨z, hz, hzkey, hzmem⟩ := h.indexed f' hf'
      refine ⟨z, mem_removeNode.2 ⟨hz, fun heq => ?_⟩, hzkey, hzmem⟩
      have hsame := h.groups.eq_of_key hz hg (heq.trans hkey.symm)
      have herase : f'.key ∈ g.regions.erase f.key := (List.mem_erase_of_ne hne).2 (hsame ▸ hzmem)
      rw [hempty] at herase
      cases herase
  · refine ⟨h.groups.modifyNode fun _ => rfl, h.ordered.removeNode _, ?_, ?_⟩
    · intro y hy
      obtain ⟨z, hz, rfl⟩ := mem_modifyNode.1 hy
      split_ifs with hlength
      · have hsame := h.groups.eq_of_key hz hg (hlength.trans hkey.symm)
        subst hsame
        refine ⟨hempty, hnodup.erase _, fun a ha => (hfree _).2 ⟨hgroup a ?_, ?_⟩⟩
        · exact List.mem_of_mem_erase ha
        · exact fun heq => hnodup.not_mem_erase (heq ▸ ha)
      · exact ⟨(h.group z hz).1, (h.group z hz).2.1, hother z hz hlength⟩
    · intro f' hf'
      obtain ⟨hf', hne⟩ := (hfree f').1 hf'
      obtain ⟨z, hz, hzkey, hzmem⟩ := h.indexed f' hf'
      refine ⟨_, mem_modifyNode.2 ⟨z, hz, rfl⟩, ?_⟩
      split_ifs with hlength
      · have hsame := h.groups.eq_of_key hz hg (hlength.trans hkey.symm)
        exact ⟨hzkey, (List.mem_erase_of_ne hne).2 (hsame ▸ hzmem)⟩
      · exact ⟨hzkey, hzmem⟩

end

variable {m m' : Mmap} {address length : ℕ}

lemma insertFreeRegion_spec (length : ℕ) (h : Indexed m.lengthTree m.freeAddressTree)
    (hnew : ∀ f ∈ m.freeAddressTree, f.key ≠ address) :
    ∃ lengthTree, insertFreeRegion m address length = some { m with
        lengthTree
        freeAddressTree := place FreeRegion.key m.freeAddressTree ⟨address, length⟩ } ∧
      Indexed lengthTree (place FreeRegion.key m.freeAddressTree ⟨address, length⟩) := by
  have hplace : ∀ f, f ∈ place FreeRegion.key m.freeAddressTree ⟨address, length⟩ ↔
      f = ⟨address, length⟩ ∨ f ∈ m.freeAddressTree := fun f =>
    (perm_place m.freeAddressTree _).mem_iff.trans List.mem_cons
  -- the group of the length, which may be a new one
  obtain ⟨lengthTree, hlookup, hordered, hsub, hcases, g, hg, hkey⟩ : ∃ lengthTree,
      withGroup m.lengthTree length = some lengthTree ∧
      Ordered LengthGroup.key lengthTree ∧ (∀ z ∈ m.lengthTree, z ∈ lengthTree) ∧
      (∀ z ∈ lengthTree, z = ⟨length, []⟩ ∨ z ∈ m.lengthTree) ∧
      ∃ g ∈ lengthTree, g.key = length := by
    rw [withGroup]
    cases hfind : lookupNode LengthGroup.key m.lengthTree length with
    | some g =>
      obtain ⟨hg, hkey⟩ := lookupNode_some hfind
      exact ⟨m.lengthTree, rfl, h.groups, fun z hz => hz, fun z hz => .inr hz, g, hg, hkey⟩
    | none =>
      have hne := lookupNode_none hfind
      have hmem : ∀ z, z ∈ place LengthGroup.key m.lengthTree ⟨length, []⟩ ↔
          z = ⟨length, []⟩ ∨ z ∈ m.lengthTree := fun z =>
        (perm_place m.lengthTree _).mem_iff.trans List.mem_cons
      exact ⟨_, insertNode_eq hne, h.groups.place hne, fun z hz => (hmem z).2 (.inr hz),
        fun z hz => (hmem z).1 hz, _, (hmem _).2 (.inl rfl), rfl⟩
  refine ⟨modifyNode LengthGroup.key lengthTree length fun g =>
    { g with regions := address :: g.regions }, ?_, hordered.modifyNode (fun _ => rfl),
    h.ordered.place hnew, ?_, ?_⟩
  · rw [insertFreeRegion, hlookup, insertNode_eq hnew]
    rfl
  · intro y hy
    obtain ⟨z, hz, rfl⟩ := mem_modifyNode.1 hy
    have hold : z.regions.Nodup ∧ ∀ a ∈ z.regions,
        (⟨a, z.key⟩ : FreeRegion) ∈ m.freeAddressTree := by
      rcases hcases z hz with rfl | hz
      · exact ⟨.nil, nofun⟩
      · exact (h.group z hz).2
    split_ifs with hlength
    · refine ⟨List.cons_ne_nil _ _, List.nodup_cons.2 ⟨fun ha => ?_, hold.1⟩, fun a ha => ?_⟩
      · exact hnew _ (hold.2 _ ha) rfl
      · rcases List.mem_cons.1 ha with rfl | ha
        · exact (hplace _).2 (.inl (congrArg _ hlength))
        · exact (hplace _).2 (.inr (hold.2 a ha))
    · rcases hcases z hz with rfl | hz
      · exact absurd rfl hlength
      · exact ⟨(h.group z hz).1, hold.1, fun a ha => (hplace _).2 (.inr (hold.2 a ha))⟩
  · intro f hf
    rcases (hplace f).1 hf with rfl | hf
    · exact ⟨_, mem_modifyNode.2 ⟨g, hg, if_pos hkey⟩, hkey, List.mem_cons_self ..⟩
    · obtain ⟨z, hz, hzkey, hzmem⟩ := h.indexed f hf
      refine ⟨_, mem_modifyNode.2 ⟨z, hsub z hz, rfl⟩, ?_⟩
      split_ifs with hlength
      · exact ⟨hzkey, List.mem_cons_of_mem _ hzmem⟩
      · exact ⟨hzkey, hzmem⟩

/-! ### Giving a range back -/

/-- What the free regions leave alone. -/
structure Same (m m' : Mmap) : Prop where
  addressTree : m'.addressTree = m.addressTree
  topAddress : m'.topAddress = m.topAddress
  breakAddress : m'.breakAddress = m.breakAddress

/-- Some ranges and the free regions tile the addresses from the heap address on. -/
structure Free (m : Mmap) (others : List Range) : Prop where
  indexed : Indexed m.lengthTree m.freeAddressTree
  tiled : Tiled m.heapAddress m.topAddress (others ++ m.freeAddressTree.map FreeRegion.range)
  top_lt : m.topAddress < 2 ^ 64

lemma Free.pop {others : List Range} {f : FreeRegion} (h : Free m others)
    (hf : f ∈ m.freeAddressTree) : Free (popFreeRegion m f) (f.range :: others) := by
  refine ⟨h.indexed.pop hf, h.tiled.perm ?_, h.top_lt⟩
  have hperm := (h.indexed.ordered.perm_removeNode hf).map FreeRegion.range
  exact (hperm.append_left others).trans List.perm_middle

lemma pushMerged_spec {others : List Range} (h : Free m (⟨address, address + length⟩ :: others)) :
    ∃ m', pushMerged m address length = some m' ∧ Same m m' ∧ Free m' others := by
  have hin := h.tiled.inside _ (List.mem_cons_self ..)
  have htop := h.top_lt
  simp only at hin
  rw [pushMerged]
  split_ifs with hheap
  · refine ⟨_, rfl, ⟨rfl, rfl, rfl⟩, h.indexed, ?_, htop⟩
    have htiled := h.tiled
    rw [List.cons_append, hheap] at htiled
    rw [Nat.mod_eq_of_lt (by omega)]
    exact htiled.shrink
  · have hnew : ∀ f ∈ m.freeAddressTree, f.key ≠ address := fun f hf =>
      h.tiled.start_ne (List.mem_append_right _ (List.mem_map_of_mem hf))
    obtain ⟨lengthTree, hinsert, hindexed⟩ := insertFreeRegion_spec length h.indexed hnew
    refine ⟨_, hinsert, ⟨rfl, rfl, rfl⟩, hindexed, h.tiled.perm ?_, htop⟩
    have hperm := ((@perm_place _ FreeRegion.key m.freeAddressTree ⟨address, length⟩).map
      FreeRegion.range).symm
    exact List.perm_middle.symm.trans (hperm.append_left others)

/-- **A range** becomes free, with the free region that ends at it. -/
lemma pushFreeRegion_spec {others : List Range}
    (h : Free m (⟨address, address + length⟩ :: others)) :
    ∃ m', pushFreeRegion m address length = some m' ∧ Same m m' ∧ Free m' others := by
  have htop := h.top_lt
  have hin := h.tiled.inside _ (List.mem_cons_self ..)
  simp only at hin
  rw [pushFreeRegion]
  cases hleft : leftNeighbour m address with
  | none => exact pushMerged_spec h
  | some f =>
    obtain ⟨hfind, hends⟩ := Option.filter_eq_some_iff.1 hleft
    have hf := (lookupDecreasingNode_some hfind).1
    have hfin := h.tiled.inside f.range (List.mem_append_right _ (List.mem_map_of_mem hf))
    simp only [FreeRegion.range] at hfin
    have hstop : f.key + f.length = address := by
      rw [decide_eq_true_eq, Nat.mod_eq_of_lt (by omega)] at hends
      exact hends
    have hpop := h.pop hf
    have hmerged : Free (popFreeRegion m f) (⟨f.key, address + length⟩ :: others) := by
      refine { hpop with tiled := Tiled.merge (b := address) ?_ }
      have htiled := hpop.tiled
      rw [FreeRegion.range, hstop] at htiled
      exact htiled
    have hargs : (address + 2 ^ 64 - f.length) % 2 ^ 64 = f.key ∧
        (length + f.length) % 2 ^ 64 = length + f.length := by
      constructor <;> omega
    have hsum : address + length = f.key + (length + f.length) := by omega
    simp only [hargs.1, hargs.2]
    rw [hsum] at hmerged
    obtain ⟨m', hm', hsame, hfree⟩ := pushMerged_spec hmerged
    exact ⟨m', hm', ⟨hsame.addressTree, hsame.topAddress, hsame.breakAddress⟩, hfree⟩

/-! ### Taking a range -/

variable (length) in
/-- **A range** of the length is taken from the free regions or from the heap. -/
lemma takeAddress_spec {others : List Range} (h : Free m others) (hpos : 0 < length)
    (hlength : length < 2 ^ 64) (hbreak : m.breakAddress + length < 2 ^ 64) :
    takeAddress m length = some (none, m) ∨ ∃ address m',
      takeAddress m length = some (some address, m') ∧ Same m m' ∧
        Free m' (⟨address, address + length⟩ :: others) := by
  have htop := h.top_lt
  rw [takeAddress]
  cases hgroup : lookupIncreasingNode LengthGroup.key m.lengthTree length with
  | none =>
    have hle := h.tiled.le
    simp only
    split_ifs with hfull
    · exact .inl rfl
    · rw [Nat.mod_eq_of_lt hbreak] at hfull
      have hheap : (m.heapAddress + 2 ^ 64 - length) % 2 ^ 64 = m.heapAddress - length := by omega
      refine .inr ⟨_, _, rfl, ⟨rfl, rfl, rfl⟩, h.indexed, ?_, htop⟩
      have hgrow := h.tiled.grow (a := m.heapAddress - length) (by omega)
      simp only [hheap]
      rwa [Nat.sub_add_cancel (by omega)]
  | some group =>
    obtain ⟨hmem, hle⟩ := lookupIncreasingNode_some hgroup
    obtain ⟨hne, -, hfree⟩ := h.indexed.group group hmem
    obtain ⟨address, regions, hregions⟩ := List.exists_cons_of_ne_nil hne
    have hf := hfree address (hregions ▸ List.mem_cons_self ..)
    have hpop := h.pop hf
    have hin := hpop.tiled.inside _ (List.mem_cons_self ..)
    simp only [FreeRegion.range, popFreeRegion] at hin
    simp only [hregions]
    split_ifs with hlonger
    · have hrest : Free (popFreeRegion m ⟨address, group.key⟩)
          (⟨address + length, address + length + (group.key - length)⟩ ::
            (⟨address, address + length⟩ :: others)) := by
        have hsum : address + length + (group.key - length) = address + group.key := by omega
        refine { hpop with tiled := ?_ }
        rw [hsum]
        exact (Tiled.split hpop.tiled (b := address + length) (by simp only; omega)
          (by simp only; omega)).perm
          (.swap _ _ _)
      rw [Nat.mod_eq_of_lt (by omega)]
      obtain ⟨m', hm', hsame, hfree'⟩ := pushFreeRegion_spec hrest
      exact .inr ⟨address, m', by rw [hm', Option.map_some],
        ⟨hsame.addressTree, hsame.topAddress, hsame.breakAddress⟩, hfree'⟩
    · have heq : group.key = length := by omega
      refine .inr ⟨address, _, rfl, ⟨rfl, rfl, rfl⟩, ?_⟩
      rw [FreeRegion.range, heq] at hpop
      rwa [heq]

/-! ### The invariant -/

/-- The largest length that `mmap_alloc` lets pass, with guard pages. -/
def maxLength : ℕ := 2 ^ 47 - 2 ^ 12 + 4 * 2 ^ 12

/-- Regions and free regions tile the memory map, whose trees are in order. -/
structure Inv (bottomAddress topAddress : ℕ) (m : Mmap) : Prop where
  free : Free m (m.addressTree.map Region.range)
  ordered : Ordered Region.key m.addressTree
  region : ∀ r ∈ m.addressTree, guardPageSize r.isStack ≤ r.key ∧ 0 < r.length
  topAddress_eq : m.topAddress = topAddress
  breakAddress_eq : m.breakAddress = bottomAddress

variable {bottomAddress topAddress : ℕ}

lemma guardPageSize_le (isStack : Bool) : guardPageSize isStack ≤ 4 * 2 ^ 12 := by
  cases isStack <;> decide

lemma mmapInit_inv (htop : topAddress < 2 ^ 64) :
    Inv bottomAddress topAddress (mmapInit bottomAddress topAddress) where
  free := ⟨⟨.nil, .nil, nofun, nofun⟩, .nil topAddress, htop⟩
  ordered := .nil
  region := nofun
  topAddress_eq := rfl
  breakAddress_eq := rfl

/-- What `mmap_alloc` returns. -/
structure Allocated (m m' : Mmap) (length : ℕ) (isStack : Bool) (region : Region) : Prop where
  length_eq : region.length = length
  isStack_eq : region.isStack = isStack
  mem : region ∈ m'.addressTree
  apart : ∀ r ∈ m.addressTree, r.range.Apart region.range

variable (length) in
/-- **An allocation** gives a region of its own, or nothing. -/
lemma mmapAlloc_spec (hi : Inv bottomAddress topAddress m)
    (hbottom : bottomAddress + maxLength < 2 ^ 64) (isStack : Bool) :
    ∃ region m', mmapAlloc m length isStack = some (region, m') ∧
      Inv bottomAddress topAddress m' ∧
      ∀ r, region = some r → Allocated m m' length isStack r := by
  rw [mmapAlloc]
  split_ifs with hpage hempty
  · exact ⟨none, m, rfl, hi, nofun⟩
  · exact ⟨none, m, rfl, hi, nofun⟩
  · have hguard := guardPageSize_le isStack
    have hshort : length + guardPageSize isStack ≤ maxLength := by
      rw [maxLength]
      omega
    have hpos : 0 < length := by omega
    have hbreak := hi.breakAddress_eq
    rcases takeAddress_spec (length + guardPageSize isStack) hi.free (by omega) (by omega)
      (by omega) with htake | ⟨address, m', htake, hsame, hfree⟩
    · exact ⟨none, m, by rw [htake]; rfl, hi, nofun⟩
    · have hin := hfree.tiled.inside _ (List.mem_cons_self ..)
      have htop := hfree.top_lt
      simp only at hin
      have hkey : (address + guardPageSize isStack) % 2 ^ 64 = address + guardPageSize isStack :=
        Nat.mod_eq_of_lt (by omega)
      have hrange : (⟨address, address + (length + guardPageSize isStack)⟩ : Range) =
          Region.range ⟨address + guardPageSize isStack, length, isStack⟩ := by
        simp only [Region.range, Range.mk.injEq]
        omega
      have hapart : ∀ r ∈ m.addressTree, r.range.Apart
          (Region.range ⟨address + guardPageSize isStack, length, isStack⟩) := by
        intro r hr
        have hall := (List.pairwise_cons.1 hfree.tiled.apart).1 r.range
          (List.mem_append_left _ (List.mem_map_of_mem hr))
        rw [hrange] at hall
        exact hall.symm
      have hnew : ∀ r ∈ m.addressTree, r.key ≠ address + guardPageSize isStack := by
        intro r hr heq
        have hdisjoint := hapart r hr
        have hregion := hi.region r hr
        simp only [Range.Apart, Region.range] at hdisjoint
        omega
      rw [htake]
      simp only [Option.bind_eq_bind, Option.bind_some, hkey]
      rw [hsame.addressTree, insertNode_eq hnew, Option.bind_some]
      have hperm := @perm_place _ Region.key m.addressTree
        ⟨address + guardPageSize isStack, length, isStack⟩
      refine ⟨_, _, rfl, ⟨⟨hfree.indexed, ?_, hfree.top_lt⟩, hi.ordered.place hnew, fun r hr => ?_,
        hsame.topAddress.trans hi.topAddress_eq, hsame.breakAddress.trans hi.breakAddress_eq⟩, ?_⟩
      · refine hfree.tiled.perm ?_
        rw [hrange]
        exact ((hperm.map Region.range).symm).append_right _
      · rcases List.mem_cons.1 (hperm.mem_iff.1 hr) with rfl | hr
        · exact ⟨Nat.le_add_left _ _, hpos⟩
        · exact hi.region r hr
      · rintro r ⟨⟩
        exact ⟨rfl, rfl, hperm.mem_iff.2 (List.mem_cons_self ..), hapart⟩

lemma deallocRegion_spec (hi : Inv bottomAddress topAddress m) {r : Region}
    (hr : r ∈ m.addressTree) :
    ∃ m', deallocRegion m r = some m' ∧ Inv bottomAddress topAddress m' := by
  obtain ⟨hguard, hpos⟩ := hi.region r hr
  have hperm := hi.ordered.perm_removeNode hr
  have hin := hi.free.tiled.inside r.range (List.mem_append_left _ (List.mem_map_of_mem hr))
  have htop := hi.free.top_lt
  simp only [Region.range] at hin
  have hrange : (⟨r.key - guardPageSize r.isStack, r.key - guardPageSize r.isStack +
      (r.length + guardPageSize r.isStack)⟩ : Range) = r.range := by
    rw [Region.range]
    congr 1
    omega
  have hargs : (r.key + 2 ^ 64 - guardPageSize r.isStack) % 2 ^ 64 =
        r.key - guardPageSize r.isStack ∧
      (r.length + guardPageSize r.isStack) % 2 ^ 64 = r.length + guardPageSize r.isStack := by
    have hkey : r.key + 2 ^ 64 - guardPageSize r.isStack =
        r.key - guardPageSize r.isStack + 2 ^ 64 := by omega
    rw [hkey, Nat.add_mod_right]
    exact ⟨Nat.mod_eq_of_lt (by omega), Nat.mod_eq_of_lt (by omega)⟩
  have hgiven : Free { m with addressTree := removeNode Region.key m.addressTree r.key }
      (⟨r.key - guardPageSize r.isStack, r.key - guardPageSize r.isStack +
        (r.length + guardPageSize r.isStack)⟩ ::
          (removeNode Region.key m.addressTree r.key).map Region.range) := by
    refine ⟨hi.free.indexed, hi.free.tiled.perm ?_, htop⟩
    rw [hrange]
    exact (hperm.map Region.range).append_right _
  rw [deallocRegion, hargs.1, hargs.2]
  obtain ⟨m', hm', hsame, hfree⟩ := pushFreeRegion_spec hgiven
  refine ⟨m', hm', ?_, ?_, ?_, hsame.topAddress.trans hi.topAddress_eq,
    hsame.breakAddress.trans hi.breakAddress_eq⟩
  · rwa [hsame.addressTree]
  · rw [hsame.addressTree]
    exact hi.ordered.removeNode _
  · rw [hsame.addressTree]
    exact fun r' hr' => hi.region r' (mem_removeNode.1 hr').1

end KernelModel.MemoryMap
