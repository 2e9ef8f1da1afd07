import KernelModel.PmmRun

/-!
The reachable states of the page allocator.

Every one of them is in order: the buckets are lists of the free blocks, and free and live blocks
tile the registered memory. If ranges meet only at the ends of largest blocks, buddies are always
merged, and memory that nothing is allocated in is split into the same blocks as when it was
registered.
-/

namespace KernelModel.Pmm

open DoublyLinked DyadicTiling

/-- `pmm_init`, before memory is registered. -/
def initial (allocatorCount : ℕ) : State where
  idx _ := indexUsed
  prevIdx _ := 0
  prev _ := none
  next _ := none
  head _ := none
  tail _ := none
  bucketBitmap _ := false
  allocatorCount := allocatorCount
  loadBalancerIndex := 0
  isPartiallyInitialized := false

/-- The pages of a range, in addition to others. -/
def withRange (R : Set ℕ) (page last : ℕ) : Set ℕ := {x | x ∈ R ∨ page ≤ x ∧ x < last}

/-- The states with their live blocks and their registered pages. Ranges do not overlap, page 0 is
never registered, and what is deallocated has been allocated with the same number of pages. -/
inductive Reaches (Ok : Set ℕ → ℕ → ℕ → Prop) : State → Blocks → Set ℕ → Prop
  | initial (allocatorCount : ℕ) : Reaches Ok (initial allocatorCount) (fun _ => none) ∅
  | addMemoryRange {s : State} {live : Blocks} {R : Set ℕ} {page last : ℕ} :
      Reaches Ok s live R → 0 < page → (∀ x, page ≤ x → x < last → x ∉ R) → Ok R page last →
      Reaches Ok (addMemoryRange s page last) live (withRange R page last)
  | initialized {s : State} {live : Blocks} {R : Set ℕ} : Reaches Ok s live R →
      Reaches Ok { s with isPartiallyInitialized := true } live R
  | alloc {s s' : State} {live : Blocks} {R : Set ℕ} {f count page : ℕ} {lowMemory : Bool} :
      Reaches Ok s live R → pmmAlloc f s count lowMemory = some (.ok (s', some page)) →
      Reaches Ok s' (Function.update live page (some (order count))) R
  | dealloc {s s' : State} {live : Blocks} {R : Set ℕ} {page count : ℕ} :
      Reaches Ok s live R → live page = some (order count) → pmmDealloc s page count = .ok s' →
      Reaches Ok s' (Function.update live page none) R

/-- The states in which nothing was ever allocated. -/
inductive Registers (Ok : Set ℕ → ℕ → ℕ → Prop) : State → Set ℕ → Prop
  | initial (allocatorCount : ℕ) : Registers Ok (Pmm.initial allocatorCount) ∅
  | addMemoryRange {s : State} {R : Set ℕ} {page last : ℕ} : Registers Ok s R → 0 < page →
      (∀ x, page ≤ x → x < last → x ∉ R) → Ok R page last →
      Registers Ok (addMemoryRange s page last) (withRange R page last)

lemma Reaches.registers {Ok : Set ℕ → ℕ → ℕ → Prop} {s : State} {live : Blocks} {R : Set ℕ}
    (h : Reaches Ok s live R) : ∃ s₀, Registers Ok s₀ R := by
  induction h with
  | initial allocatorCount => exact ⟨_, .initial allocatorCount⟩
  | addMemoryRange _ hpos hfresh hok ih =>
    obtain ⟨s₀, hs₀⟩ := ih
    exact ⟨_, hs₀.addMemoryRange hpos hfresh hok⟩
  | initialized _ ih => exact ih
  | alloc _ _ ih => exact ih
  | dealloc _ _ _ ih => exact ih

/-- A range touches others only at the ends of largest blocks. -/
def Apart (R : Set ℕ) (page last : ℕ) : Prop :=
  (page - 1 ∈ R → 2 ^ (bucketCount - 1) ∣ page) ∧ (last ∈ R → 2 ^ (bucketCount - 1) ∣ last)

variable {Ok : Set ℕ → ℕ → ℕ → Prop} {s s' : State} {live : Blocks} {R : Set ℕ} {a i j n p q x : ℕ}

/-! ### The invariant -/

lemma initial_inv (allocatorCount : ℕ) : Inv none (initial allocatorCount) (fun _ => none) ∅ := by
  have horders : ∀ p, orders (initial allocatorCount) (fun _ => none) p = none := fun p => by
    rw [orders]
    exact if_pos rfl
  refine ⟨⟨fun p i hp => ?_, fun p i hp => ?_, fun x => ?_, fun p q i j x hp => ?_⟩,
    fun p i hp => ?_,
    fun p i _ hp => ?_, fun b hb => ⟨[], ⟨rfl, rfl⟩, List.nodup_nil, fun p => ?_⟩, fun b _ => ?_⟩
  · rw [horders] at hp
    cases hp
  · rw [horders] at hp
    cases hp
  · refine iff_of_false (Set.notMem_empty x) ?_
    rintro ⟨p, i, hp⟩
    have hblock := hp.block
    rw [horders] at hblock
    cases hblock
  · have hblock := hp.block
    rw [horders] at hblock
    cases hblock
  · cases hp
  · rw [horders] at hp
    cases hp
  · refine iff_of_false (List.not_mem_nil) fun hc => ?_
    rw [← hc] at hb
    exact absurd (show indexUsed < bucketCount from hb) (by decide)
  · simp [initial]

theorem Reaches.inv (h : Reaches Ok s live R) : Inv none s live R := by
  induction h with
  | initial allocatorCount => exact initial_inv allocatorCount
  | addMemoryRange _ _ hfresh _ ih => exact addBlocks_inv ih le_rfl hfresh
  | initialized _ ih => exact ⟨ih.tiles, ih.live_used, ih.tags, ih.lists, ih.bits⟩
  | alloc _ hrun ih => exact (pmmAlloc_spec ih hrun).2.2.1
  | dealloc _ hlive hrun ih => exact (pmmDealloc_spec ih hlive hrun).1

lemma Registers.reaches (h : Registers Ok s R) : Reaches Ok s (fun _ => none) R := by
  induction h with
  | initial allocatorCount => exact .initial allocatorCount
  | addMemoryRange _ hpos hfresh hok ih => exact ih.addMemoryRange hpos hfresh hok

/-! ### Free buddies -/

/-- The last block of a range so far, and the reason why it is not larger. -/
def Reason (s : State) (live : Blocks) (begin page last : ℕ) : Prop :=
  page = begin ∨ ∃ q k, orders s live q = some k ∧ q + 2 ^ k = page ∧
    (k = bucketCount - 1 ∨ q.testBit k = true ∨ last - q < 2 ^ (k + 1))

lemma buddy_not_free {begin page last : ℕ} (h : Inv none s live (withRange R begin page))
    (hle : begin ≤ page) (hlt : page < last)
    (hfresh : ∀ x, begin ≤ x → x < last → x ∉ R) (hapart : Apart R begin last)
    (hreason : Reason s live begin page last)
    (hi : rangeOrder page last < bucketCount - 1) :
    s.idx (page ^^^ 2 ^ rangeOrder page last) ≠ rangeOrder page last := by
  obtain ⟨-, hdvd, hend, hwhy⟩ := rangeOrder_spec hlt
  set i := rangeOrder page last
  have hpow := Nat.two_pow_pos i
  have hdouble : 2 ^ (i + 1) = 2 ^ i + 2 ^ i := by ring
  -- a multiple of the largest blocks has no bit of a smaller order
  have hlarge : ∀ x, 2 ^ (i + 1) ∣ x → ¬ 2 ^ (bucketCount - 1) ∣ x + 2 ^ i := by
    intro x hx hall
    have hsum : 2 ^ (i + 1) ∣ x + 2 ^ i := (pow_dvd_pow 2 (by omega)).trans hall
    have hone := (Nat.dvd_add_right hx).mp hsum
    rw [Nat.pow_dvd_pow_iff_le_right (by norm_num)] at hone
    omega
  intro hfree
  have hblock : orders s live (page ^^^ 2 ^ i) = some i := orders_free hfree (by omega)
  rcases buddy_cases hdvd with ⟨hbit, hright, hdvd'⟩ | ⟨hbit, hhalf, hleft, hdvd'⟩
  · rw [hright] at hblock
    -- it would begin behind the range, where only the range may begin that touches this one
    have hshort : last - page < 2 ^ (i + 1) := by
      rcases hwhy with hmax | hone | hshort
      · omega
      · rw [hbit] at hone
        cases hone
      · exact hshort
    have hmem : page + 2 ^ i ∈ withRange R begin page :=
      (h.tiles.cover _).mpr ⟨_, _, Holds.self hblock⟩
    have hold : page + 2 ^ i ∈ R := hmem.resolve_right fun hin => by omega
    have hlast : last = page + 2 ^ i := by
      by_contra hne
      exact hfresh _ (by omega) (by omega) hold
    rw [← hlast] at hold
    have hdiv := hapart.2 hold
    rw [hlast] at hdiv
    exact hlarge page hdvd' hdiv
  · rw [hleft] at hblock
    have hbefore : Holds (orders s live) (page - 2 ^ i) i (page - 1) := ⟨hblock, by omega, by omega⟩
    rcases hreason with hbegin | ⟨q, k, hq, hqpage, hk⟩
    · -- it would end where the range begins
      have hmem : page - 1 ∈ withRange R begin page := (h.tiles.cover _).mpr ⟨_, _, hbefore⟩
      have hold : page - 1 ∈ R := hmem.resolve_right fun hin => by omega
      rw [hbegin] at hold
      have hdiv := hapart.1 hold
      rw [← hbegin, ← Nat.sub_add_cancel hhalf] at hdiv
      exact hlarge _ hdvd' hdiv
    · -- it would be the last block, which would have been larger
      have hpk := Nat.two_pow_pos k
      have hsame : page - 2 ^ i = q :=
        h.tiles.unique _ q i k (page - 1) hbefore ⟨hq, by omega, by omega⟩
      rw [hsame, hq] at hblock
      obtain rfl := Option.some.inj hblock
      rw [hsame] at hdvd'
      rcases hk with hmax | hone | hshort
      · omega
      · obtain ⟨c, hc⟩ := hdvd'
        rw [hc, Nat.testBit_two_pow_mul] at hone
        simp at hone
      · omega

/-- **Registering a range** leaves no free buddies, by induction on its blocks. -/
lemma addBlocks_freeApart {begin page last : ℕ} (h : Inv none s live (withRange R begin page))
    (hfree : FreeApart s) (hle : begin ≤ page) (hfresh : ∀ x, begin ≤ x → x < last → x ∉ R)
    (hapart : Apart R begin last) (hreason : Reason s live begin page last) :
    FreeApart (addBlocks n s page last) := by
  induction n generalizing s page with
  | zero => exact hfree
  | succ n ih =>
    rw [addBlocks]
    by_cases hlt : page < last
    · rw [if_pos hlt]
      obtain ⟨hi, hdvd, hend, hwhy⟩ := rangeOrder_spec hlt
      have hbuddy := buddy_not_free h hle hlt hfresh hapart hreason
      have hnew : ∀ x, page ≤ x → x < page + 2 ^ rangeOrder page last →
          x ∉ withRange R begin page := by
        rintro x hx hxl (hold | hin)
        · exact hfresh x (by omega) (by omega) hold
        · omega
      have hnext := h.register hdvd hi hnew
      have hpow := Nat.two_pow_pos (rangeOrder page last)
      have hidx : ∀ u, (appendBlock s (getAllocatorFromAddress page) page
          (rangeOrder page last)).idx u =
          if u = page then rangeOrder page last else s.idx u := fun u => by
        rw [appendBlock_fields]
        exact Function.update_apply ..
      refine ih (hnext.congr fun x => ?_) (hfree.free hidx hdvd hbuddy) (by omega) (.inr ?_)
      · simp only [withRange, Set.mem_ofPred_eq]
        constructor
        · rintro (hold | ⟨hbx, hxl⟩)
          · exact .inl (.inl hold)
          · by_cases hin : x < page
            · exact .inl (.inr ⟨hbx, hin⟩)
            · exact .inr ⟨by omega, hxl⟩
        · rintro ((hold | ⟨hbx, hxl⟩) | ⟨hbx, hxl⟩)
          · exact .inl hold
          · exact .inr ⟨hbx, by omega⟩
          · exact .inr ⟨by omega, hxl⟩
      · refine ⟨page, rangeOrder page last, ?_, rfl, hwhy⟩
        exact orders_free (by rw [hidx, if_pos rfl]) hi
    · rw [if_neg hlt]
      exact hfree

theorem Reaches.freeApart (h : Reaches Apart s live R) : FreeApart s := by
  induction h with
  | initial allocatorCount =>
    intro p i hi hp
    change indexUsed = i at hp
    rw [← hp] at hi
    exact absurd hi (by decide)
  | addMemoryRange hr _ hfresh hapart ih =>
    refine addBlocks_freeApart (hr.inv.congr fun x => ?_) ih le_rfl hfresh hapart (.inl rfl)
    simp only [withRange, Set.mem_ofPred_eq]
    exact or_iff_left fun hx => by omega
  | initialized _ ih => exact ih
  | alloc hr hrun ih => exact (pmmAlloc_spec hr.inv hrun).2.2.2 ih
  | dealloc hr hlive hrun ih => exact (pmmDealloc_spec hr.inv hlive hrun).2 ih

/-! ### Blocks in order -/

lemma le_two_pow_order (count : ℕ) : count ≤ 2 ^ order count := by
  rcases Nat.eq_zero_or_pos count with rfl | hpos
  · exact Nat.zero_le _
  · have hlt := Nat.lt_log2_self (n := count)
    rw [order]
    split_ifs with hbit
    · exact hlt.le
    · have hzero : count &&& (count - 1) = 0 := by simpa using hbit
      obtain ⟨k, rfl⟩ := (Nat.and_sub_one_eq_zero_iff_isPowerOfTwo hpos.ne').mp hzero
      rw [Nat.log2_two_pow, Nat.add_zero]

/-- The page allocator in order: its buckets, its block descriptors and its blocks. -/
structure InOrder (s : State) (live : Blocks) (R : Set ℕ) : Prop where
  /-- Each bucket is a list of the free blocks of its order, and has its bit set if there are
  any. -/
  buckets : ∀ a i, i < bucketCount → ∃ l,
    Linked s.next s.prev (s.head (a, i)) (s.tail (a, i)) l ∧ l.Nodup ∧
      (∀ p, p ∈ l ↔ s.idx p = i ∧ getAllocatorFromAddress p = a) ∧
      (s.bucketBitmap (a, i) = true ↔ l ≠ [])
  /-- The other pages are marked as used, and so are the live blocks. -/
  idx : ∀ p, s.idx p = indexUsed ∨ s.idx p < bucketCount
  live_used : ∀ p i, live p = some i → s.idx p = indexUsed
  /-- The blocks are aligned to their sizes and tile the registered pages. -/
  tiles : Tiles (bucketCount - 1) R (orders s live)
  allocator : ∀ p i x, Holds (orders s live) p i x →
    getAllocatorFromAddress x = getAllocatorFromAddress p
  /-- No page is handed out twice. -/
  alloc : ∀ f count lowMemory s' page, pmmAlloc f s count lowMemory = some (.ok (s', some page)) →
    ∀ q j, live q = some j → ∀ x, q ≤ x → x < q + 2 ^ j → ¬ (page ≤ x ∧ x < page + count)

/-- **Every reachable state is in order.** -/
theorem Reaches.inOrder (h : Reaches (fun _ _ _ => True) s live R) : InOrder s live R := by
  have hinv := h.inv
  refine ⟨fun a i hi => ?_, fun p => ?_, hinv.live_used, hinv.tiles, fun p i x hx => ?_, ?_⟩
  · obtain ⟨l, hlinked, hnodup, hmem⟩ := hinv.lists (a, i) hi
    refine ⟨l, hlinked, hnodup, fun p => ?_, ?_⟩
    · rw [hmem, bucketOf, Prod.mk.injEq, and_comm]
    · rw [hinv.bits (a, i) hi, hlinked.head_eq]
      cases l <;> simp
  · by_cases hused : s.idx p = indexUsed
    · exact .inl hused
    · have hle := hinv.tiles.order_le p (s.idx p) (by rw [orders, if_neg hused])
      refine .inr ?_
      rw [bucketCount_eq] at hle ⊢
      omega
  · have hle := hinv.tiles.order_le p i hx.block
    exact allocator_of_start (hle.trans (Nat.sub_le _ _)) (hinv.tiles.start_eq hx)
  · intro f count lowMemory s' page hrun q j hq x hle hlt hin
    obtain ⟨-, hnone, hnext, -⟩ := pmmAlloc_spec hinv hrun
    have hne : q ≠ page := by
      rintro rfl
      rw [hnone] at hq
      cases hq
    have hsize := le_two_pow_order count
    have hold : Holds (orders s' (Function.update live page (some (order count)))) q j x :=
      ⟨orders_live hnext (by rw [Function.update_of_ne hne, hq]), hle, hlt⟩
    have hnew : Holds (orders s' (Function.update live page (some (order count)))) page
        (order count) x := ⟨orders_live hnext (Function.update_self ..), hin.1, by omega⟩
    exact hne (hnext.tiles.unique q page j _ x hold hnew)

/-! ### Three pages

Page 1 is one block and pages 2 and 3 are another one. -/

def threePages : State :=
  { addMemoryRange (initial 1) 1 4 with isPartiallyInitialized := true }

lemma threePages_reaches {Ok : Set ℕ → ℕ → ℕ → Prop} (hok : Ok ∅ 1 4) :
    Reaches Ok threePages (fun _ => none) (withRange ∅ 1 4) :=
  .initialized (.addMemoryRange (.initial 1) (by norm_num) (fun x _ _ => Set.notMem_empty x) hok)

/-- The state after one page was allocated. -/
def afterAlloc (s : State) : State :=
  match pmmAlloc 1 s 1 false with
  | some (.ok (s', _)) => s'
  | _ => s

/-- The state after one page was deallocated. -/
def afterDealloc (s : State) (page : ℕ) : State := (pmmDealloc s page 1).toOption.getD s

lemma twoAllocated_reaches {Ok : Set ℕ → ℕ → ℕ → Prop} (hok : Ok ∅ 1 4) :
    Reaches Ok (afterAlloc (afterAlloc threePages))
      (Function.update (Function.update (fun _ => none) 1 (some (order 1))) 2 (some (order 1)))
      (withRange ∅ 1 4) := by
  have hfirst : pmmAlloc 1 threePages 1 false = some (.ok (afterAlloc threePages, some 1)) := rfl
  have hsecond : pmmAlloc 1 (afterAlloc threePages) 1 false =
      some (.ok (afterAlloc (afterAlloc threePages), some 2)) := rfl
  exact ((threePages_reaches hok).alloc hfirst).alloc hsecond

/-- Two pages are live, one of them a part of the larger block. -/
theorem twoAllocated_inOrder : InOrder (afterAlloc (afterAlloc threePages))
    (Function.update (Function.update (fun _ => none) 1 (some (order 1))) 2 (some (order 1)))
    (withRange ∅ 1 4) :=
  Reaches.inOrder (twoAllocated_reaches trivial)

/-! ### Coalescing -/

/-- **Buddies are merged**: the order of each block is noted behind it; and of ranges that are
apart no two free buddies are left, and when nothing is allocated any more the blocks are those of
the registration. -/
theorem Reaches.coalesced (h : Reaches Ok s live R) :
    (∀ p i, orders s live p = some i → s.prevIdx (p + 2 ^ i) = i) ∧
      (Reaches Apart s live R → FreeApart s ∧
        ((∀ p, live p = none) → (∃ s₀, Registers Apart s₀ R) ∧
          ∀ s₀, Registers Apart s₀ R → s.idx = s₀.idx)) := by
  refine ⟨fun p i hp => h.inv.tags p i (by simp) hp, fun h => ⟨h.freeApart,
    fun hnone => ⟨h.registers, fun s₀ hs₀ => ?_⟩⟩⟩
  obtain rfl : live = fun _ => none := funext hnone
  have hblocks : ∀ {s}, Reaches Apart s (fun _ => none) R →
      NoBuddies (bucketCount - 1) (orders s fun _ => none) := by
    intro s hs p i hi hp hbuddy
    have hidx : ∀ q, orders s (fun _ => none) q = some i → s.idx q = i := by
      intro q hq
      rw [orders] at hq
      split_ifs at hq
      exact Option.some.inj hq
    exact hs.freeApart p i hi (hidx p hp) (hidx _ hbuddy)
  have hsame := h.inv.tiles.eq_of_noBuddies hs₀.reaches.inv.tiles (hblocks h)
    (hblocks hs₀.reaches)
  funext p
  have hp := congrFun hsame p
  rw [orders, orders] at hp
  split_ifs at hp with h₁ h₂ h₂
  · rw [h₁, h₂]
  · exact Option.some.inj hp

/-- Two pages are allocated and deallocated again: the blocks are those of the registration. -/
theorem twoDeallocated_coalesced :
    (afterDealloc (afterDealloc (afterAlloc (afterAlloc threePages)) 1) 2).idx =
      (addMemoryRange (initial 1) 1 4).idx := by
  have hapart : Apart ∅ 1 4 :=
    ⟨fun h => absurd h (Set.notMem_empty _), fun h => absurd h (Set.notMem_empty _)⟩
  have hregisters : Registers Apart (addMemoryRange (initial 1) 1 4) (withRange ∅ 1 4) :=
    .addMemoryRange (.initial 1) (by norm_num) (fun x _ _ => Set.notMem_empty x) hapart
  set s := afterAlloc (afterAlloc threePages)
  have hfirst : pmmDealloc s 1 1 = .ok (afterDealloc s 1) := rfl
  have hsecond : pmmDealloc (afterDealloc s 1) 2 1 = .ok (afterDealloc (afterDealloc s 1) 2) := rfl
  have hlive : Function.update (Function.update (fun _ => none) 1 (some (order 1))) 2
      (some (order 1)) 1 = some (order 1) := rfl
  have hlive' : Function.update (Function.update (Function.update (fun _ => none) 1
      (some (order 1))) 2 (some (order 1))) 1 none 2 = some (order 1) := rfl
  have hreach := ((twoAllocated_reaches hapart).dealloc hlive hfirst).dealloc hlive' hsecond
  exact (((Reaches.coalesced hreach).2 hreach).2 fun p => by
    simp only [Function.update_apply]
    split_ifs <;> rfl).2 _ hregisters

/-- Page 2 and page 3 are registered one after the other: they are free buddies. -/
theorem touching_not_coalesced :
    ∃ s live R, Reaches (fun _ _ _ => True) s live R ∧ ¬ FreeApart s := by
  refine ⟨addMemoryRange (addMemoryRange (initial 1) 2 3) 3 4, fun _ => none,
    withRange (withRange ∅ 2 3) 3 4, .addMemoryRange (.addMemoryRange (.initial 1) (by norm_num)
      (fun x _ _ => Set.notMem_empty x) trivial) (by norm_num) ?_ trivial, fun hfree => ?_⟩
  · rintro x hle hlt (hold | hin)
    · exact hold
    · omega
  · exact hfree 2 0 (by decide) (by decide) (by decide)

end KernelModel.Pmm
