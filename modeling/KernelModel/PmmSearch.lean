import KernelModel.PmmReach

/-!
The search for an allocator.

The first loop of `pmm_alloc` takes the allocators in turn until one has a block; nothing else ends
it. The second one goes around the allowed allocators once, and gives up when it is back.
-/

namespace KernelModel.Pmm

/-- An allocator has a free block of at least this order. -/
def HasBlock (s : State) (i a : ℕ) : Prop := (lowestBit s a i).isSome

instance (s : State) (i a : ℕ) : Decidable (HasBlock s i a) :=
  inferInstanceAs (Decidable ((lowestBit s a i).isSome = true))

/-- The allocators that may be used: for low memory, those below `PMM_LOW_ALLOCATOR_LIMIT`. -/
def Allowed (s : State) (lowMemory : Bool) (a : ℕ) : Prop :=
  a < s.allocatorCount ∧ (lowMemory = true → a ≤ lowMemoryWrap)

/-- A call that the code accepts, in a state with any buckets: where a bit is set, there is a free
block of this order at the head. The number of allocators is 32 bits wide, and the position of the
load balancer is one of them. -/
structure Accepted (s : State) (count : ℕ) : Prop where
  initialized : s.isPartiallyInitialized = true
  count_ne : count ≠ 0
  order_lt : order count < bucketCount
  allocators : s.allocatorCount < 2 ^ 32
  position : s.loadBalancerIndex < s.allocatorCount
  buckets : ∀ a i, i < bucketCount → s.bucketBitmap (a, i) = true →
    ∃ p, s.head (a, i) = some p ∧ s.idx p = i

/-- The call ends, with a block if an allowed allocator has one, and out of memory otherwise. -/
def Ends (s : State) (count : ℕ) (lowMemory : Bool) : Prop :=
  ∃ f r, pmmAlloc f s count lowMemory = some r ∧
    ((∃ a, Allowed s lowMemory a ∧ HasBlock s (order count) a) →
      ∃ s' page, r = .ok (s', some page) ∧ order count ≤ s.idx page ∧ s.idx page < bucketCount) ∧
    ((¬ ∃ a, Allowed s lowMemory a ∧ HasBlock s (order count) a) → r = .error .outOfMemory)

variable {s s' : State} {a i k m f count base index : ℕ} {lowMemory : Bool}

/-! ### The first loop -/

lemma advance_index (h : s.loadBalancerIndex < s.allocatorCount) :
    (advance s).loadBalancerIndex = (s.loadBalancerIndex + 1) % s.allocatorCount := by
  rw [advance]
  show (if _ then _ else _) = _
  split_ifs with hend
  · have heq : s.loadBalancerIndex + 1 = s.allocatorCount := by omega
    rw [heq, Nat.sub_self, Nat.mod_self]
  · rw [Nat.mod_eq_of_lt (by omega)]

/-- **Without a block the loop does not end**, by induction on its rounds. -/
lemma nextAllocator_none (h : s.loadBalancerIndex < s.allocatorCount)
    (hnone : ∀ a < s.allocatorCount, ¬ HasBlock s i a) (f : ℕ) : nextAllocator f s i = none := by
  induction f generalizing s with
  | zero => rfl
  | succ f ih =>
    have hkeep : ¬ (lowestBit (advance s) s.loadBalancerIndex i).isSome = true :=
      hnone s.loadBalancerIndex h
    rw [nextAllocator, if_neg hkeep]
    refine ih ?_ hnone
    rw [advance_index h]
    exact Nat.mod_lt _ (by omega)

/-- **With a block the loop ends**, by induction on the distance to it. -/
lemma nextAllocator_some (h : s.loadBalancerIndex < s.allocatorCount)
    (ha : (s.loadBalancerIndex + k) % s.allocatorCount = a) (hblock : HasBlock s i a) (hf : k < f) :
    ∃ j index, nextAllocator f s i = some ({ s with loadBalancerIndex := j }, index) ∧
      index < s.allocatorCount := by
  induction k generalizing s f with
  | zero =>
    obtain ⟨f, rfl⟩ := Nat.exists_eq_add_one_of_ne_zero (by omega : f ≠ 0)
    rw [Nat.add_zero, Nat.mod_eq_of_lt h] at ha
    subst ha
    have hhere : (lowestBit (advance s) s.loadBalancerIndex i).isSome = true := hblock
    rw [nextAllocator, if_pos hhere]
    exact ⟨_, _, rfl, h⟩
  | succ k ih =>
    obtain ⟨f, rfl⟩ := Nat.exists_eq_add_one_of_ne_zero (by omega : f ≠ 0)
    rw [nextAllocator]
    by_cases hhere : (lowestBit (advance s) s.loadBalancerIndex i).isSome = true
    · rw [if_pos hhere]
      exact ⟨_, _, rfl, h⟩
    · rw [if_neg hhere]
      have hnext : (advance s).loadBalancerIndex < (advance s).allocatorCount := by
        rw [advance_index h]
        exact Nat.mod_lt _ (by omega)
      obtain ⟨j, index, hrun, hindex⟩ := ih hnext (by
        show ((advance s).loadBalancerIndex + k) % s.allocatorCount = a
        rw [advance_index h, Nat.mod_add_mod, Nat.add_assoc, Nat.add_comm 1]
        exact ha) hblock (by omega : k < f)
      exact ⟨j, index, hrun, hindex⟩

/-! ### The second loop -/

/-- The next allocator to try. -/
def retryIndex (s : State) (wrap index : ℕ) : ℕ :=
  if (index + 1) &&& wrap = s.allocatorCount then 0 else (index + 1) &&& wrap

/-- **The loop goes around a ring of `m` allocators**, by induction on those that are left. -/
lemma retryAllocator_ring {wrap : ℕ} (hring : ∀ x < m, retryIndex s wrap x = (x + 1) % m)
    (hbase : base < m) (hk : k < m) (hf : m ≤ f + k)
    (hseen : ∀ j < k, ¬ HasBlock s i ((base + j) % m)) :
    ((∃ a < m, HasBlock s i a) → ∃ a < m, HasBlock s i a ∧
      retryAllocator s i wrap base f ((base + k) % m) = some (some a)) ∧
    ((¬ ∃ a < m, HasBlock s i a) →
      retryAllocator s i wrap base f ((base + k) % m) = some none) := by
  induction f generalizing k with
  | zero => omega
  | succ f ih =>
    have hlt : (base + k) % m < m := Nat.mod_lt _ (by omega)
    rw [retryAllocator]
    by_cases hhere : (lowestBit s ((base + k) % m) i).isSome = true
    · rw [if_pos hhere]
      exact ⟨fun _ => ⟨_, hlt, hhere, rfl⟩, fun hno => absurd ⟨_, hlt, hhere⟩ hno⟩
    · rw [if_neg hhere]
      have hnext : retryIndex s wrap ((base + k) % m) = (base + (k + 1)) % m := by
        rw [hring _ hlt, Nat.mod_add_mod, Nat.add_assoc]
      have hseen' : ∀ j < k + 1, ¬ HasBlock s i ((base + j) % m) := by
        intro j hj
        rcases Nat.lt_succ_iff_lt_or_eq.mp hj with hj | rfl
        · exact hseen j hj
        · exact hhere
      change ((∃ a < m, HasBlock s i a) → ∃ a < m, HasBlock s i a ∧
          (if retryIndex s wrap ((base + k) % m) ≠ base then
            retryAllocator s i wrap base f (retryIndex s wrap ((base + k) % m)) else some none) =
            some (some a)) ∧
        ((¬ ∃ a < m, HasBlock s i a) →
          (if retryIndex s wrap ((base + k) % m) ≠ base then
            retryAllocator s i wrap base f (retryIndex s wrap ((base + k) % m)) else some none) =
            some none)
      rw [hnext]
      by_cases hlast : k + 1 = m
      · -- back at the start, with all of them seen
        have hback : (base + (k + 1)) % m = base := by
          rw [hlast, Nat.add_mod_right, Nat.mod_eq_of_lt hbase]
        have hnone : ¬ ∃ a < m, HasBlock s i a := by
          rintro ⟨a, ha, hblock⟩
          have hreach : (base + (a + m - base) % m) % m = a := by
            rw [Nat.add_mod_mod, Nat.add_sub_cancel' (by omega), Nat.add_mod_right,
              Nat.mod_eq_of_lt ha]
          refine hseen' ((a + m - base) % m) ?_ (by rw [hreach]; exact hblock)
          rw [hlast]
          exact Nat.mod_lt _ (by omega)
        rw [if_neg (not_not_intro hback)]
        exact ⟨fun hsome => absurd hsome hnone, fun _ => rfl⟩
      · have hne : (base + (k + 1)) % m ≠ base := by
          intro heq
          have hmod : (base + (k + 1)) % m = (base + 0) % m := by
            rw [heq, Nat.add_zero, Nat.mod_eq_of_lt hbase]
          have hzero := Nat.ModEq.add_left_cancel' base hmod
          rw [Nat.ModEq, Nat.mod_eq_of_lt (by omega), Nat.zero_mod] at hzero
          omega
        rw [if_pos hne]
        exact ih (by omega) (by omega) hseen'

/-! ### The call -/

/-- How many allocators are allowed. -/
def ringSize (s : State) (lowMemory : Bool) : ℕ :=
  if lowMemory then min (lowMemoryWrap + 1) s.allocatorCount else s.allocatorCount

lemma allowed_iff : Allowed s lowMemory a ↔ a < ringSize s lowMemory := by
  rw [Allowed, ringSize]
  cases lowMemory <;> simp [lowMemoryWrap]
  omega

lemma retryIndex_ring (hcount : s.allocatorCount < 2 ^ 32) (ha : a < ringSize s lowMemory) :
    retryIndex s (wrapOf lowMemory) a = (a + 1) % ringSize s lowMemory := by
  rw [ringSize] at ha ⊢
  cases lowMemory with
  | true =>
    simp only [if_true] at ha ⊢
    have hand : (a + 1) &&& wrapOf true = (a + 1) % 4 := Nat.and_two_pow_sub_one_eq_mod _ 2
    have hwrap : lowMemoryWrap = 3 := rfl
    rw [retryIndex, hand]
    rcases Nat.lt_or_ge s.allocatorCount 4 with hfew | hmany
    · have hmin : min (lowMemoryWrap + 1) s.allocatorCount = s.allocatorCount := by omega
      rw [hmin] at ha ⊢
      rw [Nat.mod_eq_of_lt (by omega : a + 1 < 4)]
      split_ifs with hend
      · rw [hend, Nat.mod_self]
      · rw [Nat.mod_eq_of_lt (by omega)]
    · have hmin : min (lowMemoryWrap + 1) s.allocatorCount = 4 := by omega
      rw [hmin] at ha ⊢
      have hmod := Nat.mod_lt (a + 1) (by norm_num : 0 < 4)
      rw [if_neg (by omega)]
  | false =>
    simp only [Bool.false_eq_true, if_false] at ha ⊢
    have hand : (a + 1) &&& wrapOf false = a + 1 := by
      have hmod : (a + 1) &&& wrapOf false = (a + 1) % 2 ^ 32 :=
        Nat.and_two_pow_sub_one_eq_mod _ 32
      rw [hmod, Nat.mod_eq_of_lt (by omega)]
    rw [retryIndex, hand]
    split_ifs with hend
    · rw [hend, Nat.mod_self]
    · rw [Nat.mod_eq_of_lt (by omega)]

lemma and_wrap_lt (hindex : index < s.allocatorCount) :
    index &&& wrapOf lowMemory < ringSize s lowMemory := by
  have hle : index &&& wrapOf lowMemory ≤ index := Nat.and_le_left
  rw [ringSize]
  cases lowMemory with
  | true =>
    have hle' : index &&& wrapOf true ≤ wrapOf true := Nat.and_le_right
    have hwrap : wrapOf true = lowMemoryWrap := rfl
    simp only [if_true]
    omega
  | false =>
    simp only [Bool.false_eq_true, if_false]
    omega

lemma takeBlock_ok (hbuckets : ∀ a i, i < bucketCount → s.bucketBitmap (a, i) = true →
    ∃ p, s.head (a, i) = some p ∧ s.idx p = i) (hi : i < bucketCount) (h : HasBlock s i a) :
    ∃ s' p, takeBlock s a i = .ok (s', p) ∧ i ≤ s.idx p ∧ s.idx p < bucketCount := by
  obtain ⟨j, hlow⟩ := Option.isSome_iff_exists.mp h
  obtain ⟨hbit, hij, hj, -⟩ := lowestBit_some hlow hi
  obtain ⟨p, hhead, hidx⟩ := hbuckets a j hj hbit
  have htake : takeBlock s a i = .ok (splitLoop a p i (j - i)
      (blockDescriptorSetPrevIdx (popBlock s a j p) (p + 2 ^ i) i), p) := by
    rw [takeBlock, hlow]
    simp only [hhead]
    rw [if_neg (fun hc => hc hidx)]
  exact ⟨_, p, htake, by omega, by omega⟩

/-- For an accepted request, the search for an allocator and then for one it may use. -/
lemma pmmAlloc_accepted (h : Accepted s count) (f : ℕ) (lowMemory : Bool) :
    pmmAlloc f s count lowMemory =
      (nextAllocator f s (order count)).bind fun r =>
        (retryAllocator r.1 (order count) (wrapOf lowMemory) (r.2 &&& wrapOf lowMemory) f
          (r.2 &&& wrapOf lowMemory)).map fun
            | none => .error .outOfMemory
            | some allocator =>
              (takeBlock r.1 allocator (order count)).map fun r => (r.1, some r.2) := by
  have horder : ¬ order count ≥ bucketCount := Nat.not_le.mpr h.order_lt
  rw [pmmAlloc, if_neg (by rw [h.initialized]; simp), if_neg h.count_ne]
  exact if_neg horder

/-- **The first loop decides** whether the call ends: it does exactly if some allocator has a block,
whether it is allowed or not. -/
theorem pmmAlloc_ends_iff (h : Accepted s count) (lowMemory : Bool) :
    Ends s count lowMemory ↔ ∃ a < s.allocatorCount, HasBlock s (order count) a := by
  have hrun := fun f => pmmAlloc_accepted h f lowMemory
  constructor
  · rintro ⟨f, r, hf, -⟩
    by_contra hnone
    rw [hrun, nextAllocator_none h.position (fun a ha hblock => hnone ⟨a, ha, hblock⟩)] at hf
    cases hf
  · rintro ⟨a, ha, hblock⟩
    have hpos : 0 < s.allocatorCount := by omega
    -- the distance from the position of the load balancer
    have hreach : (s.loadBalancerIndex + (a + s.allocatorCount - s.loadBalancerIndex) %
        s.allocatorCount) % s.allocatorCount = a := by
      have hposition := h.position
      rw [Nat.add_mod_mod, Nat.add_sub_cancel' (by omega), Nat.add_mod_right, Nat.mod_eq_of_lt ha]
    obtain ⟨j, index, hnext, hindex⟩ := nextAllocator_some h.position hreach hblock
      (Nat.mod_lt _ hpos)
    set s₁ : State := { s with loadBalancerIndex := j }
    have hbase : index &&& wrapOf lowMemory < ringSize s₁ lowMemory :=
      and_wrap_lt (s := s₁) hindex
    have hsize : ringSize s₁ lowMemory ≤ s.allocatorCount + 0 := by
      show ringSize s lowMemory ≤ _
      rw [ringSize]
      split_ifs <;> omega
    obtain ⟨hfound, hnot⟩ := retryAllocator_ring (s := s₁) (i := order count) (k := 0)
      (fun x hx => retryIndex_ring (s := s₁) h.allocators hx) hbase (by omega) hsize (by simp)
    rw [Nat.add_zero, Nat.mod_eq_of_lt hbase] at hfound hnot
    have hallowed : (∃ a, Allowed s lowMemory a ∧ HasBlock s (order count) a) ↔
        ∃ a < ringSize s₁ lowMemory, HasBlock s₁ (order count) a :=
      exists_congr fun a => and_congr_left fun _ => allowed_iff
    by_cases hany : ∃ a < ringSize s₁ lowMemory, HasBlock s₁ (order count) a
    · obtain ⟨b, -, hb, hretry⟩ := hfound hany
      obtain ⟨s', p, htake, hle, hlt⟩ := takeBlock_ok (s := s₁) h.buckets h.order_lt hb
      refine ⟨s.allocatorCount, .ok (s', some p), ?_, fun _ => ⟨s', p, rfl, hle, hlt⟩,
        fun hno => absurd (hallowed.mpr hany) hno⟩
      rw [hrun, hnext, Option.bind_some, hretry, Option.map_some]
      show some ((takeBlock s₁ b (order count)).map _) = _
      rw [htake]
      rfl
    · refine ⟨s.allocatorCount, .error .outOfMemory, ?_, fun hsome =>
        absurd (hallowed.mp hsome) hany,
        fun _ => rfl⟩
      rw [hrun, hnext, Option.bind_some, hnot hany, Option.map_some]

lemma Reaches.buckets {Ok : Set ℕ → ℕ → ℕ → Prop} {live : DyadicTiling.Blocks} {R : Set ℕ}
    (h : Reaches Ok s live R) (hi : i < bucketCount) (hbit : s.bucketBitmap (a, i) = true) :
    ∃ p, s.head (a, i) = some p ∧ s.idx p = i := by
  have hinv := h.inv
  obtain ⟨p, hp⟩ := Option.ne_none_iff_exists'.mp ((hinv.bits (a, i) hi).mp hbit)
  exact ⟨p, hp, idx_of_bucket (hinv.head_mem (b := (a, i)) hi hp)⟩

lemma threePages_accepted (count : ℕ) (hne : count ≠ 0) (hlt : order count < bucketCount) :
    Accepted threePages count where
  initialized := rfl
  count_ne := hne
  order_lt := hlt
  allocators := by decide
  position := by decide
  buckets _ _ hi hbit := by
    have hreach : Reaches (fun _ _ _ => True) threePages _ _ := threePages_reaches trivial
    exact hreach.buckets hi hbit

/-- Two pages of the three. -/
theorem pmmAlloc_ends_threePages : Ends threePages 2 true :=
  (pmmAlloc_ends_iff (threePages_accepted 2 (by decide) (by decide)) true).mpr
    ⟨0, by decide, by decide⟩

/-- Four pages are more than there are, and the call does not panic: it does not end. -/
theorem pmmAlloc_not_ends_threePages :
    Accepted threePages 4 ∧ ¬ Ends threePages 4 false := by
  refine ⟨threePages_accepted 4 (by decide) (by decide), ?_⟩
  rintro ⟨f, r, hf, -⟩
  have hnone : ∀ a < threePages.allocatorCount, ¬ HasBlock threePages (order 4) a := by
    intro a ha
    obtain rfl : a = 0 := by
      change a < 1 at ha
      omega
    decide
  have hnext : nextAllocator f threePages (order 4) = none :=
    nextAllocator_none (by decide) hnone f
  change (nextAllocator f threePages (order 4)).bind _ = some r at hf
  rw [hnext] at hf
  cases hf

end KernelModel.Pmm
