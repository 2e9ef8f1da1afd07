import KernelModel.PmmBlocks

/-!
Runs of the page allocator.

Ranges of memory are registered, and pages are allocated and deallocated again. Every state keeps
its blocks in order, and as long as ranges do not touch inside of a largest block, no two free
buddies are left.
-/

namespace KernelModel.Pmm

open DoublyLinked DyadicTiling

variable {s s' : State} {live : Blocks} {R : Set ℕ} {hand : Option ℕ} {a i j n p q out x : ℕ}

/-! ### Free buddies -/

lemma FreeApart.used (h : FreeApart s)
    (hidx : ∀ u, s'.idx u = if u = x then indexUsed else s.idx u) : FreeApart s' := by
  intro p i hi hp
  have hiu : i ≠ indexUsed := by
    rw [bucketCount_eq] at hi
    rw [indexUsed_eq]
    omega
  have hpx : p ≠ x := fun hc => by
    rw [hidx, if_pos hc] at hp
    exact hiu hp.symm
  rw [hidx, if_neg hpx] at hp
  rw [hidx]
  split_ifs
  · exact hiu.symm
  · exact h p i hi hp

lemma FreeApart.free (h : FreeApart s) (hidx : ∀ u, s'.idx u = if u = x then i else s.idx u)
    (hdvd : 2 ^ i ∣ x) (hbuddy : i < bucketCount - 1 → s.idx (x ^^^ 2 ^ i) ≠ i) :
    FreeApart s' := by
  intro p k hk hp
  by_cases hpx : p = x
  · rw [hidx, if_pos hpx] at hp
    subst hp
    subst hpx
    rw [hidx, if_neg (buddy_ne hdvd)]
    exact hbuddy hk
  · rw [hidx, if_neg hpx] at hp
    rw [hidx]
    split_ifs with hq
    · rintro rfl
      refine hbuddy hk ?_
      rw [← hq, Nat.xor_xor_cancel_right]
      exact hp
    · exact h p k hk hp

/-! ### Splitting -/

lemma Inv.finish (h : Inv (some out) s live R) (hout : live out = some i)
    (htag : s.prevIdx (out + 2 ^ i) = i) : Inv none s live R :=
  { h with
    tags := fun p k _ hk => by
      by_cases hp : p = out
      · rw [hp, orders_live h hout] at hk
        obtain rfl := Option.some.inj hk
        rw [hp, htag]
      · exact h.tags p k (fun hc => hp (Option.some.inj hc).symm) hk }

/-- **The loop** splits the block in hand down to the order that is asked for, by induction on
how often. -/
lemma Inv.splitLoop (h : Inv (some out) s live R) (hout : live out = some (i + n))
    (hn : i + n < bucketCount) (ha : a = getAllocatorFromAddress out)
    (hempty : ∀ j, i ≤ j → j < i + n → s.head (a, j) = none)
    (htag : s.prevIdx (out + 2 ^ i) = i) :
    Inv none (Pmm.splitLoop a out i n s) (Function.update live out (some i)) R ∧
      (FreeApart s → FreeApart (Pmm.splitLoop a out i n s)) := by
  induction n generalizing s live with
  | zero =>
    have hsame : Function.update live out (some i) = live := by
      rw [← Nat.add_zero i, ← hout, Function.update_eq_self]
    rw [hsame]
    exact ⟨h.finish hout htag, id⟩
  | succ n ih =>
    have hpos := Nat.two_pow_pos i
    have hpow : 2 ^ i ≤ 2 ^ (i + n) := Nat.pow_le_pow_right (by norm_num) (Nat.le_add_right i n)
    have hout' : live out = some (i + n + 1) := hout
    have hdvd : 2 ^ (i + n + 1) ∣ out := h.tiles.aligned out _ (orders_live h hout')
    have hhalf : 2 ^ (i + n) ∣ out := (pow_dvd_pow 2 (Nat.le_succ _)).trans hdvd
    have hnext := h.split hout' hn ha (hempty (i + n) (Nat.le_add_right i n) (by omega))
    have hused : s.idx out = indexUsed := h.live_used out _ hout
    have hidx : ∀ u, (splitBlock s a out (i + n)).idx u =
        if u = out + 2 ^ (i + n) then i + n else s.idx u := fun u => Function.update_apply ..
    obtain ⟨hinv, hapart⟩ := ih hnext (Function.update_self ..) (by omega) (fun j hij hjn => by
        show Function.update s.head (a, i + n) _ (a, j) = none
        rw [Function.update_of_ne (fun hc => by
          have := congrArg Prod.snd hc
          simp only at this
          omega)]
        exact hempty j hij (by omega)) (by
      show Function.update s.prevIdx _ (i + n) (out + 2 ^ i) = i
      rw [Function.update_of_ne (by omega)]
      exact htag)
    rw [Function.update_idem] at hinv
    refine ⟨hinv, fun hf => hapart (hf.free hidx ?_ fun _ => ?_)⟩
    · exact Nat.dvd_add hhalf dvd_rfl
    · -- the buddy of the second half is the first half
      have hfirst : (out + 2 ^ (i + n)) ^^^ 2 ^ (i + n) = out := by
        rcases buddy_cases hhalf with ⟨-, hright, -⟩ | ⟨-, hle, -, hdvd'⟩
        · rw [← hright, Nat.xor_xor_cancel_right]
        · have hdiff := Nat.dvd_sub hdvd hdvd'
          rw [Nat.sub_sub_self hle, Nat.pow_dvd_pow_iff_le_right (by norm_num)] at hdiff
          omega
      rw [hfirst, hused]
      rw [bucketCount_eq] at hn
      rw [indexUsed_eq]
      omega

/-! ### Allocation -/

lemma lowestBit_some (h : lowestBit s a i = some j) (hi : i < bucketCount) :
    s.bucketBitmap (a, j) = true ∧ i ≤ j ∧ j < bucketCount ∧
      ∀ k, i ≤ k → k < j → s.bucketBitmap (a, k) = false := by
  rw [lowestBit, List.find?_range'_eq_some] at h
  obtain ⟨hbit, hmem, hlower⟩ := h
  rw [List.mem_range'_1] at hmem
  exact ⟨hbit, hmem.1, by omega, fun k hik hkj => by simpa using hlower k hik hkj⟩

/-- **A block is taken** from the first bucket that has one, and split. -/
theorem takeBlock_spec (h : Inv none s live R) (hi : i < bucketCount)
    (ht : takeBlock s a i = .ok (s', out)) :
    live out = none ∧ Inv none s' (Function.update live out (some i)) R ∧
      (FreeApart s → FreeApart s') := by
  rw [takeBlock] at ht
  cases hlow : lowestBit s a i with
  | none =>
    rw [hlow] at ht
    cases ht
  | some j =>
    obtain ⟨hbit, hij, hj, hlower⟩ := lowestBit_some hlow hi
    rw [hlow] at ht
    cases hhead : s.head (a, j) with
    | none =>
      simp only [hhead] at ht
      cases ht
    | some out' =>
      simp only [hhead] at ht
      have hbucket := h.head_mem (b := (a, j)) hj hhead
      have hidx : s.idx out' = j := idx_of_bucket hbucket
      rw [if_neg (fun hc => hc hidx)] at ht
      obtain ⟨rfl, rfl⟩ := Prod.mk.inj (Except.ok.inj ht)
      have hlive : live out' = none := by
        by_contra hsome
        obtain ⟨k, hk⟩ := Option.ne_none_iff_exists'.mp hsome
        have hused := h.live_used out' k hk
        rw [hidx, indexUsed_eq] at hused
        rw [bucketCount_eq] at hj
        omega
      have hpop := h.pop hj hhead
      have hhand : Function.update live out' (some j) out' = some j := Function.update_self ..
      have hset := hpop.setPrevIdx hhand hij
      have hempty : ∀ k, i ≤ k → k < i + (j - i) → s.head (a, k) = none := by
        intro k hik hkj
        by_contra hne
        have hset := (h.bits (a, k) (by show k < bucketCount; omega)).mpr hne
        rw [hlower k hik (by omega)] at hset
        cases hset
      have hsum : i + (j - i) = j := by omega
      obtain ⟨hinv, hapart⟩ := hset.splitLoop (n := j - i) (by rw [hsum]; exact hhand)
        (by omega) (allocator_of_bucket hbucket).symm (fun k hik hkj => by
          show (popBlock s a j out').head (a, k) = none
          rw [popBlock_fields]
          show Function.update s.head (a, j) (s.next out') (a, k) = none
          have hne : (a, k) ≠ (a, j) := fun hc => by
            have := congrArg Prod.snd hc
            simp only at this
            omega
          rw [Function.update_of_ne hne]
          exact hempty k hik hkj) (Function.update_self ..)
      rw [Function.update_idem] at hinv
      refine ⟨hlive, hinv, fun hf => hapart ?_⟩
      refine hf.used (x := out') fun u => ?_
      show (popBlock s a j out').idx u = _
      rw [popBlock_fields]
      exact Function.update_apply ..

lemma nextAllocator_state {f : ℕ} (h : nextAllocator f s i = some (s', a)) :
    ∃ k, s' = { s with loadBalancerIndex := k } := by
  induction f generalizing s with
  | zero => cases h
  | succ f ih =>
    rw [nextAllocator] at h
    split_ifs at h
    · obtain ⟨rfl, -⟩ := Prod.mk.inj (Option.some.inj h)
      exact ⟨_, rfl⟩
    · obtain ⟨k, rfl⟩ := ih h
      exact ⟨k, rfl⟩

lemma Inv.index (h : Inv hand s live R) (k : ℕ) :
    Inv hand { s with loadBalancerIndex := k } live R :=
  ⟨h.tiles, h.live_used, h.tags, h.lists, h.bits⟩

/-- **`pmm_alloc`** makes a block live that was not. -/
theorem pmmAlloc_spec {f count : ℕ} {lowMemory : Bool} (h : Inv none s live R)
    (hrun : pmmAlloc f s count lowMemory = some (.ok (s', some out))) :
    order count < bucketCount ∧ live out = none ∧
      Inv none s' (Function.update live out (some (order count))) R ∧
      (FreeApart s → FreeApart s') := by
  rw [pmmAlloc] at hrun
  dsimp only at hrun
  split_ifs at hrun with hinit hzero hmany
  · cases hrun
  · cases hrun
  · cases hrun
  · obtain ⟨⟨s₁, index⟩, hnext, hrun⟩ := Option.bind_eq_some_iff.mp hrun
    obtain ⟨found, -, hrun⟩ := Option.map_eq_some_iff.mp hrun
    obtain ⟨k, rfl⟩ := nextAllocator_state hnext
    cases found with
    | none => cases hrun
    | some a =>
      simp only at hrun
      cases htake : takeBlock { s with loadBalancerIndex := k } a (order count) with
      | error e =>
        rw [htake] at hrun
        cases hrun
      | ok r =>
        rw [htake] at hrun
        obtain ⟨rfl, hout⟩ := Prod.mk.inj (Except.ok.inj hrun)
        obtain rfl := Option.some.inj hout
        obtain ⟨hlive, hinv, hapart⟩ := takeBlock_spec (h.index k) (by omega) htake
        exact ⟨by omega, hlive, hinv, fun hf => hapart hf⟩

/-! ### Deallocation -/

/-- What is left of the block in hand when the loop ends. -/
structure Merged (a : ℕ) (live : Blocks) (R : Set ℕ) (p : ℕ) (r : State × ℕ × ℕ) : Prop where
  inv : ∃ live', Inv (some r.2.1) r.1 live' R ∧ live' r.2.1 = some r.2.2 ∧
    Function.update live' r.2.1 none = Function.update live p none
  order_lt : r.2.2 < bucketCount
  allocator : a = getAllocatorFromAddress r.2.1
  stops : r.2.2 < bucketCount - 1 → r.1.idx (r.2.1 ^^^ 2 ^ r.2.2) ≠ r.2.2

lemma mergeStops_iff (h : Inv (some p) s live R) (hp : live p = some i) (hi : i < bucketCount) :
    mergeStops s p i = true ↔ s.idx (p ^^^ 2 ^ i) ≠ i := by
  have hdvd := h.tiles.aligned p i (orders_live h hp)
  rw [mergeStops, Bool.or_eq_true, Bool.and_eq_true, decide_eq_true_iff, decide_eq_true_iff]
  refine ⟨?_, .inr⟩
  rintro (⟨hbit, htag⟩ | hbuddy)
  · intro hfree
    rcases buddy_cases hdvd with ⟨hclear, -, -⟩ | ⟨-, hle, hleft, -⟩
    · rw [hbit] at hclear
      cases hclear
    · have hnoted := h.tags (p ^^^ 2 ^ i) i (fun hc => buddy_ne hdvd (Option.some.inj hc).symm)
        (orders_free hfree hi)
      rw [hleft, Nat.sub_add_cancel hle] at hnoted
      exact htag hnoted
  · exact hbuddy

/-- **The loop merges** as long as the buddy is free, by induction on the orders that are left. -/
lemma mergeLoop_spec (h : Inv (some p) s live R) (hp : live p = some i)
    (hn : i + n = bucketCount - 1) (ha : a = getAllocatorFromAddress p) :
    Merged a live R p (mergeLoop a n s p i) ∧
      (FreeApart s → FreeApart (mergeLoop a n s p i).1) := by
  induction n generalizing s live p i with
  | zero =>
    have hi : i = 15 := by
      rw [bucketCount_eq] at hn
      omega
    refine ⟨⟨⟨live, h, hp, rfl⟩, ?_, ha, fun hlt => ?_⟩, id⟩
    · show i < bucketCount
      rw [bucketCount_eq]
      omega
    · change i < bucketCount - 1 at hlt
      omega
  | succ n ih =>
    have hi : i + 1 < bucketCount := by
      rw [bucketCount_eq] at hn ⊢
      omega
    have hdvd := h.tiles.aligned p i (orders_live h hp)
    rw [mergeLoop]
    by_cases hstop : mergeStops s p i = true
    · rw [if_pos hstop]
      refine ⟨⟨⟨live, h, hp, rfl⟩, by show i < bucketCount; omega, ha, fun _ => ?_⟩, id⟩
      exact (mergeStops_iff h hp (by omega)).mp hstop
    · rw [if_neg hstop]
      have hbuddy : s.idx (p ^^^ 2 ^ i) = i := by
        by_contra hne
        exact hstop ((mergeStops_iff h hp (by omega)).mpr hne)
      have hmerge := h.merge hp hi ha hbuddy
      have hlow : getAllocatorFromAddress (clearBit p i) = a := by
        rw [ha, clearBit]
        rcases buddy_cases hdvd with ⟨hbit, -, -⟩ | ⟨hbit, hle, -, hdvd'⟩
        · rw [hbit]
          rfl
        · have hadd := allocator_add hdvd' (by omega)
          rw [Nat.sub_add_cancel hle] at hadd
          rw [hbit, hadd]
          rfl
      obtain ⟨hmerged, hapart⟩ := ih hmerge (Function.update_self ..) (by omega) hlow.symm
      have hsame : Function.update (Function.update (Function.update live p none) (clearBit p i)
          (some (i + 1))) (clearBit p i) none = Function.update live p none := by
        rw [Function.update_idem, Function.update_eq_self_iff]
        by_cases hpl : clearBit p i = p
        · rw [hpl, Function.update_self]
        · -- then it is the buddy, which was free
          have hq : clearBit p i = p ^^^ 2 ^ i := by
            rcases buddy_cases hdvd with ⟨hbit, -, -⟩ | ⟨hbit, -, hleft, -⟩
            · exact absurd (by rw [clearBit, hbit]; rfl) hpl
            · rw [clearBit, hbit, hleft]
              rfl
          rw [Function.update_of_ne hpl, hq]
          by_contra hsome
          obtain ⟨k, hk⟩ := Option.ne_none_iff_exists'.mp (Ne.symm hsome)
          have hused := h.live_used _ k hk
          rw [hbuddy, indexUsed_eq] at hused
          rw [bucketCount_eq] at hi
          omega
      refine ⟨{ hmerged with inv := ?_ }, fun hf => hapart (hf.used (x := p ^^^ 2 ^ i) fun u => ?_)⟩
      · obtain ⟨live', hinv, hr, hlive'⟩ := hmerged.inv
        exact ⟨live', hinv, hr, hlive'.trans hsame⟩
      · rw [unlinkBuddy_fields]
        exact Function.update_apply ..

/-- **`pmm_dealloc`** of a live block. -/
theorem pmmDealloc_spec {count : ℕ} (h : Inv none s live R) (hp : live p = some (order count))
    (hrun : pmmDealloc s p count = .ok s') :
    Inv none s' (Function.update live p none) R ∧ (FreeApart s → FreeApart s') := by
  rw [pmmDealloc] at hrun
  dsimp only at hrun
  split_ifs at hrun with hzero hmany
  obtain rfl := Except.ok.inj hrun
  have hstart : Inv (some p) s live R := { h with tags := fun q k _ hk => h.tags q k (by simp) hk }
  obtain ⟨hmerged, hapart⟩ := mergeLoop_spec (n := bucketCount - 1 - order count) hstart hp
    (by omega) rfl
  obtain ⟨live', hinv, hr, hlive'⟩ := hmerged.inv
  have hdvd := hinv.tiles.aligned _ _ (orders_live hinv hr)
  refine ⟨?_, fun hf => (hapart hf).free (fun u => ?_) hdvd hmerged.stops⟩
  · rw [← hlive']
    exact hinv.append hr hmerged.order_lt hmerged.allocator
  · rw [appendBlock_fields]
    exact Function.update_apply ..

/-! ### Registration -/

lemma ctz_zeros (n : ℕ) (hj : j < ctz n) : n.testBit j = false := by
  rw [ctz] at hj
  cases hfind : (List.range 64).find? n.testBit with
  | none =>
    rw [hfind] at hj
    simpa using (List.find?_range_eq_none.mp hfind) j hj
  | some k =>
    rw [hfind] at hj
    simpa using (List.find?_range_eq_some.mp hfind).2.2 j hj

lemma ctz_one (n : ℕ) (h : ctz n < 64) : n.testBit (ctz n) = true := by
  rw [ctz] at h ⊢
  cases hfind : (List.range 64).find? n.testBit with
  | none =>
    rw [hfind] at h
    exact absurd h (by simp)
  | some k => exact (List.find?_range_eq_some.mp hfind).1

lemma two_pow_dvd_of_testBit (h : ∀ j < i, n.testBit j = false) : 2 ^ i ∣ n := by
  refine Nat.dvd_of_mod_eq_zero (Nat.eq_of_testBit_eq fun j => ?_)
  rw [Nat.testBit_mod_two_pow, Nat.zero_testBit]
  by_cases hj : j < i
  · rw [h j hj, Bool.and_false]
  · simp [hj]

/-- The next block of a range fits, and there is a reason why it is not larger. -/
lemma rangeOrder_spec {page last : ℕ} (hlt : page < last) :
    rangeOrder page last < bucketCount ∧ 2 ^ rangeOrder page last ∣ page ∧
      page + 2 ^ rangeOrder page last ≤ last ∧
      (rangeOrder page last = bucketCount - 1 ∨ page.testBit (rangeOrder page last) = true ∨
        last - page < 2 ^ (rangeOrder page last + 1)) := by
  have hcount : bucketCount = 16 := rfl
  have hdvd : ∀ k ≤ ctz page, 2 ^ k ∣ page := fun k hk =>
    two_pow_dvd_of_testBit fun j hj => ctz_zeros page (by omega)
  rw [rangeOrder]
  split_ifs with hlong
  · have hne : last - page ≠ 0 := by omega
    have hle := Nat.log2_self_le hne
    have hnext := Nat.lt_log2_self (n := last - page)
    have hlog : Nat.log2 (last - page) < min (ctz page) (bucketCount - 1) :=
      (Nat.pow_lt_pow_iff_right (by norm_num)).mp (hle.trans_lt hlong)
    have hmin : min (Nat.log2 (last - page)) (bucketCount - 1) = Nat.log2 (last - page) := by omega
    rw [hmin]
    exact ⟨by omega, hdvd _ (by omega), by omega, .inr (.inr hnext)⟩
  · refine ⟨by omega, hdvd _ (by omega), by omega, ?_⟩
    by_cases hctz : ctz page < bucketCount - 1
    · rw [Nat.min_eq_left hctz.le]
      exact .inr (.inl (ctz_one page (by omega)))
    · exact .inl (by omega)

lemma Inv.add (h : Inv none s live R) (hdvd : 2 ^ i ∣ p) (hi : i < bucketCount)
    (hfresh : ∀ x, p ≤ x → x < p + 2 ^ i → x ∉ R) :
    live p = none ∧ s.idx p = indexUsed ∧
      Inv (some p) s (Function.update live p (some i)) {x | x ∈ R ∨ p ≤ x ∧ x < p + 2 ^ i} := by
  have hpos := Nat.two_pow_pos i
  have hnone : orders s live p = none := by
    by_contra hsome
    obtain ⟨k, hk⟩ := Option.ne_none_iff_exists'.mp hsome
    exact hfresh p le_rfl (by omega) ((h.tiles.cover p).mpr ⟨p, k, Holds.self hk⟩)
  have hused : s.idx p = indexUsed := by
    by_contra hne
    rw [orders, if_neg hne] at hnone
    cases hnone
  have hlive : live p = none := by
    rw [orders, if_pos hused] at hnone
    exact hnone
  have horders : orders s (Function.update live p (some i)) =
      Function.update (orders s live) p (some i) := by
    funext u
    by_cases hu : u = p
    · rw [hu, Function.update_self, orders, if_pos hused, Function.update_self]
    · rw [Function.update_of_ne hu]
      exact orders_congr rfl (Function.update_of_ne hu _ _)
  refine ⟨hlive, hused, ⟨?_, fun u k hu => ?_, fun u k hu hk => ?_, h.lists, h.bits⟩⟩
  · rw [horders]
    exact h.tiles.add hdvd (by omega) hfresh
  · by_cases hup : u = p
    · rw [hup, hused]
    · rw [Function.update_of_ne hup] at hu
      exact h.live_used u k hu
  · have hup : u ≠ p := fun hc => hu (by rw [hc])
    rw [horders, Function.update_of_ne hup] at hk
    exact h.tags u k (by simp) hk

lemma Inv.register (h : Inv none s live R) (hdvd : 2 ^ i ∣ p) (hi : i < bucketCount)
    (hfresh : ∀ x, p ≤ x → x < p + 2 ^ i → x ∉ R) :
    Inv none (appendBlock s (getAllocatorFromAddress p) p i) live
      {x | x ∈ R ∨ p ≤ x ∧ x < p + 2 ^ i} := by
  obtain ⟨hlive, -, hinv⟩ := h.add hdvd hi hfresh
  have hsame : Function.update (Function.update live p (some i)) p none = live := by
    rw [Function.update_idem, ← hlive, Function.update_eq_self]
  have happend := hinv.append (Function.update_self ..) hi rfl
  rwa [hsame] at happend

lemma Inv.congr {R' : Set ℕ} (h : Inv hand s live R) (hR : ∀ x, x ∈ R' ↔ x ∈ R) :
    Inv hand s live R' :=
  { h with tiles := h.tiles.congr hR }

lemma addBlocks_inv (h : Inv none s live R) {page last : ℕ} (hn : last - page ≤ n)
    (hfresh : ∀ x, page ≤ x → x < last → x ∉ R) :
    Inv none (addBlocks n s page last) live {x | x ∈ R ∨ page ≤ x ∧ x < last} := by
  induction n generalizing s page R with
  | zero =>
    refine h.congr fun x => ?_
    simp only [Set.mem_ofPred_eq]
    exact or_iff_left fun hx => by omega
  | succ n ih =>
    rw [addBlocks]
    by_cases hlt : page < last
    · obtain ⟨hi, hdvd, hend, -⟩ := rangeOrder_spec hlt
      have hpos := Nat.two_pow_pos (rangeOrder page last)
      rw [if_pos hlt]
      have hnext := h.register hdvd hi fun x hle hx => hfresh x hle (by omega)
      refine (ih hnext (by omega) ?_).congr fun x => ?_
      · rintro x hle hx (hold | hin)
        · exact hfresh x (by omega) hx hold
        · omega
      · simp only [Set.mem_ofPred_eq]
        constructor
        · rintro (hold | ⟨hle, hx⟩)
          · exact .inl (.inl hold)
          · by_cases hin : x < page + 2 ^ rangeOrder page last
            · exact .inl (.inr ⟨hle, hin⟩)
            · exact .inr ⟨by omega, hx⟩
        · rintro ((hold | ⟨hle, hx⟩) | ⟨hle, hx⟩)
          · exact .inl hold
          · exact .inr ⟨hle, by omega⟩
          · exact .inr ⟨by omega, hx⟩
    · rw [if_neg hlt]
      refine h.congr fun x => ?_
      simp only [Set.mem_ofPred_eq]
      exact or_iff_left fun hx => by omega

end KernelModel.Pmm
