import KernelModel.Pmm

/-!
What the changes of the page allocator keep.

A block is free if the descriptor of its first page has its order, and live if it was handed out.
All blocks together tile the registered pages, each bucket is a list of the free blocks of its
order, and behind every block its order is noted. While blocks are split or merged, the block in
hand counts as a live one whose order is not noted yet.
-/

namespace KernelModel.Pmm

open DoublyLinked DyadicTiling

/-- The orders of all blocks, with those of the live ones given. -/
def orders (s : State) (live : Blocks) : Blocks := fun p =>
  if s.idx p = indexUsed then live p else some (s.idx p)

/-- The bucket of a free block. -/
def bucketOf (s : State) (p : ℕ) : ℕ × ℕ := (getAllocatorFromAddress p, s.idx p)

/-- A bucket is a list of its blocks. -/
def IsList (s : State) (b : ℕ × ℕ) : Prop :=
  ∃ l, Linked s.next s.prev (s.head b) (s.tail b) l ∧ l.Nodup ∧ ∀ p, p ∈ l ↔ bucketOf s p = b

/-- The state between two calls, or with the block `hand` in hand. -/
structure Inv (hand : Option ℕ) (s : State) (live : Blocks) (R : Set ℕ) : Prop where
  tiles : Tiles (bucketCount - 1) R (orders s live)
  live_used : ∀ p i, live p = some i → s.idx p = indexUsed
  tags : ∀ p i, hand ≠ some p → orders s live p = some i → s.prevIdx (p + 2 ^ i) = i
  lists : ∀ b, b.2 < bucketCount → IsList s b
  bits : ∀ b, b.2 < bucketCount → (s.bucketBitmap b = true ↔ s.head b ≠ none)

/-- No two free buddies could be merged. -/
def FreeApart (s : State) : Prop :=
  ∀ p i, i < bucketCount - 1 → s.idx p = i → s.idx (p ^^^ 2 ^ i) ≠ i

variable {s s' : State} {live : Blocks} {R : Set ℕ} {hand : Option ℕ} {b : ℕ × ℕ}
  {a i j k p q out : ℕ}

/-! ### Blocks -/

lemma bucketCount_eq : bucketCount = 16 := rfl

lemma indexUsed_eq : indexUsed = 31 := rfl

lemma orders_live (h : Inv hand s live R) (hp : live p = some i) : orders s live p = some i := by
  rw [orders, if_pos (h.live_used p i hp), hp]

lemma orders_free (hp : s.idx p = i) (hi : i < bucketCount) : orders s live p = some i := by
  have hne : s.idx p ≠ indexUsed := by
    rw [bucketCount_eq] at hi
    rw [indexUsed_eq]
    omega
  rw [orders, if_neg hne, hp]

lemma orders_congr {live' : Blocks} (hidx : s'.idx p = s.idx p) (hlive : live' p = live p) :
    orders s' live' p = orders s live p := by
  rw [orders, orders, hidx, hlive]

lemma allocator_of_start {m : ℕ} (hi : i ≤ m) (hx : start i q = p) : q / 2 ^ m = p / 2 ^ m := by
  obtain ⟨d, rfl⟩ := Nat.exists_eq_add_of_le hi
  rw [← hx, start, Nat.pow_add, ← Nat.div_div_eq_div_mul, ← Nat.div_div_eq_div_mul,
    Nat.mul_div_cancel _ (Nat.two_pow_pos i)]

lemma allocator_add (hdvd : 2 ^ (i + 1) ∣ p) (hi : i < bucketCount) :
    getAllocatorFromAddress (p + 2 ^ i) = getAllocatorFromAddress p := by
  have hpos := Nat.two_pow_pos i
  have hdouble : 2 ^ (i + 1) = 2 ^ i + 2 ^ i := by ring
  have hstart : start (i + 1) (p + 2 ^ i) = p := (start_eq_iff hdvd).mpr ⟨by omega, by omega⟩
  exact allocator_of_start hi hstart

/-! ### Buckets -/

lemma lists_update (hl : ∀ b, b.2 < bucketCount → IsList s b) (b : ℕ × ℕ)
    (hown : b.2 < bucketCount → IsList s' b)
    (hends : ∀ b', b' ≠ b → s'.head b' = s.head b' ∧ s'.tail b' = s.tail b')
    (hsame : ∀ u, s.idx u < bucketCount → bucketOf s u ≠ b →
      s'.idx u = s.idx u ∧ s'.next u = s.next u ∧ s'.prev u = s.prev u)
    (hback : ∀ u, s'.idx u < bucketCount → bucketOf s' u ≠ b → s'.idx u = s.idx u) :
    ∀ b, b.2 < bucketCount → IsList s' b := by
  intro b' hb'
  by_cases hbb : b' = b
  · rw [hbb] at hb' ⊢
    exact hown hb'
  · obtain ⟨l, hlinked, hnodup, hmem⟩ := hl b' hb'
    obtain ⟨hhead, htail⟩ := hends b' hbb
    have hin : ∀ u ∈ l, s.idx u < bucketCount ∧ bucketOf s u ≠ b := by
      intro u hu
      have hu' := (hmem u).mp hu
      exact ⟨by rw [← hu'] at hb'; exact hb', by rw [hu']; exact hbb⟩
    refine ⟨l, ?_, hnodup, fun p => ?_⟩
    · rw [hhead, htail]
      exact hlinked.congr (fun u hu => (hsame u (hin u hu).1 (hin u hu).2).2.1)
        fun u hu => (hsame u (hin u hu).1 (hin u hu).2).2.2
    · constructor
      · intro hp
        have hkeep := (hsame p (hin p hp).1 (hin p hp).2).1
        rw [bucketOf, hkeep]
        exact (hmem p).mp hp
      · intro hp
        have hlt : s'.idx p < bucketCount := by
          rw [← hp] at hb'
          exact hb'
        have hkeep := hback p hlt (by rw [hp]; exact hbb)
        rw [bucketOf, hkeep] at hp
        exact (hmem p).mpr hp

lemma idx_of_bucket (h : bucketOf s p = (a, i)) : s.idx p = i := congrArg Prod.snd h

lemma allocator_of_bucket (h : bucketOf s p = (a, i)) : getAllocatorFromAddress p = a :=
  congrArg Prod.fst h

lemma Inv.head_mem (h : Inv hand s live R) (hb : b.2 < bucketCount) (hp : s.head b = some p) :
    bucketOf s p = b := by
  obtain ⟨l, hlinked, -, hmem⟩ := h.lists b hb
  rw [hlinked.head_eq] at hp
  exact (hmem p).mp (List.mem_of_head? hp)

/-! ### Taking the first block of a bucket -/

lemma popBlock_fields (s : State) (a j out : ℕ) : popBlock s a j out =
    { s with
      idx := Function.update s.idx out indexUsed
      prev := fun u => if s.next out = some u then none else s.prev u
      head := Function.update s.head (a, j) (s.next out)
      tail := fun b => if b = (a, j) ∧ s.next out = none then none else s.tail b
      bucketBitmap := fun b =>
        if b = (a, j) ∧ s.next out = none then false else s.bucketBitmap b } := by
  rw [popBlock]
  simp only [Function.update_self]
  cases hnext : s.next out with
  | none =>
    simp only [blockDescriptorDeinit, reduceCtorEq, if_false, and_true]
    congr 1 <;> funext b <;> rw [Function.update_apply]
  | some first =>
    simp only [blockDescriptorDeinit, blockDescriptorSetPrev, reduceCtorEq, and_false, if_false,
      Option.some.injEq]
    congr 1
    funext u
    rw [Function.update_apply]
    simp only [eq_comm]

/-- **The first block of a bucket is taken in hand.** -/
theorem Inv.pop (h : Inv none s live R) (hj : j < bucketCount) (hout : s.head (a, j) = some out) :
    Inv (some out) (popBlock s a j out) (Function.update live out (some j)) R := by
  have hbucket := h.head_mem (b := (a, j)) hj hout
  have hidx : s.idx out = j := idx_of_bucket hbucket
  have hne : s.idx out ≠ indexUsed := by
    rw [bucketCount_eq] at hj
    rw [hidx, indexUsed_eq]
    omega
  obtain ⟨l, hlinked, hnodup, hmem⟩ := h.lists (a, j) hj
  rw [popBlock_fields]
  set s' : State := { s with
      idx := Function.update s.idx out indexUsed
      prev := fun u => if s.next out = some u then none else s.prev u
      head := Function.update s.head (a, j) (s.next out)
      tail := fun b => if b = (a, j) ∧ s.next out = none then none else s.tail b
      bucketBitmap := fun b =>
        if b = (a, j) ∧ s.next out = none then false else s.bucketBitmap b } with hs'
  have horders : orders s' (Function.update live out (some j)) = orders s live := by
    funext p
    by_cases hp : p = out
    · subst hp
      show (if Function.update s.idx p indexUsed p = indexUsed then _ else _) = _
      rw [Function.update_self, if_pos rfl, Function.update_self, orders, if_neg hne, hidx]
    · exact orders_congr (Function.update_of_ne hp _ _) (Function.update_of_ne hp _ _)
  obtain ⟨B, rfl⟩ : ∃ B, l = out :: B := by
    cases l with
    | nil =>
      rw [hlinked.head_eq] at hout
      cases hout
    | cons u B =>
      rw [hlinked.head_eq] at hout
      exact ⟨B, by rw [Option.some.inj hout]⟩
  have hnextB : s.next out = B.head? := (Linked.at (A := []) hlinked).2
  have hnotin : out ∉ B := (List.nodup_cons.mp hnodup).1
  refine ⟨by rw [horders]; exact h.tiles, fun p i hp => ?_, fun p i _ hp => ?_, ?_, fun b hb => ?_⟩
  · show Function.update s.idx out indexUsed p = indexUsed
    by_cases hpo : p = out
    · rw [hpo, Function.update_self]
    · rw [Function.update_of_ne hpo] at hp ⊢
      exact h.live_used p i hp
  · rw [horders] at hp
    exact h.tags p i (by simp) hp
  · refine lists_update h.lists (a, j)
        (fun _ => ⟨B, ?_, (List.nodup_cons.mp hnodup).2, fun p => ?_⟩)
      (fun b' hb' => ⟨Function.update_of_ne hb' _ _, if_neg fun hc => hb' hc.1⟩)
      (fun u hu hub => ?_)
      fun u hu _ => ?_
    · have hhead : s'.head (a, j) = s.next out := Function.update_self ..
      have htail : s'.tail (a, j) = if s.next out = none then none else s.tail (a, j) := by
        show (if _ then _ else _) = _
        simp only [true_and]
      rw [hhead, htail]
      exact hlinked.popFront hnodup (fun u _ => rfl) fun u _ => rfl
    · show p ∈ B ↔ (getAllocatorFromAddress p, Function.update s.idx out indexUsed p) = (a, j)
      by_cases hpo : p = out
      · subst hpo
        rw [Function.update_self]
        refine iff_of_false hnotin fun heq => ?_
        exact hne (hidx.trans (congrArg Prod.snd heq).symm)
      · rw [Function.update_of_ne hpo]
        have hp := hmem p
        rw [List.mem_cons, or_iff_right hpo] at hp
        exact hp
    · have huo : u ≠ out := by
        rintro rfl
        exact hub hbucket
      refine ⟨Function.update_of_ne huo _ _, rfl, if_neg fun hnext => ?_⟩
      rw [hnextB] at hnext
      exact hub ((hmem u).mp (List.mem_cons_of_mem _ (List.mem_of_head? hnext)))
    · change Function.update s.idx out indexUsed u < bucketCount at hu
      show Function.update s.idx out indexUsed u = s.idx u
      by_cases huo : u = out
      · subst huo
        rw [Function.update_self] at hu
        exact absurd hu (by decide)
      · rw [Function.update_of_ne huo]
  · show (if _ then _ else _) = true ↔ Function.update s.head (a, j) (s.next out) b ≠ none
    by_cases hbj : b = (a, j)
    · subst hbj
      rw [Function.update_self]
      by_cases hnone : s.next out = none
      · simp [hnone]
      · rw [if_neg fun hc => hnone hc.2]
        refine iff_of_true ((h.bits (a, j) hj).mpr (by rw [hout]; simp)) hnone
    · rw [if_neg fun hc => hbj hc.1, Function.update_of_ne hbj]
      exact h.bits b hb

/-! ### Noting an order inside of the block in hand -/

/-- **The order of the front part of the block in hand** is noted behind it. -/
theorem Inv.setPrevIdx (h : Inv (some out) s live R) (hout : live out = some j) (hij : i ≤ j) :
    Inv (some out) (blockDescriptorSetPrevIdx s (out + 2 ^ i) i) live R := by
  have hpos := Nat.two_pow_pos i
  have hpow : 2 ^ i ≤ 2 ^ j := Nat.pow_le_pow_right (by norm_num) hij
  have hhand := orders_live h hout
  refine { h with tags := fun p k hp hk => ?_ }
  show Function.update s.prevIdx (out + 2 ^ i) i (p + 2 ^ k) = k
  have hpk := Nat.two_pow_pos k
  rw [Function.update_of_ne]
  · exact h.tags p k hp hk
  · -- no other block ends in there
    intro heq
    have hsame : p = out := h.tiles.unique p out k j (p + 2 ^ k - 1)
      ⟨hk, by omega, by omega⟩ ⟨hhand, by omega, by omega⟩
    exact hp (by rw [hsame])

/-! ### Splitting -/

/-- **The block in hand is split**, and its second half is free. -/
theorem Inv.split (h : Inv (some out) s live R) (hout : live out = some (j + 1))
    (hj : j + 1 < bucketCount) (ha : a = getAllocatorFromAddress out)
    (hempty : s.head (a, j) = none) :
    Inv (some out) (splitBlock s a out j) (Function.update live out (some j)) R := by
  have hpos := Nat.two_pow_pos j
  have hdouble : 2 ^ (j + 1) = 2 ^ j + 2 ^ j := by ring
  have hhand := orders_live h hout
  have hdvd : 2 ^ (j + 1) ∣ out := h.tiles.aligned out _ hhand
  have hne : out + 2 ^ j ≠ out := by omega
  have hused : s.idx out = indexUsed := h.live_used out _ hout
  have hju : j ≠ indexUsed := by
    rw [bucketCount_eq] at hj
    rw [indexUsed_eq]
    omega
  have hbucket : getAllocatorFromAddress (out + 2 ^ j) = a := by
    rw [ha]
    exact allocator_add hdvd (by omega)
  -- nothing starts in the middle of the block
  have hmiddle : orders s live (out + 2 ^ j) = none := by
    by_contra hsome
    obtain ⟨k, hk⟩ := Option.ne_none_iff_exists'.mp hsome
    exact hne (h.tiles.eq_of_mem hhand hk (by omega) (by omega)).symm
  have hmiddleUsed : s.idx (out + 2 ^ j) = indexUsed := by
    by_contra hfree
    rw [orders, if_neg hfree] at hmiddle
    cases hmiddle
  have hidx : ∀ u, (splitBlock s a out j).idx u = if u = out + 2 ^ j then j else s.idx u :=
    fun u => Function.update_apply ..
  have horders : orders (splitBlock s a out j) (Function.update live out (some j)) =
      Function.update (Function.update (orders s live) out (some j)) (out + 2 ^ j) (some j) := by
    funext u
    rw [Function.update_apply, Function.update_apply]
    by_cases hu : u = out + 2 ^ j
    · rw [if_pos hu, orders, hidx, if_pos hu, if_neg hju]
    · by_cases huo : u = out
      · rw [if_neg hu, if_pos huo, orders, hidx, if_neg hu, huo, if_pos hused,
          Function.update_self]
      · rw [if_neg hu, if_neg huo]
        exact orders_congr (by rw [hidx, if_neg hu]) (Function.update_of_ne huo _ _)
  refine ⟨by rw [horders]; exact h.tiles.split hhand, fun p k hp => ?_, fun p k hp hk => ?_,
    lists_update h.lists (a, j) (fun _ => ⟨[out + 2 ^ j], ?_, List.nodup_singleton _, fun p => ?_⟩)
      (fun b hb => ⟨Function.update_of_ne hb _ _, Function.update_of_ne hb _ _⟩)
      (fun u hu _ => ?_) fun u hu hub => ?_, fun b hb => ?_⟩
  · rw [hidx]
    by_cases hpo : p = out
    · rw [hpo, if_neg hne.symm, hused]
    · rw [Function.update_of_ne hpo] at hp
      have hpm : p ≠ out + 2 ^ j := by
        rintro rfl
        have hsome := orders_live h hp
        rw [hmiddle] at hsome
        cases hsome
      rw [if_neg hpm]
      exact h.live_used p k hp
  · have hpk := Nat.two_pow_pos k
    have hpo : p ≠ out := fun heq => hp (by rw [heq])
    show Function.update s.prevIdx (out + 2 ^ j + 2 ^ j) j (p + 2 ^ k) = k
    rw [horders, Function.update_apply, Function.update_apply, if_neg hpo] at hk
    by_cases hpm : p = out + 2 ^ j
    · rw [if_pos hpm] at hk
      obtain rfl := Option.some.inj hk
      rw [hpm, Function.update_self]
    · rw [if_neg hpm] at hk
      rw [Function.update_of_ne]
      · exact h.tags p k hp hk
      · intro heq
        exact hpo (h.tiles.unique p out k (j + 1) (p + 2 ^ k - 1) ⟨hk, by omega, by omega⟩
          ⟨hhand, by omega, by omega⟩)
  · have hhead : (splitBlock s a out j).head (a, j) = some (out + 2 ^ j) :=
      Function.update_self ..
    have htail : (splitBlock s a out j).tail (a, j) = some (out + 2 ^ j) :=
      Function.update_self ..
    have hprev : (splitBlock s a out j).prev (out + 2 ^ j) = none := Function.update_self ..
    have hnext : (splitBlock s a out j).next (out + 2 ^ j) = none := Function.update_self ..
    rw [hhead, htail]
    exact ⟨rfl, hprev, rfl, hnext⟩
  · obtain ⟨l, hlinked, -, hmem⟩ := h.lists (a, j) (by omega : j < bucketCount)
    have hnil : ∀ u, bucketOf s u ≠ (a, j) := by
      intro u hu
      have hul := (hmem u).mpr hu
      have hhead := hlinked.head_eq
      rw [hempty] at hhead
      cases l with
      | nil => cases hul
      | cons v l => cases hhead
    rw [List.mem_singleton, bucketOf, hidx]
    by_cases hpm : p = out + 2 ^ j
    · rw [if_pos hpm]
      exact iff_of_true hpm (by rw [hpm, hbucket])
    · rw [if_neg hpm]
      exact iff_of_false hpm (hnil p)
  · have hum : u ≠ out + 2 ^ j := by
      rintro rfl
      rw [hmiddleUsed] at hu
      exact absurd hu (by decide)
    exact ⟨by rw [hidx, if_neg hum], Function.update_of_ne hum _ _, Function.update_of_ne hum _ _⟩
  · rw [hidx] at hu ⊢
    by_cases hum : u = out + 2 ^ j
    · refine absurd ?_ hub
      rw [bucketOf, hidx, if_pos hum, hum, hbucket]
    · rw [if_neg hum]
  · show Function.update s.bucketBitmap (a, j) true b = true ↔
      Function.update s.head (a, j) (some (out + 2 ^ j)) b ≠ none
    by_cases hbj : b = (a, j)
    · rw [hbj, Function.update_self, Function.update_self]
      simp
    · rw [Function.update_of_ne hbj, Function.update_of_ne hbj]
      exact h.bits b hb

/-! ### Putting a block in -/

lemma appendBlock_fields (s : State) (a p i : ℕ) : appendBlock s a p i =
    { s with
      idx := Function.update s.idx p i
      prevIdx := Function.update s.prevIdx (p + 2 ^ i) i
      prev := Function.update s.prev p (s.tail (a, i))
      next := fun u => if s.tail (a, i) = some u then some p else if u = p then none else s.next u
      head := fun b => if b = (a, i) ∧ s.tail (a, i) = none then some p else s.head b
      tail := Function.update s.tail (a, i) (some p)
      bucketBitmap := Function.update s.bucketBitmap (a, i) true } := by
  rw [appendBlock]
  simp only [blockDescriptorInit, blockDescriptorSetPrevIdx]
  cases htail : s.tail (a, i) with
  | none =>
    simp only [reduceCtorEq, if_false, and_true]
    congr 1
    · funext u
      rw [Function.update_apply]
    · funext b
      rw [Function.update_apply]
  | some last =>
    simp only [blockDescriptorSetNext, reduceCtorEq, and_false, if_false, Option.some.injEq]
    congr 1
    funext u
    rw [Function.update_apply, Function.update_apply]
    simp only [eq_comm]

/-- **The block in hand becomes the last one of its bucket.** -/
theorem Inv.append (h : Inv (some p) s live R) (hp : live p = some i) (hi : i < bucketCount)
    (ha : a = getAllocatorFromAddress p) :
    Inv none (appendBlock s a p i) (Function.update live p none) R := by
  have hpos := Nat.two_pow_pos i
  have hhand := orders_live h hp
  have hused : s.idx p = indexUsed := h.live_used p i hp
  have hiu : i ≠ indexUsed := by
    rw [bucketCount_eq] at hi
    rw [indexUsed_eq]
    omega
  obtain ⟨l, hlinked, hnodup, hmem⟩ := h.lists (a, i) hi
  have hnotin : p ∉ l := by
    intro hin
    have hfree := idx_of_bucket ((hmem p).mp hin)
    exact hiu (hfree.symm.trans hused)
  have htailne : s.tail (a, i) ≠ some p := by
    rw [hlinked.tail_eq]
    exact fun heq => hnotin (List.mem_of_getLast? heq)
  have hfields := appendBlock_fields s a p i
  have hidx : ∀ u, (appendBlock s a p i).idx u = if u = p then i else s.idx u := fun u => by
    rw [hfields]
    exact Function.update_apply ..
  have horders : orders (appendBlock s a p i) (Function.update live p none) = orders s live := by
    funext u
    by_cases hu : u = p
    · rw [hu, hhand, orders, hidx, if_pos rfl, if_neg hiu]
    · exact orders_congr (by rw [hidx, if_neg hu]) (Function.update_of_ne hu _ _)
  have hnext : ∀ u, u ≠ p → (appendBlock s a p i).next u =
      if s.tail (a, i) = some u then some p else s.next u := fun u hu => by
    rw [hfields]
    show (if _ then _ else if _ then _ else _) = _
    rw [if_neg hu]
  have hprev : ∀ u, u ≠ p → (appendBlock s a p i).prev u = s.prev u := fun u hu => by
    rw [hfields]
    exact Function.update_of_ne hu _ _
  refine ⟨by rw [horders]; exact h.tiles, fun u k hu => ?_, fun u k _ hk => ?_,
    lists_update h.lists (a, i) (fun _ => ⟨l ++ [p], ?_, ?_, fun u => ?_⟩) (fun b hb => ?_)
      (fun u hu hub => ?_) fun u hu hub => ?_, fun b hb => ?_⟩
  · by_cases hup : u = p
    · rw [hup, Function.update_self] at hu
      cases hu
    · rw [Function.update_of_ne hup] at hu
      rw [hidx, if_neg hup]
      exact h.live_used u k hu
  · have hpk := Nat.two_pow_pos k
    rw [horders] at hk
    rw [hfields]
    show Function.update s.prevIdx (p + 2 ^ i) i (u + 2 ^ k) = k
    by_cases hup : u = p
    · rw [hup, hhand] at hk
      obtain rfl := Option.some.inj hk
      rw [hup, Function.update_self]
    · rw [Function.update_of_ne]
      · exact h.tags u k (fun heq => hup (Option.some.inj heq).symm) hk
      · intro heq
        exact hup (h.tiles.unique u p k i (u + 2 ^ k - 1) ⟨hk, by omega, by omega⟩
          ⟨hhand, by omega, by omega⟩)
  · have hhead : (appendBlock s a p i).head (a, i) =
        if s.tail (a, i) = none then some p else s.head (a, i) := by
      rw [hfields]
      show (if _ then _ else _) = _
      simp only [true_and]
    have htail : (appendBlock s a p i).tail (a, i) = some p := by
      rw [hfields]
      exact Function.update_self ..
    rw [hhead, htail]
    refine hlinked.pushBack hnodup ⟨?_, ?_⟩
      (fun u hu => hnext u (ne_of_mem_of_not_mem hu hnotin))
      fun u hu => hprev u (ne_of_mem_of_not_mem hu hnotin)
    · rw [hfields]
      exact Function.update_self ..
    · rw [hfields]
      show (if _ then _ else if _ then _ else _) = _
      rw [if_neg htailne, if_pos rfl]
  · exact List.nodup_append'.mpr ⟨hnodup, List.nodup_singleton _, by simpa using hnotin⟩
  · rw [List.mem_append, List.mem_singleton, bucketOf, hidx]
    by_cases hup : u = p
    · rw [if_pos hup]
      exact iff_of_true (.inr hup) (by rw [hup, ha])
    · rw [if_neg hup, or_iff_left hup]
      exact hmem u
  · rw [hfields]
    exact ⟨if_neg fun hc => hb hc.1, Function.update_of_ne hb _ _⟩
  · have hup : u ≠ p := by
      rintro rfl
      rw [hused] at hu
      exact absurd hu (by decide)
    refine ⟨by rw [hidx, if_neg hup], ?_, hprev u hup⟩
    rw [hnext u hup, if_neg]
    rw [hlinked.tail_eq]
    exact fun hlast => hub ((hmem u).mp (List.mem_of_getLast? hlast))
  · rw [hidx] at hu ⊢
    by_cases hup : u = p
    · refine absurd ?_ hub
      rw [bucketOf, hidx, if_pos hup, hup, ha]
    · rw [if_neg hup]
  · rw [hfields]
    show Function.update s.bucketBitmap (a, i) true b = true ↔
      (if b = (a, i) ∧ s.tail (a, i) = none then some p else s.head b) ≠ none
    by_cases hbi : b = (a, i)
    · subst hbi
      rw [Function.update_self]
      by_cases hnone : s.tail (a, i) = none
      · simp [hnone]
      · rw [if_neg fun hc => hnone hc.2]
        refine iff_of_true rfl fun hhead => hnone ?_
        have hlast := hlinked.tail_eq
        have hfirst := hlinked.head_eq
        rw [hhead] at hfirst
        rw [hlast]
        cases l with
        | nil => rfl
        | cons v l => cases hfirst
    · rw [Function.update_of_ne hbi, if_neg fun hc => hbi hc.1]
      exact h.bits b hb

/-! ### Merging -/

lemma unlinkBuddy_fields (s : State) (a i q : ℕ) : unlinkBuddy s a i q =
    { s with
      idx := Function.update s.idx q indexUsed
      next := fun u => if s.prev q = some u then s.next q else s.next u
      prev := fun u => if s.next q = some u then s.prev q else s.prev u
      head := fun b => if b = (a, i) ∧ s.prev q = none then s.next q else s.head b
      tail := fun b => if b = (a, i) ∧ s.next q = none then s.prev q else s.tail b
      bucketBitmap := fun b =>
        if b = (a, i) ∧ s.prev q = none ∧ s.next q = none then false else s.bucketBitmap b } := by
  have hnext : ∀ (v : ℕ) (x : Option ℕ), Function.update s.next v x =
      fun u => if v = u then x else s.next u := fun v x => by
    funext u
    rw [Function.update_apply]
    simp only [eq_comm]
  have hprev : ∀ (v : ℕ) (x : Option ℕ), Function.update s.prev v x =
      fun u => if v = u then x else s.prev u := fun v x => by
    funext u
    rw [Function.update_apply]
    simp only [eq_comm]
  have hhead : ∀ x, Function.update s.head (a, i) x =
      fun b => if b = (a, i) then x else s.head b := fun x => by
    funext b
    rw [Function.update_apply]
  have htail : ∀ x, Function.update s.tail (a, i) x =
      fun b => if b = (a, i) then x else s.tail b := fun x => by
    funext b
    rw [Function.update_apply]
  have hbits : Function.update s.bucketBitmap (a, i) false =
      fun b => if b = (a, i) then false else s.bucketBitmap b := by
    funext b
    rw [Function.update_apply]
  rw [unlinkBuddy]
  cases hp : s.prev q with
  | none =>
    cases hn : s.next q with
    | none => simp [blockDescriptorDeinit, hhead, htail, hbits]
    | some n =>
      simp [blockDescriptorDeinit, blockDescriptorSetPrev, hhead, hprev]
  | some v =>
    cases hn : s.next q with
    | none => simp [blockDescriptorDeinit, blockDescriptorSetNext, hnext, htail]
    | some n =>
      simp [blockDescriptorDeinit, blockDescriptorSetNext, blockDescriptorSetPrev, hnext, hprev]

/-- **The block in hand is merged** with its buddy, when that is free as a whole. -/
theorem Inv.merge (h : Inv (some p) s live R) (hp : live p = some i) (hi : i + 1 < bucketCount)
    (ha : a = getAllocatorFromAddress p) (hbuddy : s.idx (p ^^^ 2 ^ i) = i) :
    Inv (some (clearBit p i)) (unlinkBuddy s a i (p ^^^ 2 ^ i))
      (Function.update (Function.update live p none) (clearBit p i) (some (i + 1))) R := by
  have hpos := Nat.two_pow_pos i
  have hi' : i < bucketCount := by omega
  have hhand := orders_live h hp
  have hused : s.idx p = indexUsed := h.live_used p i hp
  have hiu : i ≠ indexUsed := by
    rw [bucketCount_eq] at hi
    rw [indexUsed_eq]
    omega
  have hpdvd : 2 ^ i ∣ p := h.tiles.aligned p i hhand
  set q := p ^^^ 2 ^ i with hq
  have hfree : orders s live q = some i := orders_free hbuddy hi'
  have hqp : q ≠ p := buddy_ne hpdvd
  -- the halves in their order
  obtain ⟨low, hlow, hdvd, hhalves⟩ : ∃ low, clearBit p i = low ∧ 2 ^ (i + 1) ∣ low ∧
      (p = low ∧ q = low + 2 ^ i ∨ q = low ∧ p = low + 2 ^ i) := by
    rcases buddy_cases hpdvd with ⟨hbit, hright, hdvd⟩ | ⟨hbit, hle, hleft, hdvd⟩
    · exact ⟨p, by rw [clearBit, hbit]; rfl, hdvd, .inl ⟨rfl, hright⟩⟩
    · exact ⟨p - 2 ^ i, by rw [clearBit, hbit]; rfl, hdvd, .inr ⟨hleft, by omega⟩⟩
  rw [hlow]
  have hlowHigh : low ≠ low + 2 ^ i := by omega
  have hboth : ∀ u, u = p ∨ u = q ↔ u = low ∨ u = low + 2 ^ i := by
    intro u
    rcases hhalves with ⟨h₁, h₂⟩ | ⟨h₁, h₂⟩
    · rw [h₁, h₂]
    · rw [h₁, h₂, or_comm]
  have hbefore : orders s live low = some i ∧ orders s live (low + 2 ^ i) = some i := by
    rcases hhalves with ⟨h₁, h₂⟩ | ⟨h₁, h₂⟩
    · rw [← h₂, ← h₁]
      exact ⟨hhand, hfree⟩
    · rw [← h₂, ← h₁]
      exact ⟨hfree, hhand⟩
  have hliveq : live q = none := by
    by_contra hsome
    obtain ⟨k, hk⟩ := Option.ne_none_iff_exists'.mp hsome
    exact hiu (hbuddy.symm.trans (h.live_used q k hk))
  set live' := Function.update (Function.update live p none) low (some (i + 1)) with hlive'
  have hlives : ∀ u, live' u = if u = low then some (i + 1) else if u = low + 2 ^ i then none
      else live u := by
    intro u
    rw [hlive', Function.update_apply, Function.update_apply]
    by_cases hul : u = low
    · rw [if_pos hul, if_pos hul]
    · rw [if_neg hul, if_neg hul]
      rcases hhalves with ⟨h₁, h₂⟩ | ⟨h₁, h₂⟩
      · rw [if_neg (by rw [h₁]; exact hul)]
        by_cases huh : u = low + 2 ^ i
        · rw [if_pos huh, huh, ← h₂, hliveq]
        · rw [if_neg huh]
      · rw [h₂]
  have hfields := unlinkBuddy_fields s a i q
  have hidx : ∀ u, (unlinkBuddy s a i q).idx u = if u = q then indexUsed else s.idx u := fun u => by
    rw [hfields]
    exact Function.update_apply ..
  have husedBoth : ∀ u, u = low ∨ u = low + 2 ^ i → (unlinkBuddy s a i q).idx u = indexUsed := by
    intro u hu
    rw [hidx]
    rcases (hboth u).mpr hu with rfl | rfl
    · split_ifs
      · rfl
      · exact hused
    · rw [if_pos rfl]
  have horders : orders (unlinkBuddy s a i q) live' =
      Function.update (Function.update (orders s live) (low + 2 ^ i) none) low (some (i + 1)) := by
    funext u
    rw [Function.update_apply, Function.update_apply]
    by_cases hul : u = low
    · rw [if_pos hul, orders, if_pos (husedBoth u (.inl hul)), hlives, if_pos hul]
    · by_cases huh : u = low + 2 ^ i
      · rw [if_neg hul, if_pos huh, orders, if_pos (husedBoth u (.inr huh)), hlives, if_neg hul,
          if_pos huh]
      · rw [if_neg hul, if_neg huh]
        have huq : u ≠ q := fun hc => by
          rcases (hboth u).mp (.inr hc) with hc | hc
          · exact hul hc
          · exact huh hc
        exact orders_congr (by rw [hidx, if_neg huq]) (by rw [hlives, if_neg hul, if_neg huh])
  -- the bucket of the buddy
  have hqa : getAllocatorFromAddress q = a := by
    rcases hhalves with ⟨h₁, h₂⟩ | ⟨h₁, h₂⟩
    · rw [h₂, ha, h₁]
      exact allocator_add hdvd hi'
    · rw [h₁, ha, h₂]
      exact (allocator_add hdvd hi').symm
  have hqbucket : bucketOf s q = (a, i) := by rw [bucketOf, hqa, hbuddy]
  obtain ⟨l, hlinked, hnodup, hmem⟩ := h.lists (a, i) hi'
  obtain ⟨A, B, hsplit⟩ := List.append_of_mem ((hmem q).mpr hqbucket)
  rw [hsplit] at hlinked hnodup hmem
  obtain ⟨hprevA, hnextB⟩ := hlinked.at
  have hnotin : q ∉ A ++ B := (List.nodup_cons.mp (List.nodup_middle.mp hnodup)).1
  have hprevMem : ∀ u, s.prev q = some u → bucketOf s u = (a, i) := by
    intro u hu
    rw [hprevA] at hu
    exact (hmem u).mp (List.mem_append_left _ (List.mem_of_getLast? hu))
  have hnextMem : ∀ u, s.next q = some u → bucketOf s u = (a, i) := by
    intro u hu
    rw [hnextB] at hu
    exact (hmem u).mp (List.mem_append_right _ (List.mem_cons_of_mem _ (List.mem_of_head? hu)))
  refine ⟨?_, fun u k hu => ?_, fun u k hu hk => ?_,
    lists_update h.lists (a, i) (fun _ => ⟨A ++ B, ?_, ?_, fun u => ?_⟩) (fun b hb => ?_)
      (fun u hu hub => ?_) fun u hu hub => ?_, fun b hb => ?_⟩
  · rw [horders]
    exact h.tiles.merge hbefore.1 hbefore.2 hdvd (by rw [bucketCount_eq] at hi ⊢; omega)
  · rw [hlives] at hu
    by_cases hul : u = low
    · exact husedBoth u (.inl hul)
    · rw [if_neg hul] at hu
      by_cases huh : u = low + 2 ^ i
      · exact husedBoth u (.inr huh)
      · rw [if_neg huh] at hu
        rw [hidx]
        split_ifs
        · rfl
        · exact h.live_used u k hu
  · have hul : u ≠ low := fun hc => hu (by rw [hc])
    rw [horders, Function.update_apply, Function.update_apply, if_neg hul] at hk
    by_cases huh : u = low + 2 ^ i
    · rw [if_pos huh] at hk
      cases hk
    · rw [if_neg huh] at hk
      rw [hfields]
      refine h.tags u k (fun hc => ?_) hk
      rcases (hboth u).mp (.inl (Option.some.inj hc).symm) with hc | hc
      · exact hul hc
      · exact huh hc
  · have hhead : (unlinkBuddy s a i q).head (a, i) =
        if s.prev q = none then s.next q else s.head (a, i) := by
      rw [hfields]
      show (if _ then _ else _) = _
      simp only [true_and]
    have htail : (unlinkBuddy s a i q).tail (a, i) =
        if s.next q = none then s.prev q else s.tail (a, i) := by
      rw [hfields]
      show (if _ then _ else _) = _
      simp only [true_and]
    rw [hhead, htail]
    refine hlinked.remove hnodup (fun u _ => ?_) fun u _ => ?_
    · rw [hfields]
    · rw [hfields]
  · exact (List.nodup_cons.mp (List.nodup_middle.mp hnodup)).2
  · rw [bucketOf, hidx]
    by_cases huq : u = q
    · rw [if_pos huq]
      refine iff_of_false (by rw [huq]; exact hnotin) fun hc => hiu (congrArg Prod.snd hc).symm
    · rw [if_neg huq]
      have hu := hmem u
      rw [List.mem_append, List.mem_cons, or_iff_right huq, ← List.mem_append] at hu
      exact hu
  · rw [hfields]
    exact ⟨if_neg fun hc => hb hc.1, if_neg fun hc => hb hc.1⟩
  · have huq : u ≠ q := by
      rintro rfl
      exact hub hqbucket
    refine ⟨by rw [hidx, if_neg huq], ?_, ?_⟩
    · rw [hfields]
      exact if_neg fun hc => hub (hprevMem u hc)
    · rw [hfields]
      exact if_neg fun hc => hub (hnextMem u hc)
  · rw [hidx] at hu ⊢
    by_cases huq : u = q
    · rw [if_pos huq] at hu
      exact absurd hu (by decide)
    · rw [if_neg huq]
  · rw [hfields]
    show (if b = (a, i) ∧ s.prev q = none ∧ s.next q = none then false
      else s.bucketBitmap b) = true ↔
      (if b = (a, i) ∧ s.prev q = none then s.next q else s.head b) ≠ none
    by_cases hbi : b = (a, i)
    · subst hbi
      have hbit : s.bucketBitmap (a, i) = true := by
        refine (h.bits (a, i) hi').mpr ?_
        rw [hlinked.head_eq]
        cases A <;> simp
      have hhead : s.head (a, i) ≠ none := (h.bits (a, i) hi').mp hbit
      by_cases hp₀ : s.prev q = none
      · by_cases hn₀ : s.next q = none
        · simp [hp₀, hn₀]
        · rw [if_neg fun hc => hn₀ hc.2.2, if_pos ⟨rfl, hp₀⟩]
          exact iff_of_true hbit hn₀
      · rw [if_neg fun hc => hp₀ hc.2.1, if_neg fun hc => hp₀ hc.2]
        exact iff_of_true hbit hhead
    · rw [if_neg fun hc => hbi hc.1, if_neg fun hc => hbi hc.1]
      exact h.bits b hb

end KernelModel.Pmm
