import KernelModel.KfsBitmap

/-!
What the allocator of a KFS2 volume does to its bitmap.

The two loops of an allocation are the descent and the clearing of a bitmap in levels: the
blocks in memory stay those on the drive, and nothing outside of the bitmap's area changes.
-/

namespace KernelModel.Kfs

open HierBitmap

variable {c : Config} {A : Area c} {d : Disk} {a : Bitmap}

/-! ### The first loop -/

/-- After the first loop, from `a` and `ptr` to `a'` and `ptr'`: the blocks on the way down to
index `x` are in memory. -/
structure Fetched (A : Area c) (d : Disk) (i x : ℕ) (a a' : Bitmap) (ptr ptr' : ℕ → ℕ) :
    Prop where
  coherent : Coherent A d a'
  holds : ∀ k < i, Holds A a' k (x / 64 ^ (k + 1))
  ptr_eq : ∀ k < i, ptr' k = slot (x / 64 ^ (k + 1))
  cache_above : ∀ k, i ≤ k → a'.cache k = a.cache k
  ptr_above : ∀ k, i ≤ k → ptr' k = ptr k
  length : a'.highestLevelLength = a.highestLevelLength
  offset : a'.highestLevelOffset = a.highestLevelOffset

lemma shiftLeft_or_lowest {out t : ℕ} (hout : out < 2 ^ 57) (ht : t < 64) :
    (out <<< 6) % 2 ^ 64 ||| (t + 1 + (2 ^ 64 - 1)) % 2 ^ 64 = 64 * out + t := by
  have h1 : (out <<< 6) % 2 ^ 64 = 2 ^ 6 * out := by
    rw [Nat.shiftLeft_eq]
    omega
  have h2 : (t + 1 + (2 ^ 64 - 1)) % 2 ^ 64 = t := by omega
  rw [h1, h2, ← Nat.two_pow_add_eq_or_of_lt (by omega : t < 2 ^ 6)]

lemma allocDown_spec (hbs : c.blockSize ≤ 4096) (hL : Consistent 5 (A.view d)) :
    ∀ {i : ℕ} {a : Bitmap} (out : ℕ) (ptr : ℕ → ℕ), i ≤ 5 → Coherent A d a →
      (∀ j, j + 1 = i → A.view d j out ≠ 0) →
      (allocDown c d i a out ptr).2.1 = descend (A.view d) i out ∧
        Fetched A d i (descend (A.view d) i out) a (allocDown c d i a out ptr).1 ptr
          (allocDown c d i a out ptr).2.2 := by
  intro i
  induction i with
  | zero =>
    intro a out ptr _ hc _
    exact ⟨rfl, hc, fun k hk => absurd hk (by omega), fun k hk => absurd hk (by omega),
      fun _ _ => rfl, fun _ _ => rfl, rfl, rfl⟩
  | succ i ih =>
    intro a out ptr hi hc hw
    have hw' := hw i rfl
    have hj := Area.div_lt_of_view_ne hw'
    obtain ⟨hc', hh⟩ := fetchData_coherent hbs hc (by omega) hj
    have hlt := hL.word_lt i (by omega) out
    obtain ⟨t, ht⟩ := exists_isLowest hw'
    have ht64 := ht.lt_64 hlt
    have hout : out < 2 ^ 57 := by
      have := A.small i (by omega)
      omega
    have hnext : (out <<< 6) % 2 ^ 64 |||
        (ffs ((fetchData c a i out d).cache i |>.data (slot out)) + (2 ^ 64 - 1)) % 2 ^ 64
          = 64 * out + t := by
      rw [hc'.data_eq (by omega) hh, ffs_eq ht hlt, shiftLeft_or_lowest hout ht64]
    have hx : descend (A.view d) (i + 1) out = descend (A.view d) i (64 * out + t) := by
      rw [descend, ffs_eq ht hlt, Nat.add_sub_cancel]
    have hstep : allocDown c d (i + 1) a out ptr = allocDown c d i (fetchData c a i out d)
        (64 * out + t) (Function.update ptr i (slot out)) := by
      rw [allocDown, hnext]
    -- the word below is not zero, so that the descent goes on
    have hbelow : ∀ j, j + 1 = i → A.view d j (64 * out + t) ≠ 0 := by
      rintro j rfl
      rw [← hL.bit_iff j (by omega), bit, show (64 * out + t) / 64 = out by omega,
        show (64 * out + t) % 64 = t by omega]
      exact ht.1
    have hdiv : descend (A.view d) i (64 * out + t) / 64 ^ (i + 1) = out := by
      cases i with
      | zero => simp only [descend, zero_add, pow_one]; omega
      | succ j =>
        obtain ⟨-, hd⟩ := descend_spec hL (by omega) (hbelow j rfl)
        rw [div_pow_succ, hd]
        omega
    obtain ⟨hout', hf⟩ := ih (64 * out + t) (Function.update ptr i (slot out)) (by omega) hc'
      hbelow
    rw [hstep, hx]
    have hcache := hf.cache_above i le_rfl
    refine ⟨hout', hf.coherent, fun k hk => ?_, fun k hk => ?_, fun k hk => ?_, fun k hk => ?_,
      ?_, ?_⟩
    · rcases Nat.lt_succ_iff_lt_or_eq.mp hk with hk | rfl
      · exact hf.holds k hk
      · rw [hdiv, Holds, hcache]
        exact hh
    · rcases Nat.lt_succ_iff_lt_or_eq.mp hk with hk | rfl
      · exact hf.ptr_eq k hk
      · rw [hdiv, hf.ptr_above k le_rfl, Function.update_self]
    · rw [hf.cache_above k (by omega), fetchData_other (by omega)]
    · rw [hf.ptr_above k (by omega), Function.update_of_ne (by omega)]
    · rw [hf.length, fetchData_length]
    · rw [hf.offset, fetchData_highestLevelOffset]

/-! ### The second loop -/

/-- Nothing outside of the area has changed. -/
def SameOutside (A : Area c) (d d' : Disk) : Prop :=
  ∀ b, ¬ A.Has b → ∀ r < 512, c.word d' b r = c.word d b r

lemma SameOutside.refl (A : Area c) (d : Disk) : SameOutside A d d := fun _ _ _ _ => rfl

lemma SameOutside.trans {d' d'' : Disk} (h : SameOutside A d d') (h' : SameOutside A d' d'') :
    SameOutside A d d'' :=
  fun b hb r hr => (h' b hb r hr).trans (h b hb r hr)

@[simp] lemma setData_same (k r w : ℕ) : (setData a k r w).cache k
    = ⟨(a.cache k).offset, (a.cache k).blockIndex, Function.update (a.cache k).data r w⟩ := by
  simp [setData, Bitmap.setCache]

lemma setData_other {k k' : ℕ} (hk : k' ≠ k) (r w : ℕ) :
    (setData a k r w).cache k' = a.cache k' := by
  simp [setData, Bitmap.setCache, hk]

lemma word_storeData (hbs : c.blockSize ≤ 4096) {k j : ℕ} (hk : k < 5) (hh : Holds A a k j)
    (w : ℕ) {b r : ℕ} (hr : r < 512) :
    c.word (storeData c (setData a k (slot j) w) k d) b r =
      if b = A.offset k + j / 512 then Function.update (a.cache k).data (slot j) w r
      else c.word d b r := by
  have hin := A.inside k hk
  have hj := hh.1
  rw [storeData, setData_same, hh.2, Config.lba_eq hbs (by omega), Config.one_shiftLeft hbs,
    Config.word_writeCallback hbs _ _ hr]

/-- Writing a word of the block in memory and the block to the drive replaces that word of the
level. -/
lemma storeData_spec (hbs : c.blockSize ≤ 4096) (hc : Coherent A d a) {k j : ℕ} (hk : k < 5)
    (hh : Holds A a k j) (w : ℕ) :
    A.view (storeData c (setData a k (slot j) w) k d) = setWord (A.view d) k j w ∧
      Coherent A (storeData c (setData a k (slot j) w) k d) (setData a k (slot j) w) ∧
      SameOutside A d (storeData c (setData a k (slot j) w) k d) := by
  have hword := fun b r (hr : r < 512) => word_storeData (d := d) (b := b) hbs hk hh w hr
  set d' := storeData c (setData a k (slot j) w) k d with hd'
  -- the block in memory, before the write
  obtain ⟨q, hq, hqi, hdata⟩ : ∃ q < A.blocks k, (a.cache k).blockIndex = A.offset k + q ∧
      ∀ r < 512, (a.cache k).data r = c.word d (A.offset k + q) r := by
    refine (hc.cached k hk).resolve_left fun hn => ?_
    have := A.inside k hk
    have := Config.blockCount_lt c
    have := hh.1
    have := hh.2
    omega
  obtain rfl : q = j / 512 := by
    have := hh.2
    omega
  -- blocks of other levels are other blocks
  have hother : ∀ k' < 5, k' ≠ k → ∀ q' < A.blocks k', A.offset k' + q' ≠ A.offset k + j / 512 := by
    intro k' hk' hne q' hq'
    have := A.apart k' hk' k hk hne
    omega
  refine ⟨?_, ⟨fun k' hk' => ?_, fun k' hk' => ?_⟩, fun b hb r hr => ?_⟩
  · funext k' j'
    by_cases hkj : k' < 5 ∧ j' / 512 < A.blocks k'
    · have hmod : j' % 512 < 512 := Nat.mod_lt _ (by norm_num)
      rw [Area.view, if_pos hkj, hword _ _ hmod]
      rcases eq_or_ne k' k with rfl | hne
      · by_cases hjj : j' = j
        · subst hjj
          simp [slot_eq]
        · rw [setWord_of_word_ne hjj, Area.view, if_pos hkj]
          split
          · rename_i hbl
            have hb : j' / 512 = j / 512 := by omega
            rw [slot_eq, Function.update_of_ne (by omega), hdata _ hmod, hb]
          · rfl
      · rw [setWord_of_level_ne hne, if_neg (hother k' hkj.1 hne _ hkj.2), Area.view,
          if_pos hkj]
    · have hne : ¬ (k' = k ∧ j' = j) := by
        rintro ⟨rfl, rfl⟩
        exact hkj ⟨hk, hq⟩
      rw [setWord, if_neg hne, Area.view, Area.view, if_neg hkj, if_neg hkj]
  · rcases eq_or_ne k' k with rfl | hne
    · rw [setData_same]
      exact hc.offset k' hk'
    · rw [setData_other hne]
      exact hc.offset k' hk'
  · rcases eq_or_ne k' k with rfl | hne
    · refine .inr ⟨j / 512, hq, by rw [setData_same, hqi], fun r hr => ?_⟩
      rw [setData_same, hword _ _ hr, if_pos rfl]
    · rw [setData_other hne]
      rcases hc.cached k' hk' with hn | ⟨q', hq', hi', hd''⟩
      · exact .inl hn
      · refine .inr ⟨q', hq', hi', fun r hr => ?_⟩
        rw [hword _ _ hr, if_neg (hother k' hk' hne q' hq'), hd'' r hr]
  · have hne : b ≠ A.offset k + j / 512 := by
      rintro rfl
      exact hb ⟨k, hk, by omega, by omega⟩
    rw [hword _ _ hr, if_neg hne]

lemma and_pred_eq {w : ℕ} (hw : w < 2 ^ 64) :
    w &&& (w + (2 ^ 64 - 1)) % 2 ^ 64 = clearLowest w := by
  rcases Nat.eq_zero_or_pos w with rfl | hpos
  · simp [clearLowest]
  · rw [clearLowest, show (w + (2 ^ 64 - 1)) % 2 ^ 64 = w - 1 by omega]

/-- After the second loop: the bitmap is cleared as in `clearFrom`. -/
structure Stored (A : Area c) (d d' : Disk) (a a' : Bitmap) (L : Levels) : Prop where
  view_eq : A.view d' = L
  coherent : Coherent A d' a'
  same : SameOutside A d d'
  length : a'.highestLevelLength = a.highestLevelLength
  offset : a'.highestLevelOffset = a.highestLevelOffset

lemma allocUp_spec (hbs : c.blockSize ≤ 4096) {x : ℕ} {ptr : ℕ → ℕ} :
    ∀ {n i : ℕ} {a : Bitmap} {d : Disk}, i + n ≤ 5 → Coherent A d a →
      (∀ k < 5, ∀ j, A.view d k j < 2 ^ 64) →
      (∀ k < 5, Holds A a k (x / 64 ^ (k + 1))) → (∀ k < 5, ptr k = slot (x / 64 ^ (k + 1))) →
      (allocUp c ptr n i a d).2.2 = (clearFrom x n i (A.view d)).2 ∧
        Stored A d (allocUp c ptr n i a d).2.1 a (allocUp c ptr n i a d).1
          (clearFrom x n i (A.view d)).1 := by
  intro n
  induction n with
  | zero =>
    intro i a d _ hc _ _ _
    exact ⟨rfl, rfl, hc, SameOutside.refl A d, rfl, rfl⟩
  | succ n ih =>
    intro i a d hn hc hlt hh hptr
    have hi : i < 5 := by omega
    have hw := hc.data_eq hi (hh i hi)
    have hand := and_pred_eq (hlt i hi (x / 64 ^ (i + 1)))
    simp only [allocUp, clearFrom, hptr i hi, hw, hand]
    set w := clearLowest (A.view d i (x / 64 ^ (i + 1))) with hwdef
    obtain ⟨hview, hc', hsame⟩ := storeData_spec hbs hc hi (hh i hi) w
    by_cases hw0 : w = 0
    · rw [if_neg (by simpa using hw0), if_neg (by simpa using hw0), ← hview]
      have hlt' : ∀ k < 5, ∀ j,
          A.view (storeData c (setData a i (slot (x / 64 ^ (i + 1))) w) i d) k j < 2 ^ 64 := by
        intro k hk j
        rw [hview, setWord]
        split
        · exact clearLowest_lt (hlt i hi _)
        · exact hlt k hk j
      have hh' : ∀ k < 5, Holds A (setData a i (slot (x / 64 ^ (i + 1))) w) k
          (x / 64 ^ (k + 1)) := by
        intro k hk
        refine ⟨(hh k hk).1, ?_⟩
        rcases eq_or_ne k i with rfl | hne
        · rw [setData_same]
          exact (hh k hk).2
        · rw [setData_other hne]
          exact (hh k hk).2
      obtain ⟨hflag, hs⟩ := ih (i := i + 1) (by omega) hc' hlt' hh' hptr
      exact ⟨hflag, hs.view_eq, hs.coherent, hsame.trans hs.same, hs.length, hs.offset⟩
    · rw [if_pos hw0, if_pos hw0]
      exact ⟨rfl, hview, hc', hsame, rfl, rfl⟩

/-! ### Allocations -/

/-- The state between allocations: the levels agree, and the offset stands at a nonzero word of
the highest level or at its end. -/
structure Ready (A : Area c) (d : Disk) (a : Bitmap) : Prop where
  coherent : Coherent A d a
  consistent : Consistent 5 (A.view d)
  length_le : a.highestLevelLength ≤ 512 * A.blocks 4
  offset : a.highestLevelOffset = a.highestLevelLength ∨
    a.highestLevelOffset < a.highestLevelLength ∧ A.view d 4 a.highestLevelOffset ≠ 0

lemma findNextHighestLevelOffset_ready (hbs : c.blockSize ≤ 4096)
    (hL : Consistent 5 (A.view d)) : ∀ {n : ℕ} {a : Bitmap}, Coherent A d a →
      a.highestLevelLength ≤ 512 * A.blocks 4 → a.highestLevelOffset ≤ a.highestLevelLength →
      a.highestLevelLength ≤ a.highestLevelOffset + n →
      Ready A d (findNextHighestLevelOffset c d n a) := by
  intro n
  induction n with
  | zero =>
    intro a hc hlen hle hn
    exact ⟨hc, hL, hlen, .inl (by simp only [findNextHighestLevelOffset]; omega)⟩
  | succ n ih =>
    intro a hc hlen hle hn
    rw [findNextHighestLevelOffset]
    by_cases hlt : a.highestLevelOffset < a.highestLevelLength
    · obtain ⟨hc', hh⟩ := fetchData_coherent hbs hc (k := 4) (j := a.highestLevelOffset)
        (by omega) (by omega)
      have hw := hc'.data_eq (by omega) hh
      rw [if_pos hlt]
      simp only [kfs2BitmapLevelCount, Nat.reduceSub, hw]
      split
      · refine ih ⟨hc'.offset, hc'.cached⟩ ?_ ?_ ?_ <;>
          simp only [fetchData_length, fetchData_highestLevelOffset] <;> omega
      · rename_i hne
        refine ⟨hc', hL, by simpa using hlen, .inr ?_⟩
        simpa using ⟨hlt, hne⟩
    · rw [if_neg hlt]
      exact ⟨hc, hL, hlen, .inl (by omega)⟩

/-- The two loops of an allocation: what they leave in memory and on the drive, with the index
they end at. -/
structure Looped (A : Area c) (d d' : Disk) (a a' : Bitmap) (x : ℕ) (emptied : Bool) : Prop where
  taken : bit (A.view d) 0 x
  eq_descend : x = descend (A.view d) 5 a.highestLevelOffset
  bits : ∀ i, bit (A.view d') 0 i = (bit (A.view d) 0 i && i != x)
  consistent : Consistent 5 (A.view d')
  emptied_iff : emptied ↔ A.view d' 4 a.highestLevelOffset = 0
  coherent : Coherent A d' a'
  same : SameOutside A d d'
  length : a'.highestLevelLength = a.highestLevelLength
  offset : a'.highestLevelOffset = a.highestLevelOffset

lemma loops_spec (hbs : c.blockSize ≤ 4096) (h : Ready A d a)
    (hne : A.view d 4 a.highestLevelOffset ≠ 0) :
    ∃ r u, allocDown c d 5 a a.highestLevelOffset (fun _ => 0) = r ∧
      allocUp c r.2.2 5 0 r.1 d = u ∧ Looped A d u.2.1 a u.1 r.2.1 u.2.2 := by
  obtain ⟨hx, hdiv, hcl⟩ := take_spec h.consistent hne
  obtain ⟨hout, hf⟩ := allocDown_spec hbs h.consistent _ (fun _ => 0) le_rfl h.coherent
    (fun j hj => by
      obtain rfl : j = 4 := by omega
      exact hne)
  generalize hxdef : descend (A.view d) (4 + 1) a.highestLevelOffset = x at hx hdiv hcl hout hf
  generalize hr : allocDown c d 5 a a.highestLevelOffset (fun _ => 0) = r at hout hf
  obtain ⟨hflag, hs⟩ := allocUp_spec hbs (n := 5) (i := 0) le_rfl hf.coherent
    h.consistent.word_lt hf.holds hf.ptr_eq
  generalize hu : allocUp c r.2.2 5 0 r.1 d = u at hflag hs
  refine ⟨r, u, rfl, hu, ?_⟩
  rw [hout]
  rw [← hs.view_eq, ← hflag] at hcl
  refine ⟨hx, hxdef.symm, fun i => ?_, hcl.consistent, ?_, hs.coherent, hs.same, ?_, ?_⟩
  · have := hcl.bits i
    rwa [pow_zero, Nat.div_one] at this
  · have := hcl.emptied 4 rfl
    rwa [hdiv] at this
  · rw [hs.length, hf.length]
  · rw [hs.offset, hf.offset]

/-- An allocation that is not refused: both loops, and the search for the next offset when a
word of the highest level was emptied. -/
lemma kfs2BitmapAlloc_eq (hbs : c.blockSize ≤ 4096) (h : Ready A d a)
    (hlt : a.highestLevelOffset < a.highestLevelLength)
    (hne : A.view d 4 a.highestLevelOffset ≠ 0) : ∃ x a₂ d₂ emptied,
      kfs2BitmapAlloc c a d = (if emptied then
          (x, findNextHighestLevelOffset c d₂ a₂.highestLevelLength
            { a₂ with highestLevelOffset := a₂.highestLevelOffset + 1 }, d₂)
        else (x, a₂, d₂)) ∧ Looped A d d₂ a a₂ x emptied := by
  obtain ⟨⟨a₁, x, ptr⟩, ⟨a₂, d₂, emptied⟩, hdown, hup, hl⟩ := loops_spec hbs h hne
  refine ⟨x, a₂, d₂, emptied, ?_, hl⟩
  have hne' : a.highestLevelOffset ≠ a.highestLevelLength := by omega
  rw [kfs2BitmapAlloc, if_neg hne', kfs2BitmapLevelCount, hdown]
  dsimp only at hup ⊢
  rw [hup]

/-- **An allocation.** An exhausted allocator returns `0` and changes nothing. Any other takes
the index it returns, and only that one, out of the free ones. -/
theorem kfs2BitmapAlloc_spec (hbs : c.blockSize ≤ 4096) (h : Ready A d a) :
    ∃ x a' d', kfs2BitmapAlloc c a d = (x, a', d') ∧ Ready A d' a' ∧ SameOutside A d d' ∧
      (a.highestLevelOffset = a.highestLevelLength ∧ x = 0 ∧ d' = d ∨
        bit (A.view d) 0 x ∧ x = descend (A.view d) 5 a.highestLevelOffset ∧
          ∀ i, bit (A.view d') 0 i = (bit (A.view d) 0 i && i != x)) := by
  rcases h.offset with heq | ⟨hlt, hne⟩
  · exact ⟨0, a, d, if_pos heq, h, SameOutside.refl A d, .inl ⟨heq, rfl, rfl⟩⟩
  obtain ⟨x, a₂, d₂, emptied, halloc, hl⟩ := kfs2BitmapAlloc_eq hbs h hlt hne
  have hlen := hl.length
  have hoff := hl.offset
  cases emptied with
  | true =>
    refine ⟨x, _, d₂, halloc, ?_, hl.same, .inr ⟨hl.taken, hl.eq_descend, hl.bits⟩⟩
    refine findNextHighestLevelOffset_ready hbs hl.consistent
      ⟨hl.coherent.offset, hl.coherent.cached⟩ ?_ ?_ ?_ <;> simp only [hlen, hoff]
    · exact h.length_le
    · omega
    · omega
  | false =>
    refine ⟨x, a₂, d₂, halloc, ⟨hl.coherent, hl.consistent, hlen ▸ h.length_le, .inr ?_⟩, hl.same,
      .inr ⟨hl.taken, hl.eq_descend, hl.bits⟩⟩
    rw [hlen, hoff]
    exact ⟨hlt, fun hz => absurd (hl.emptied_iff.mpr hz) (by simp)⟩

/-- Two areas without a common block. -/
def Area.Disjoint (A B : Area c) : Prop := ∀ b, A.Has b → ¬ B.Has b

lemma Area.view_frame {B : Area c} {d' : Disk} (hAB : A.Disjoint B)
    (hs : SameOutside B d d') : A.view d' = A.view d := by
  funext k j
  rw [Area.view, Area.view]
  split
  · rename_i hkj
    exact hs _ (hAB _ ⟨k, hkj.1, by omega, by omega⟩) _ (Nat.mod_lt _ (by norm_num))
  · rfl

lemma Coherent.frame {B : Area c} {d' : Disk} (h : Coherent A d a) (hAB : A.Disjoint B)
    (hs : SameOutside B d d') : Coherent A d' a := by
  refine ⟨h.offset, fun k hk => ?_⟩
  rcases h.cached k hk with hn | ⟨q, hq, hi, hd⟩
  · exact .inl hn
  · refine .inr ⟨q, hq, hi, fun r hr => ?_⟩
    rw [hd r hr, hs _ (hAB _ ⟨k, hk, by omega, by omega⟩) r hr]

lemma Ready.frame {B : Area c} {d' : Disk} (h : Ready A d a) (hAB : A.Disjoint B)
    (hs : SameOutside B d d') : Ready A d' a := by
  have hview := Area.view_frame hAB hs
  exact ⟨h.coherent.frame hAB hs, hview ▸ h.consistent, h.length_le, hview ▸ h.offset⟩

end KernelModel.Kfs
