import KernelModel.KfsBitmapSpec
import Mathlib.Data.Nat.Bitwise

/-!
Giving indices of a KFS2 volume back to its allocators.

The bit of the index is set on every level, up to the first one where it is set already.
-/

namespace KernelModel.Kfs

open HierBitmap

section

variable (c : Config)

/-- The loop of `kfs2_bitmap_dealloc`, on `n` levels from `i` on, with the index it ends at. -/
def deallocUp : ℕ → ℕ → ℕ → Bitmap → Disk → ℕ × Bitmap × Disk
  | 0, _, index, a, d => (index, a, d)
  | n + 1, i, index, a, d =>
    let mask := 1 <<< (index &&& 63)
    let index := index >>> 6
    let a := fetchData c a i index d
    let w := (a.cache i).data (slot index)
    if w &&& mask ≠ 0 then (index, a, d)
    else
      let a := setData a i (slot index) (w ||| mask)
      deallocUp n (i + 1) index a (storeData c a i d)

/-- `kfs2_bitmap_dealloc`: the allocator and the drive. -/
def kfs2BitmapDealloc (a : Bitmap) (index : ℕ) (d : Disk) : Bitmap × Disk :=
  let (index, a, d) := deallocUp c kfs2BitmapLevelCount 0 index a d
  if index < a.highestLevelOffset then ({ a with highestLevelOffset := index }, d) else (a, d)

end

variable {c : Config} {A : Area c} {a : Bitmap} {d : Disk} {x : ℕ}

/-- The bitmap has words for the index on all levels. -/
def Area.Fits (A : Area c) (x : ℕ) : Prop := ∀ k < 5, x / 64 ^ (k + 1) / 512 < A.blocks k

/-- What the loop leaves behind, from level `i` on. -/
structure GivenBack (A : Area c) (d d' : Disk) (a a' : Bitmap) (x n i index : ℕ) : Prop where
  view_eq : A.view d' = setFrom x n i (A.view d)
  coherent : Coherent A d' a'
  same : SameOutside A d d'
  length : a'.highestLevelLength = a.highestLevelLength
  offset : a'.highestLevelOffset = a.highestLevelOffset
  index_ge : x / 64 ^ (i + n) ≤ index
  index_or : index = x / 64 ^ (i + n) ∨ ∃ k, i ≤ k ∧ k < 5 ∧ bit (A.view d) k (x / 64 ^ k)

lemma GivenBack.bits {d' : Disk} {a' : Bitmap} {n index : ℕ}
    (h : GivenBack A d d' a a' x (n + 1) 0 index) (i : ℕ) :
    bit (A.view d') 0 i = (bit (A.view d) 0 i || i == x) := by
  rw [h.view_eq, bit_setFrom, pow_zero, Nat.div_one]

lemma and_mask_ne_zero (w y : ℕ) : w &&& (1 <<< (y &&& 63)) ≠ 0 ↔ w.testBit (y % 64) := by
  have hmask : y &&& 63 = y % 64 := Nat.and_two_pow_sub_one_eq_mod y 6
  rw [hmask, Nat.one_shiftLeft, Nat.and_two_pow]
  cases w.testBit (y % 64) <;> simp

lemma deallocUp_spec (hbs : c.blockSize ≤ 4096) (hx : A.Fits x) {n i : ℕ} (hn : i + n ≤ 5)
    (hc : Coherent A d a) : ∃ index a' d', deallocUp c n i (x / 64 ^ i) a d = (index, a', d') ∧
      GivenBack A d d' a a' x n i index := by
  induction n generalizing i a d with
  | zero => exact ⟨_, a, d, rfl, rfl, hc, SameOutside.refl A d, rfl, rfl, le_rfl, .inl rfl⟩
  | succ n ih =>
    have hi : i < 5 := by omega
    have hindex : (x / 64 ^ i) >>> 6 = x / 64 ^ (i + 1) := by
      rw [Nat.shiftRight_eq_div_pow, div_pow_succ]
    obtain ⟨hc', hh⟩ := fetchData_coherent hbs hc hi (hx i hi)
    have hw := hc'.data_eq hi hh
    have hbit : (A.view d i (x / 64 ^ (i + 1)) &&& (1 <<< ((x / 64 ^ i) &&& 63)) ≠ 0) ↔
        bit (A.view d) i (x / 64 ^ i) := by
      rw [and_mask_ne_zero, bit, div_pow_succ]
    have hmask : 1 <<< ((x / 64 ^ i) &&& 63) = 2 ^ (x / 64 ^ i % 64) := by
      rw [Nat.one_shiftLeft]
      congr 1
      exact Nat.and_two_pow_sub_one_eq_mod _ 6
    have hpow : x / 64 ^ (i + (n + 1)) ≤ x / 64 ^ (i + 1) :=
      Nat.div_le_div_left (Nat.pow_le_pow_right (by omega) (by omega)) (Nat.pow_pos (by omega))
    rw [deallocUp]
    dsimp only
    rw [hindex, hw]
    by_cases hset : bit (A.view d) i (x / 64 ^ i)
    · rw [if_pos (hbit.mpr hset)]
      refine ⟨_, _, _, rfl, ?_, hc', SameOutside.refl A d, by simp, by simp, hpow,
        .inr ⟨i, le_rfl, hi, hset⟩⟩
      rw [setFrom, if_pos hset]
    · rw [if_neg (mt hbit.mp hset), hmask]
      obtain ⟨hview, hc'', hsame⟩ := storeData_spec hbs hc' hi hh
        (A.view d i (x / 64 ^ (i + 1)) ||| 2 ^ (x / 64 ^ i % 64))
      obtain ⟨index, a', d', hrun, hg⟩ := ih (i := i + 1) (by omega) hc''
      refine ⟨index, a', d', hrun, ?_, hg.coherent, hsame.trans hg.same, ?_, ?_, ?_, ?_⟩
      · rw [hg.view_eq, hview, setFrom, if_neg hset]
      · rw [hg.length]
        exact fetchData_length i _
      · rw [hg.offset]
        exact fetchData_highestLevelOffset i _
      · have := hg.index_ge
        rwa [show i + 1 + n = i + (n + 1) by omega] at this
      · rcases hg.index_or with h | ⟨k, hik, hk, h⟩
        · exact .inl (by rw [h, show i + 1 + n = i + (n + 1) by omega])
        · refine .inr ⟨k, by omega, hk, ?_⟩
          rwa [hview, bit_setWord_of_level_ne (by omega)] at h

/-- Giving an index back keeps the memory and the drive in agreement, also where the levels do
not agree. -/
lemma kfs2BitmapDealloc_coherent (hbs : c.blockSize ≤ 4096) (hc : Coherent A d a)
    (hx : A.Fits x) : ∃ a' d', kfs2BitmapDealloc c a x d = (a', d') ∧ Coherent A d' a' ∧
      SameOutside A d d' ∧ ∀ i, bit (A.view d') 0 i = (bit (A.view d) 0 i || i == x) := by
  obtain ⟨index, a', d', hrun, hg⟩ := deallocUp_spec hbs hx (n := 5) (i := 0) le_rfl hc
  rw [pow_zero, Nat.div_one] at hrun
  rw [kfs2BitmapDealloc, kfs2BitmapLevelCount, hrun]
  dsimp only
  split
  · exact ⟨_, d', rfl, ⟨hg.coherent.offset, hg.coherent.cached⟩, hg.same, hg.bits⟩
  · exact ⟨_, d', rfl, hg.coherent, hg.same, hg.bits⟩

/-! ### The state of an allocator -/

/-- The state between the calls: all words of the highest level before the offset, and behind
the end of the level, are zero. -/
structure Kept (A : Area c) (d : Disk) (a : Bitmap) : Prop extends Ready A d a where
  low : ∀ j < a.highestLevelOffset, A.view d 4 j = 0
  high : ∀ j, a.highestLevelLength ≤ j → A.view d 4 j = 0

/-- A word of the highest level is not zero when there is an index below it. -/
lemma top_ne_zero_iff {L : Levels} (hL : Consistent 5 L) (j : ℕ) :
    L 4 j ≠ 0 ↔ ∃ x, bit L 0 x ∧ x / 64 ^ 5 = j := by
  constructor
  · intro h
    obtain ⟨hbit, hdiv, -⟩ := take_spec hL h
    exact ⟨_, hbit, hdiv⟩
  · rintro ⟨x, hbit, rfl⟩
    exact (hL.given (k := 0) (by omega) (by rwa [pow_zero, Nat.div_one])).top_ne_zero 4 rfl

/-- **Giving an index back.** It is free afterwards, and no other index is touched. -/
theorem kfs2BitmapDealloc_spec (hbs : c.blockSize ≤ 4096) (h : Kept A d a) (hx : A.Fits x)
    (hlength : x / 64 ^ 5 < a.highestLevelLength) :
    ∃ a' d', kfs2BitmapDealloc c a x d = (a', d') ∧ Kept A d' a' ∧ SameOutside A d d' ∧
      a'.highestLevelLength = a.highestLevelLength ∧
      ∀ i, bit (A.view d') 0 i = (bit (A.view d) 0 i || i == x) := by
  obtain ⟨index, a', d', hrun, hg⟩ := deallocUp_spec hbs hx (n := 5) (i := 0) le_rfl h.coherent
  rw [pow_zero, Nat.div_one] at hrun
  have hgiven := give_spec h.consistent x
  rw [← hg.view_eq] at hgiven
  have hbits := hg.bits
  have hlen : a'.highestLevelLength ≤ 512 * A.blocks 4 := hg.length ▸ h.length_le
  have hoffset := hg.offset
  have hhigh : ∀ j, a'.highestLevelLength ≤ j → A.view d' 4 j = 0 := by
    intro j hj
    rw [hg.length] at hj
    rw [hgiven.top 4 rfl j (by omega)]
    exact h.high j hj
  -- the index is the word of the highest level, unless that word was not zero before
  have hindex : index = x / 64 ^ 5 ∨ A.view d 4 (x / 64 ^ 5) ≠ 0 := by
    rcases hg.index_or with hi | ⟨k, -, hk, hset⟩
    · exact .inl (by rwa [Nat.zero_add] at hi)
    · exact .inr ((h.consistent.given hk hset).top_ne_zero 4 rfl)
  have hge := hg.index_ge
  rw [Nat.zero_add] at hge
  rw [kfs2BitmapDealloc, kfs2BitmapLevelCount, hrun]
  dsimp only
  by_cases hlt : index < a'.highestLevelOffset
  · have heq : index = x / 64 ^ 5 := hindex.resolve_right fun hne => hne (h.low _ (by omega))
    rw [if_pos hlt]
    refine ⟨_, d', rfl, ⟨⟨⟨hg.coherent.offset, hg.coherent.cached⟩, hgiven.consistent, hlen, ?_⟩,
      ?_, hhigh⟩, hg.same, hg.length, hbits⟩
    · rw [heq]
      exact .inr ⟨hg.length ▸ hlength, hgiven.top_ne_zero 4 rfl⟩
    · intro j hj
      dsimp only at hj
      rw [hgiven.top 4 rfl j (by omega)]
      exact h.low j (by omega)
  · rw [if_neg hlt]
    have hne : ∀ j, A.view d 4 j ≠ 0 → A.view d' 4 j ≠ 0 := by
      intro j hj
      obtain ⟨y, hy, rfl⟩ := (top_ne_zero_iff h.consistent j).mp hj
      exact (top_ne_zero_iff hgiven.consistent _).mpr ⟨y, by rw [hbits, hy, Bool.true_or], rfl⟩
    have hle : a.highestLevelOffset ≤ x / 64 ^ 5 := by
      rcases hindex with heq | htop
      · omega
      · by_contra hlt'
        exact htop (h.low _ (by omega))
    refine ⟨_, d', rfl, ⟨⟨hg.coherent, hgiven.consistent, hlen, ?_⟩, ?_, hhigh⟩, hg.same,
      hg.length, hbits⟩
    · rw [hg.length, hoffset]
      exact h.offset.imp_right fun hold => ⟨hold.1, hne _ hold.2⟩
    · intro j hj
      rw [hoffset] at hj
      rw [hgiven.top 4 rfl j (by omega)]
      exact h.low j hj

end KernelModel.Kfs
