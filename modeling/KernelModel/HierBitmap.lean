import Mathlib.Tactic

/-!
Bitmaps in levels.

Every level is a sequence of words of sixty-four bits. Bit `i` of a level is bit `i % 64` of
its word `i / 64`, and it summarises word `i` of the level below: it is set exactly when that
word is not zero. A set bit of level `0` is found from a nonzero word of the top level by
following lowest set bits downwards, and is taken by clearing it and, as long as this leaves
a zero word behind, the bit that summarises the word.
-/

namespace KernelModel.HierBitmap

/-! ### Lowest set bits -/

/-- The position of the lowest set bit, counted from one; zero if there is none. -/
def ffs (w : ℕ) : ℕ :=
  match (List.range 64).find? (w.testBit ·) with
  | some t => t + 1
  | none => 0

/-- The word without its lowest set bit. -/
def clearLowest (w : ℕ) : ℕ := w &&& (w - 1)

/-- `t` is the lowest set bit of `w`. -/
def IsLowest (w t : ℕ) : Prop := w.testBit t ∧ ∀ i < t, w.testBit i = false

lemma exists_isLowest {w : ℕ} (hw : w ≠ 0) : ∃ t, IsLowest w t := by
  obtain ⟨i, hi⟩ := Nat.exists_testBit_of_ne_zero hw
  have hex : ∃ i, w.testBit i = true := ⟨i, hi⟩
  refine ⟨Nat.find hex, Nat.find_spec hex, fun j hj => ?_⟩
  simpa using Nat.find_min hex hj

lemma IsLowest.ne_zero {w t : ℕ} (h : IsLowest w t) : w ≠ 0 := by
  rintro rfl
  simp [IsLowest] at h

lemma IsLowest.lt_64 {w t : ℕ} (h : IsLowest w t) (hw : w < 2 ^ 64) : t < 64 := by
  by_contra ht
  have := Nat.testBit_lt_two_pow (lt_of_lt_of_le hw (Nat.pow_le_pow_right (by omega)
    (by omega : 64 ≤ t)))
  simp [h.1] at this

lemma ffs_eq {w t : ℕ} (h : IsLowest w t) (hw : w < 2 ^ 64) : ffs w = t + 1 := by
  have hf : (List.range 64).find? (w.testBit ·) = some t := by
    rw [List.find?_range_eq_some]
    refine ⟨h.1, List.mem_range.mpr (h.lt_64 hw), fun j hj => ?_⟩
    simp [h.2 j hj]
  simp [ffs, hf]

/-- A word is a multiple of `2 ^ (t + 1)` and the power `2 ^ t` of its lowest set bit. -/
lemma IsLowest.eq_add {w t : ℕ} (h : IsLowest w t) :
    w = 2 ^ (t + 1) * (w / 2 ^ (t + 1)) + 2 ^ t := by
  have hmod : w % 2 ^ (t + 1) = 2 ^ t := by
    apply Nat.eq_of_testBit_eq
    intro i
    rw [Nat.testBit_mod_two_pow, Nat.testBit_two_pow]
    rcases lt_trichotomy i t with hi | rfl | hi
    · simp [h.2 i hi, show t ≠ i by omega]
    · simp [h.1]
    · simp [show ¬ i < t + 1 by omega, show t ≠ i by omega]
  have := Nat.div_add_mod w (2 ^ (t + 1))
  omega

lemma testBit_pred {w t : ℕ} (h : IsLowest w t) (i : ℕ) :
    (w - 1).testBit i = if i < t then true else if i = t then false else w.testBit i := by
  have hpos : 0 < 2 ^ t := Nat.two_pow_pos t
  have hlt : 2 ^ t < 2 ^ (t + 1) := Nat.pow_lt_pow_right (by omega) (by omega)
  have hpred : w - 1 = 2 ^ (t + 1) * (w / 2 ^ (t + 1)) + (2 ^ t - 1) := by
    have := h.eq_add
    omega
  rw [hpred, Nat.testBit_two_pow_mul_add _ (by omega : 2 ^ t - 1 < 2 ^ (t + 1)),
    Nat.testBit_two_pow_sub_one, Nat.testBit_div_two_pow]
  rcases lt_trichotomy i t with hi | rfl | hi
  · simp [hi, show i < t + 1 by omega]
  · simp
  · simp [show ¬ i < t + 1 by omega, show ¬ i < t by omega, show i ≠ t by omega,
      show i - (t + 1) + (t + 1) = i by omega]

lemma testBit_clearLowest {w t : ℕ} (h : IsLowest w t) (i : ℕ) :
    (clearLowest w).testBit i = (w.testBit i && i != t) := by
  rw [clearLowest, Nat.testBit_and, testBit_pred h]
  rcases lt_trichotomy i t with hi | rfl | hi
  · simp [h.2 i hi]
  · simp
  · simp [show ¬ i < t by omega, show i ≠ t by omega]

lemma clearLowest_lt {w : ℕ} (hw : w < 2 ^ 64) : clearLowest w < 2 ^ 64 :=
  lt_of_le_of_lt Nat.and_le_left hw

/-! ### Levels -/

/-- Word `j` of level `k`. -/
abbrev Levels := ℕ → ℕ → ℕ

/-- Bit `i` of level `k`. -/
def bit (L : Levels) (k i : ℕ) : Bool := (L k (i / 64)).testBit (i % 64)

/-- The levels below `n` agree: a bit is set exactly when the word it summarises is not zero. -/
structure Consistent (n : ℕ) (L : Levels) : Prop where
  word_lt : ∀ k < n, ∀ j, L k j < 2 ^ 64
  bit_iff : ∀ k, k + 1 < n → ∀ i, bit L (k + 1) i ↔ L k i ≠ 0

/-- Following lowest set bits from word `out` of level `k - 1` down to a bit of level `0`. -/
def descend (L : Levels) : ℕ → ℕ → ℕ
  | 0, out => out
  | k + 1, out => descend L k (64 * out + (ffs (L k out) - 1))

/-- On every level below `n`, index `x` is reached through the lowest set bit of its word. -/
def OnPath (n : ℕ) (L : Levels) (x : ℕ) : Prop :=
  ∀ k < n, IsLowest (L k (x / 64 ^ (k + 1))) (x / 64 ^ k % 64)

/-- **Descending.** From a nonzero word the descent ends at an index on whose path only lowest
set bits lie, and which belongs to that word. -/
theorem descend_spec {n : ℕ} {L : Levels} (hL : Consistent n L) :
    ∀ {k out : ℕ}, k + 1 ≤ n → L k out ≠ 0 →
      OnPath (k + 1) L (descend L (k + 1) out) ∧ descend L (k + 1) out / 64 ^ (k + 1) = out := by
  intro k
  induction k with
  | zero =>
    intro out hk hw
    obtain ⟨t, ht⟩ := exists_isLowest hw
    have ht64 := ht.lt_64 (hL.word_lt 0 hk out)
    have hx : descend L 1 out = 64 * out + t := by
      simp [descend, ffs_eq ht (hL.word_lt 0 hk out)]
    refine ⟨fun j hj => ?_, by rw [hx]; omega⟩
    obtain rfl : j = 0 := by omega
    rw [hx, zero_add, pow_one, pow_zero, Nat.div_one, show (64 * out + t) / 64 = out by omega,
      show (64 * out + t) % 64 = t by omega]
    exact ht
  | succ k ih =>
    intro out hk hw
    obtain ⟨t, ht⟩ := exists_isLowest hw
    have hlt := hL.word_lt (k + 1) hk out
    have ht64 := ht.lt_64 hlt
    -- the chosen bit summarises a nonzero word one level down
    have hnext : L k (64 * out + t) ≠ 0 := by
      rw [← hL.bit_iff k hk, bit, show (64 * out + t) / 64 = out by omega,
        show (64 * out + t) % 64 = t by omega]
      exact ht.1
    have hx : descend L (k + 2) out = descend L (k + 1) (64 * out + t) := by
      conv_lhs => rw [descend]
      rw [ffs_eq ht hlt, Nat.add_sub_cancel]
    obtain ⟨hpath, hdiv⟩ := ih (by omega) hnext
    rw [hx]
    have hdiv' : descend L (k + 1) (64 * out + t) / 64 ^ (k + 2) = out := by
      rw [pow_succ, ← Nat.div_div_eq_div_mul, hdiv]
      omega
    refine ⟨fun j hj => ?_, hdiv'⟩
    rcases Nat.lt_succ_iff_lt_or_eq.mp hj with hj | rfl
    · exact hpath j hj
    · rw [hdiv', hdiv, show (64 * out + t) % 64 = t by omega]
      exact ht

lemma OnPath.bit_zero {n : ℕ} {L : Levels} {x : ℕ} (h : OnPath (n + 1) L x) : bit L 0 x := by
  have := (h 0 (by omega)).1
  simpa [bit] using this

/-! ### Taking an index -/

/-- Replacing word `j` of level `k`. -/
def setWord (L : Levels) (k j w : ℕ) : Levels :=
  fun k' j' => if k' = k ∧ j' = j then w else L k' j'

@[simp] lemma setWord_same (L : Levels) (k j w : ℕ) : setWord L k j w k j = w := by
  simp [setWord]

lemma setWord_of_level_ne {L : Levels} {k k' : ℕ} (h : k' ≠ k) (j w : ℕ) :
    setWord L k j w k' = L k' := by
  funext j'
  simp [setWord, h]

lemma setWord_of_word_ne {L : Levels} {j j' : ℕ} (h : j' ≠ j) (k k' w : ℕ) :
    setWord L k j w k' j' = L k' j' := by
  simp [setWord, h]

/-- Clearing the bit of `x` on level `k` and, while zero words are left behind, on the next
`m - 1` levels. The flag says that the last word was left zero as well. -/
def clearFrom (x : ℕ) : ℕ → ℕ → Levels → Levels × Bool
  | 0, _, L => (L, true)
  | m + 1, k, L =>
    let w := clearLowest (L k (x / 64 ^ (k + 1)))
    let L' := setWord L k (x / 64 ^ (k + 1)) w
    if w ≠ 0 then (L', false) else clearFrom x m (k + 1) L'

/-- The levels below `n` agree, but for the bit of `x` on level `k`: it is still set over a
word that has become zero. -/
structure Stale (n k x : ℕ) (L : Levels) : Prop where
  word_lt : ∀ j < n, ∀ i, L j i < 2 ^ 64
  bit_iff : ∀ j, j + 1 < n → ∀ i, (j + 1 = k → i ≠ x / 64 ^ k) → (bit L (j + 1) i ↔ L j i ≠ 0)
  zero : ∀ j, j + 1 = k → L j (x / 64 ^ k) = 0
  path : ∀ j, k ≤ j → j < n → IsLowest (L j (x / 64 ^ (j + 1))) (x / 64 ^ j % 64)

lemma Consistent.stale {n x : ℕ} {L : Levels} (hL : Consistent n L) (hx : OnPath n L x) :
    Stale n 0 x L where
  word_lt := hL.word_lt
  bit_iff := fun j hj i _ => hL.bit_iff j hj i
  zero := fun j hj => absurd hj (by omega)
  path := fun j _ hj => hx j hj

lemma div_pow_succ (x k : ℕ) : x / 64 ^ (k + 1) = x / 64 ^ k / 64 := by
  rw [pow_succ, Nat.div_div_eq_div_mul]

/-- What clearing the bit of `x` does to the bits of its level. -/
lemma bit_setWord_clearLowest {L : Levels} {x k : ℕ}
    (h : IsLowest (L k (x / 64 ^ (k + 1))) (x / 64 ^ k % 64)) (i : ℕ) :
    bit (setWord L k (x / 64 ^ (k + 1)) (clearLowest (L k (x / 64 ^ (k + 1))))) k i
      = (bit L k i && i != x / 64 ^ k) := by
  by_cases hi : i / 64 = x / 64 ^ (k + 1)
  · have hx := div_pow_succ x k
    simp only [bit, hi, setWord_same, testBit_clearLowest h]
    have hmod : (i % 64 != x / 64 ^ k % 64) = (i != x / 64 ^ k) := by
      rw [Bool.eq_iff_iff, bne_iff_ne, bne_iff_ne]
      omega
    rw [hmod]
  · have hne : i ≠ x / 64 ^ k := by
      rintro rfl
      exact hi (div_pow_succ x k).symm
    simp [bit, setWord_of_word_ne hi, hne]

lemma bit_setWord_of_level_ne {L : Levels} {k k' : ℕ} (h : k' ≠ k) (j w i : ℕ) :
    bit (setWord L k j w) k' i = bit L k' i := by
  simp [bit, setWord_of_level_ne h]

lemma Stale.step {n k x : ℕ} {L : Levels} (h : Stale n k x L) (hk : k < n) :
    let w := clearLowest (L k (x / 64 ^ (k + 1)))
    let L' := setWord L k (x / 64 ^ (k + 1)) w
    (w ≠ 0 → Consistent n L') ∧ (w = 0 → Stale n (k + 1) x L') := by
  intro w L'
  have hlow := h.path k le_rfl hk
  have hlt : ∀ j < n, ∀ i, L' j i < 2 ^ 64 := by
    intro j hj i
    by_cases hji : j = k ∧ i = x / 64 ^ (k + 1)
    · rw [show L' j i = w by simp [L', hji]]
      exact clearLowest_lt (h.word_lt k hk _)
    · rw [show L' j i = L j i by simp [L', setWord, hji]]
      exact h.word_lt j hj i
  -- every summary but that of the word just written is right
  have hbit : ∀ j, j + 1 < n → ∀ i, (j + 1 = k + 1 → i ≠ x / 64 ^ (k + 1)) →
      (bit L' (j + 1) i ↔ L' j i ≠ 0) := by
    intro j hj i hi
    rcases eq_or_ne (j + 1) k with hjk | hjk
    · rw [show L' j = L j from setWord_of_level_ne (by omega) _ _, hjk,
        bit_setWord_clearLowest hlow]
      by_cases hix : i = x / 64 ^ k
      · simp [hix, h.zero j hjk]
      · have := h.bit_iff j hj i (fun _ => hix)
        rw [hjk] at this
        simp [hix, this]
    · rw [bit_setWord_of_level_ne hjk, h.bit_iff j hj i (fun hc => absurd hc hjk)]
      rcases eq_or_ne j k with rfl | hne
      · rw [show L' j i = L j i from setWord_of_word_ne (hi rfl) _ _ _]
      · rw [show L' j = L j from setWord_of_level_ne hne _ _]
  constructor
  · intro hw
    refine ⟨hlt, fun j hj i => ?_⟩
    by_cases hi : j + 1 = k + 1 ∧ i = x / 64 ^ (k + 1)
    · obtain ⟨hjk, rfl⟩ := hi
      obtain rfl : j = k := by omega
      rw [bit_setWord_of_level_ne (by omega), h.bit_iff j hj _ (fun hc => by omega)]
      simp [L', hw, hlow.ne_zero]
    · exact hbit j hj i (fun hc hc' => hi ⟨hc, hc'⟩)
  · intro hw
    refine ⟨hlt, hbit, ?_, ?_⟩
    · intro j hj
      obtain rfl : j = k := by omega
      simp [L', hw]
    · intro j hkj hj
      rw [show L' j = L j from setWord_of_level_ne (by omega) _ _]
      exact h.path j (by omega) hj

/-- What clearing `x` from level `k` on leaves behind. -/
structure Cleared (n k x : ℕ) (L L' : Levels) (emptied : Bool) : Prop where
  consistent : Consistent n L'
  below : ∀ j < k, L' j = L j
  bits : ∀ i, bit L' k i = (bit L k i && i != x / 64 ^ k)
  top : ∀ j, j + 1 = n → ∀ i, i ≠ x / 64 ^ n → L' j i = L j i
  emptied : ∀ j, j + 1 = n → (emptied ↔ L' j (x / 64 ^ n) = 0)

lemma Stale.cleared_of_ne {n k x : ℕ} {L : Levels} (h : Stale n k x L) (hk : k < n)
    (hw : clearLowest (L k (x / 64 ^ (k + 1))) ≠ 0) :
    Cleared n k x L
      (setWord L k (x / 64 ^ (k + 1)) (clearLowest (L k (x / 64 ^ (k + 1))))) false where
  consistent := (h.step hk).1 hw
  below := fun j hj => setWord_of_level_ne (by omega) _ _
  bits := bit_setWord_clearLowest (h.path k le_rfl hk)
  top := by
    intro j hj i hi
    subst hj
    rcases eq_or_ne j k with rfl | hjk
    · exact setWord_of_word_ne hi _ _ _
    · rw [setWord_of_level_ne hjk]
  emptied := by
    intro j hj
    subst hj
    rcases eq_or_ne j k with rfl | hjk
    · simp [hw]
    · rw [setWord_of_level_ne hjk]
      simpa using (h.path j (by omega) (by omega)).ne_zero

lemma clearFrom_cleared {n x : ℕ} : ∀ {m k : ℕ} {L : Levels}, k + (m + 1) = n → Stale n k x L →
    Cleared n k x L (clearFrom x (m + 1) k L).1 (clearFrom x (m + 1) k L).2 := by
  intro m
  induction m with
  | zero =>
    intro k L hn h
    by_cases hw : clearLowest (L k (x / 64 ^ (k + 1))) = 0
    · -- the top word has become zero: no summary is left to be stale
      have hs := (h.step (by omega)).2 hw
      have he : clearFrom x 1 k L = (setWord L k (x / 64 ^ (k + 1)) 0, true) := by
        simp [clearFrom, hw]
      rw [hw] at hs
      rw [he]
      subst hn
      refine ⟨⟨hs.word_lt, fun j hj i => hs.bit_iff j hj i (fun hc => by omega)⟩,
        fun j hj => setWord_of_level_ne (by omega) _ _, ?_, ?_, ?_⟩
      · rw [← hw]
        exact bit_setWord_clearLowest (h.path k le_rfl (by omega))
      · intro j hj i hi
        exact setWord_of_word_ne (by simpa using hi) _ _ _
      · intro j hj
        obtain rfl : j = k := by omega
        simp
    · have he : clearFrom x 1 k L = (setWord L k (x / 64 ^ (k + 1))
          (clearLowest (L k (x / 64 ^ (k + 1)))), false) := by
        simp [clearFrom, hw]
      rw [he]
      exact h.cleared_of_ne (by omega) hw
  | succ m ih =>
    intro k L hn h
    by_cases hw : clearLowest (L k (x / 64 ^ (k + 1))) = 0
    · have hs := (h.step (by omega)).2 hw
      rw [hw] at hs
      have hc := ih (by omega) hs
      have he : clearFrom x (m + 2) k L
          = clearFrom x (m + 1) (k + 1) (setWord L k (x / 64 ^ (k + 1)) 0) := by
        conv_lhs => rw [clearFrom]
        simp [hw]
      rw [he]
      refine ⟨hc.consistent, fun j hj => ?_, fun i => ?_, fun j hj i hi => ?_, hc.emptied⟩
      · rw [hc.below j (by omega), setWord_of_level_ne (by omega)]
      · have hbit := bit_setWord_clearLowest (h.path k le_rfl (by omega)) i
        rw [← hbit, hw, bit, hc.below k (by omega), bit]
      · rw [hc.top j hj i hi, setWord_of_level_ne (by omega)]
    · have he : clearFrom x (m + 2) k L = (setWord L k (x / 64 ^ (k + 1))
          (clearLowest (L k (x / 64 ^ (k + 1)))), false) := by
        conv_lhs => rw [clearFrom]
        simp [hw]
      rw [he]
      exact h.cleared_of_ne (by omega) hw

/-- **Taking an index.** From levels that agree and a nonzero word of the top level, the index
found was set, it is the only one cleared, and the levels still agree. -/
theorem take_spec {m h : ℕ} {L : Levels} (hL : Consistent (m + 1) L) (hh : L m h ≠ 0) :
    let x := descend L (m + 1) h
    let r := clearFrom x (m + 1) 0 L
    bit L 0 x ∧ x / 64 ^ (m + 1) = h ∧ Cleared (m + 1) 0 x L r.1 r.2 := by
  intro x r
  obtain ⟨hpath, hdiv⟩ := descend_spec hL le_rfl hh
  exact ⟨hpath.bit_zero, hdiv, clearFrom_cleared (by omega) (hL.stale hpath)⟩

/-- The descent from word `0` through words whose lowest bit is set ends at index `0`. -/
lemma descend_zero {n : ℕ} {L : Levels} (hlt : ∀ k < n, L k 0 < 2 ^ 64)
    (h : ∀ k < n, IsLowest (L k 0) 0) : descend L n 0 = 0 := by
  induction n with
  | zero => rfl
  | succ n ih =>
    rw [descend, ffs_eq (h n (by omega)) (hlt n (by omega))]
    exact ih (fun k hk => hlt k (by omega)) (fun k hk => h k (by omega))

/-! ### Giving an index back -/

/-- Setting the bit of `x` on level `k` and on the next `m - 1` levels, up to the first one that
is set already. -/
def setFrom (x : ℕ) : ℕ → ℕ → Levels → Levels
  | 0, _, L => L
  | m + 1, k, L =>
    if bit L k (x / 64 ^ k) then L
    else setFrom x m (k + 1)
      (setWord L k (x / 64 ^ (k + 1)) (L k (x / 64 ^ (k + 1)) ||| 2 ^ (x / 64 ^ k % 64)))

/-- The levels below `n` agree, but for the bit of `x` on level `k`: it may be clear over a word
that is not zero. -/
structure Pending (n k x : ℕ) (L : Levels) : Prop where
  word_lt : ∀ j < n, ∀ i, L j i < 2 ^ 64
  bit_iff : ∀ j, j + 1 < n → ∀ i, (j + 1 = k → i ≠ x / 64 ^ k) → (bit L (j + 1) i ↔ L j i ≠ 0)
  ne_zero : ∀ j, j + 1 = k → L j (x / 64 ^ k) ≠ 0

lemma Consistent.pending {n : ℕ} {L : Levels} (hL : Consistent n L) (x : ℕ) :
    Pending n 0 x L where
  word_lt := hL.word_lt
  bit_iff := fun j hj i _ => hL.bit_iff j hj i
  ne_zero := fun j hj => absurd hj (by omega)

lemma Pending.consistent {n k x : ℕ} {L : Levels} (h : Pending n k x L)
    (hbit : bit L k (x / 64 ^ k)) : Consistent n L where
  word_lt := h.word_lt
  bit_iff := by
    intro j hj i
    by_cases hi : j + 1 = k ∧ i = x / 64 ^ k
    · obtain ⟨rfl, rfl⟩ := hi
      exact iff_of_true hbit (h.ne_zero j rfl)
    · exact h.bit_iff j hj i fun hk hx => hi ⟨hk, hx⟩

/-- What setting the bit of `x` does to the bits of its level. -/
lemma bit_setWord_or (L : Levels) (x k i : ℕ) :
    bit (setWord L k (x / 64 ^ (k + 1)) (L k (x / 64 ^ (k + 1)) ||| 2 ^ (x / 64 ^ k % 64))) k i
      = (bit L k i || i == x / 64 ^ k) := by
  have hx := div_pow_succ x k
  by_cases hi : i / 64 = x / 64 ^ (k + 1)
  · have hmod : decide (x / 64 ^ k % 64 = i % 64) = (i == x / 64 ^ k) := by
      rw [Bool.eq_iff_iff, decide_eq_true_iff, beq_iff_eq]
      omega
    rw [bit, bit, hi, setWord_same, Nat.testBit_or, Nat.testBit_two_pow, hmod]
  · have hne : i ≠ x / 64 ^ k := by
      rintro rfl
      exact hi hx.symm
    rw [bit, bit, setWord_of_word_ne hi, beq_eq_false_iff_ne.mpr hne, Bool.or_false]

lemma or_two_pow_ne_zero (w t : ℕ) : w ||| 2 ^ t ≠ 0 := by
  intro h
  have hbit : (w ||| 2 ^ t).testBit t = true := by simp
  rw [h, Nat.zero_testBit] at hbit
  cases hbit

lemma Pending.step {n k x : ℕ} {L : Levels} (h : Pending n k x L) (hk : k < n) :
    Pending n (k + 1) x
      (setWord L k (x / 64 ^ (k + 1)) (L k (x / 64 ^ (k + 1)) ||| 2 ^ (x / 64 ^ k % 64))) where
  word_lt := by
    intro j hj i
    rw [setWord]
    split
    · refine Nat.or_lt_two_pow (h.word_lt k hk _) ?_
      exact Nat.pow_lt_pow_right (by omega) (Nat.mod_lt _ (by omega))
    · exact h.word_lt j hj i
  bit_iff := by
    intro j hj i hi
    rcases eq_or_ne (j + 1) k with rfl | hjk
    · rw [bit_setWord_or, setWord_of_level_ne (by omega), Bool.or_eq_true, beq_iff_eq]
      by_cases hix : i = x / 64 ^ (j + 1)
      · exact iff_of_true (.inr hix) (hix ▸ h.ne_zero j rfl)
      · rw [or_iff_left hix]
        exact h.bit_iff j hj i fun _ => hix
    · rw [bit_setWord_of_level_ne hjk, h.bit_iff j hj i fun hc => absurd hc hjk]
      rcases eq_or_ne j k with rfl | hne
      · rw [setWord_of_word_ne (hi rfl)]
      · rw [setWord_of_level_ne hne]
  ne_zero := by
    intro j hj
    obtain rfl : j = k := by omega
    rw [setWord_same]
    exact or_two_pow_ne_zero _ _

lemma setFrom_below (x : ℕ) {m k j : ℕ} (L : Levels) (hj : j < k) :
    setFrom x m k L j = L j := by
  induction m generalizing k L with
  | zero => rfl
  | succ m ih =>
    rw [setFrom]
    split
    · rfl
    · rw [ih _ (by omega), setWord_of_level_ne (by omega)]

/-- On the first level exactly the bit of `x` is set, whatever the levels are. -/
lemma bit_setFrom (x m k : ℕ) (L : Levels) (i : ℕ) :
    bit (setFrom x (m + 1) k L) k i = (bit L k i || i == x / 64 ^ k) := by
  rw [setFrom]
  split
  · rename_i hbit
    by_cases hi : i = x / 64 ^ k
    · rw [hi, hbit, Bool.true_or]
    · rw [beq_eq_false_iff_ne.mpr hi, Bool.or_false]
  · rw [bit, setFrom_below x _ (by omega)]
    exact bit_setWord_or L x k i

/-- What giving `x` back leaves behind, apart from the bits that are set for it. -/
structure Given (n x : ℕ) (L L' : Levels) : Prop where
  consistent : Consistent n L'
  top : ∀ j, j + 1 = n → ∀ i, i ≠ x / 64 ^ n → L' j i = L j i
  top_ne_zero : ∀ j, j + 1 = n → L' j (x / 64 ^ n) ≠ 0

lemma Consistent.ne_zero_above {n k x : ℕ} {L : Levels} (hL : Consistent n L)
    (h : L k (x / 64 ^ (k + 1)) ≠ 0) {j : ℕ} (hkj : k ≤ j) (hj : j < n) :
    L j (x / 64 ^ (j + 1)) ≠ 0 := by
  induction j, hkj using Nat.le_induction with
  | base => exact h
  | succ j hkj ih =>
    have hbit := (hL.bit_iff j hj _).mpr (ih (by omega))
    intro hzero
    rw [bit, ← div_pow_succ, hzero, Nat.zero_testBit] at hbit
    cases hbit

lemma Consistent.given {n k x : ℕ} {L : Levels} (hL : Consistent n L) (hk : k < n)
    (hbit : bit L k (x / 64 ^ k)) : Given n x L L where
  consistent := hL
  top := fun _ _ _ _ => rfl
  top_ne_zero := by
    rintro j rfl
    refine hL.ne_zero_above (k := k) ?_ (by omega) (by omega)
    intro hzero
    rw [bit, ← div_pow_succ, hzero, Nat.zero_testBit] at hbit
    cases hbit

lemma setFrom_given {n x : ℕ} : ∀ {m k : ℕ} {L : Levels}, k + (m + 1) = n → Pending n k x L →
    Given n x L (setFrom x (m + 1) k L) := by
  intro m
  induction m with
  | zero =>
    intro k L hn h
    rw [setFrom]
    split
    · rename_i hbit
      exact (h.consistent hbit).given (by omega) hbit
    · have hs := h.step (by omega)
      subst hn
      exact ⟨⟨hs.word_lt, fun j hj i => hs.bit_iff j hj i fun hc => by omega⟩,
        fun j _ i hi => setWord_of_word_ne hi _ _ _, fun j hj => hs.ne_zero j hj⟩
  | succ m ih =>
    intro k L hn h
    rw [setFrom]
    split
    · rename_i hbit
      exact (h.consistent hbit).given (by omega) hbit
    · have hg := ih (by omega) (h.step (by omega))
      refine ⟨hg.consistent, fun j hj i hi => ?_, hg.top_ne_zero⟩
      rw [hg.top j hj i hi, setWord_of_level_ne (by omega)]

/-- **Giving an index back.** The levels still agree. -/
theorem give_spec {m : ℕ} {L : Levels} (hL : Consistent (m + 1) L) (x : ℕ) :
    Given (m + 1) x L (setFrom x (m + 1) 0 L) :=
  setFrom_given (by omega) (hL.pending x)

end KernelModel.HierBitmap
