import Mathlib.Data.Nat.Bitwise
import Mathlib.Tactic

/-!
Tilings by blocks of two-power lengths.

A block has an order; its length is the two-power of it, and it starts at a multiple of its length.
Two blocks of one order are buddies if they are the halves of a block of the next order. A tiling
without buddies consists of the largest blocks that there is room for, so there is only one.
-/

namespace KernelModel.DyadicTiling

/-- The orders of blocks, by the places where they start. -/
abbrev Blocks := ℕ → Option ℕ

/-- A block with a place in it. -/
structure Holds (t : Blocks) (p i x : ℕ) : Prop where
  block : t p = some i
  le : p ≤ x
  lt : x < p + 2 ^ i

/-- The blocks are aligned, no larger than of order `m`, and cover every place of `R` once. -/
structure Tiles (m : ℕ) (R : Set ℕ) (t : Blocks) : Prop where
  aligned : ∀ p i, t p = some i → 2 ^ i ∣ p
  order_le : ∀ p i, t p = some i → i ≤ m
  cover : ∀ x, x ∈ R ↔ ∃ p i, Holds t p i x
  unique : ∀ p q i j x, Holds t p i x → Holds t q j x → p = q

/-- The place where the block of an order starts that a place is in. -/
def start (i x : ℕ) : ℕ := x / 2 ^ i * 2 ^ i

variable {m i j k p q x y : ℕ} {R : Set ℕ} {t : Blocks}

/-! ### Places -/

lemma start_eq_iff (hp : 2 ^ i ∣ p) : start i x = p ↔ p ≤ x ∧ x < p + 2 ^ i := by
  obtain ⟨k, rfl⟩ := hp
  have hpos : 0 < 2 ^ i := Nat.two_pow_pos i
  rw [start, Nat.mul_comm (2 ^ i) k, Nat.mul_left_inj hpos.ne', Nat.div_eq_iff hpos]
  have hsub : k * 2 ^ i + 2 ^ i - 1 = k * 2 ^ i + (2 ^ i - 1) := by omega
  constructor
  · rintro ⟨hlo, hhi⟩
    exact ⟨hlo, by omega⟩
  · rintro ⟨hlo, hhi⟩
    exact ⟨hlo, by omega⟩

lemma start_self (hp : 2 ^ i ∣ p) : start i p = p :=
  (start_eq_iff hp).mpr ⟨le_rfl, Nat.lt_add_of_pos_right (Nat.two_pow_pos i)⟩

lemma start_le (i x : ℕ) : start i x ≤ x := Nat.div_mul_le_self x _

lemma start_start (h : i ≤ k) (x : ℕ) : start k (start i x) = start k x := by
  obtain ⟨d, rfl⟩ := Nat.exists_eq_add_of_le h
  rw [start, start, start, Nat.pow_add, ← Nat.div_div_eq_div_mul, ← Nat.div_div_eq_div_mul,
    Nat.mul_div_cancel _ (Nat.two_pow_pos i)]

lemma start_congr (h : i ≤ k) (hxy : start i x = start i y) : start k x = start k y := by
  rw [← start_start h x, hxy, start_start h]

/-! ### Buddies -/

/-- **The buddy** of an aligned block is the other half. -/
lemma buddy_cases (hp : 2 ^ i ∣ p) :
    (p.testBit i = false ∧ p ^^^ 2 ^ i = p + 2 ^ i ∧ 2 ^ (i + 1) ∣ p) ∨
    (p.testBit i = true ∧ 2 ^ i ≤ p ∧ p ^^^ 2 ^ i = p - 2 ^ i ∧ 2 ^ (i + 1) ∣ p - 2 ^ i) := by
  obtain ⟨k, rfl⟩ := hp
  have hbit : (2 ^ i * k).testBit i = decide (k % 2 = 1) := by
    rw [Nat.testBit_two_pow_mul, Nat.sub_self, Nat.testBit_zero]
    simp
  have hxor : 2 ^ i * k ^^^ 2 ^ i = 2 ^ i * (k ^^^ 1) := by
    have h := Nat.shiftLeft_xor_distrib (a := k) (b := 1) (i := i)
    rw [Nat.shiftLeft_eq, Nat.shiftLeft_eq, Nat.shiftLeft_eq, Nat.one_mul] at h
    rw [Nat.mul_comm, ← h, Nat.mul_comm]
  rcases Nat.even_or_odd' k with ⟨c, rfl | rfl⟩
  · left
    have hone : 2 * c ^^^ 1 = 2 * c + 1 := by
      rw [Nat.xor_one_of_even (even_two_mul c)]
    refine ⟨by rw [hbit]; simp, ?_, ?_⟩
    · rw [hxor, hone]
      ring
    · exact ⟨c, by ring⟩
  · right
    have hone : (2 * c + 1) ^^^ 1 = 2 * c := by
      rw [Nat.xor_one_of_odd (odd_two_mul_add_one c)]
      omega
    have hexpand : 2 ^ i * (2 * c + 1) = 2 ^ i * (2 * c) + 2 ^ i := by ring
    refine ⟨by rw [hbit]; simp, by omega, ?_, ?_⟩
    · rw [hxor, hone]
      omega
    · rw [hexpand, Nat.add_sub_cancel]
      exact ⟨c, by ring⟩

lemma buddy_dvd (hp : 2 ^ i ∣ p) : 2 ^ i ∣ p ^^^ 2 ^ i := by
  rcases buddy_cases hp with ⟨-, hb, -⟩ | ⟨-, -, hb, -⟩
  · rw [hb]
    exact Nat.dvd_add hp dvd_rfl
  · rw [hb]
    exact Nat.dvd_sub hp dvd_rfl

lemma buddy_ne (hp : 2 ^ i ∣ p) : p ^^^ 2 ^ i ≠ p := by
  have hpos := Nat.two_pow_pos i
  rcases buddy_cases hp with ⟨-, hb, -⟩ | ⟨-, hle, hb, -⟩ <;> omega

lemma start_buddy (hp : 2 ^ i ∣ p) : start (i + 1) (p ^^^ 2 ^ i) = start (i + 1) p := by
  have hpos := Nat.two_pow_pos i
  have hdouble : 2 ^ (i + 1) = 2 * 2 ^ i := by ring
  rcases buddy_cases hp with ⟨-, hb, hdvd⟩ | ⟨-, hle, hb, hdvd⟩
  · rw [hb, (start_eq_iff hdvd).mpr ⟨le_rfl, by omega⟩,
      (start_eq_iff hdvd).mpr ⟨by omega, by omega⟩]
  · rw [hb, (start_eq_iff hdvd).mpr ⟨le_rfl, by omega⟩,
      (start_eq_iff hdvd).mpr ⟨by omega, by omega⟩]

/-! ### Blocks of a tiling -/

lemma Holds.self (h : t p = some i) : Holds t p i p :=
  ⟨h, le_rfl, Nat.lt_add_of_pos_right (Nat.two_pow_pos i)⟩

lemma Tiles.start_eq (h : Tiles m R t) (hx : Holds t p i x) : start i x = p :=
  (start_eq_iff (h.aligned p i hx.block)).mpr ⟨hx.le, hx.lt⟩

lemma Tiles.holds_of_start (h : Tiles m R t) (hp : t p = some i) (hx : start i x = p) :
    Holds t p i x :=
  have hmem := (start_eq_iff (h.aligned p i hp)).mp hx
  ⟨hp, hmem.1, hmem.2⟩

lemma Tiles.eq_of_mem (h : Tiles m R t) (hp : t p = some i) (hq : t q = some j) (hle : p ≤ q)
    (hlt : q < p + 2 ^ i) : p = q :=
  h.unique p q i j q ⟨hp, hle, hlt⟩ (Holds.self hq)

/-! ### Tilings without buddies -/

/-- There are no two halves of a block that would not be too large. -/
def NoBuddies (m : ℕ) (t : Blocks) : Prop :=
  ∀ p i, i < m → t p = some i → t (p ^^^ 2 ^ i) ≠ some i

/-- **The blocks are as large as there is room for**: where the places of an aligned block are all
in the tiling, they are in blocks of no smaller order. -/
theorem Tiles.maximal (h : Tiles m R t) (hbuddies : NoBuddies m t) (hx : Holds t p i x) (hk : k ≤ m)
    (hroom : ∀ y, start k y = start k x → y ∈ R) : k ≤ i := by
  by_contra hlt
  -- the smallest block in there
  have hex : ∃ j q y, Holds t q j y ∧ start k y = start k x := ⟨i, p, x, hx, rfl⟩
  classical
  obtain ⟨q, y, hq, hy⟩ := Nat.find_spec hex
  have hmin : ∀ j' q' y', Holds t q' j' y' → start k y' = start k x → Nat.find hex ≤ j' :=
    fun j' q' y' hq' hy' => Nat.find_min' hex ⟨q', y', hq', hy'⟩
  set j := Nat.find hex
  have hjk : j < k := lt_of_le_of_lt (hmin i p x hx rfl) (Nat.lt_of_not_le hlt)
  have hqdvd := h.aligned q j hq.block
  have hqy : start k q = start k x := by
    rw [← h.start_eq hq, start_start hjk.le, hy]
  -- its buddy is in there too
  have hparent := start_buddy hqdvd
  have hbuddy : start k (q ^^^ 2 ^ j) = start k x :=
    (start_congr hjk hparent).trans hqy
  obtain ⟨q', j', hq'⟩ := (h.cover _).mp (hroom _ hbuddy)
  rcases (hmin j' q' _ hq' hbuddy).eq_or_lt with heq | hlarger
  · rw [← heq] at hq'
    have hstart : q' = q ^^^ 2 ^ j := by
      rw [← h.start_eq hq', start_self (buddy_dvd hqdvd)]
    rw [hstart] at hq'
    exact hbuddies q j (lt_of_lt_of_le hjk hk) hq.block hq'.block
  · -- a larger block there would contain this one
    have hboth : start j' q = q' := by
      rw [← h.start_eq hq']
      exact (start_congr hlarger hparent).symm
    have heq : q' = q :=
      h.unique q' q j' j q (h.holds_of_start hq'.block hboth) (Holds.self hq.block)
    rw [heq] at hq'
    have hsame := hq'.block
    rw [hq.block] at hsame
    exact hlarger.ne (Option.some.inj hsame)

/-- **There is one tiling without buddies.** -/
theorem Tiles.eq_of_noBuddies {t' : Blocks} (h : Tiles m R t) (h' : Tiles m R t')
    (hb : NoBuddies m t) (hb' : NoBuddies m t') : t = t' := by
  have hroom : ∀ {t : Blocks} {p i x}, Tiles m R t → Holds t p i x →
      ∀ y, start i y = start i x → y ∈ R := by
    intro t p i x h hx y hy
    rw [h.start_eq hx] at hy
    exact (h.cover y).mpr ⟨p, i, h.holds_of_start hx.block hy⟩
  have hsub : ∀ {t t' : Blocks}, Tiles m R t → Tiles m R t' → NoBuddies m t → NoBuddies m t' →
      ∀ p i, t p = some i → t' p = some i := by
    intro t t' h h' hb hb' p i hp
    obtain ⟨q, j, hq⟩ := (h'.cover p).mp ((h.cover p).mpr ⟨p, i, Holds.self hp⟩)
    have hij := h'.maximal hb' hq (h.order_le p i hp) (hroom h (Holds.self hp))
    have hji := h.maximal hb (Holds.self hp) (h'.order_le q j hq.block) (hroom h' hq)
    obtain rfl : i = j := le_antisymm hij hji
    have hqp : q = p := by
      rw [← h'.start_eq hq, start_self (h.aligned p i hp)]
    rw [← hqp]
    exact hq.block
  funext p
  exact Option.ext fun i => ⟨hsub h h' hb hb' p i, hsub h' h hb' hb p i⟩

/-! ### Changes -/

/-- **A block is added** at free places. -/
theorem Tiles.add (h : Tiles m R t) (hdvd : 2 ^ i ∣ p) (hi : i ≤ m)
    (hfree : ∀ x, p ≤ x → x < p + 2 ^ i → x ∉ R) :
    Tiles m {x | x ∈ R ∨ p ≤ x ∧ x < p + 2 ^ i} (Function.update t p (some i)) := by
  have hpos := Nat.two_pow_pos i
  have hnone : ∀ j, t p ≠ some j := fun j hp =>
    hfree p le_rfl (by omega) ((h.cover p).mpr ⟨p, j, Holds.self hp⟩)
  have hcases : ∀ q j, Function.update t p (some i) q = some j ↔
      (q = p ∧ j = i) ∨ t q = some j := by
    intro q j
    by_cases hq : q = p
    · subst hq
      rw [Function.update_self, or_iff_left (hnone j), Option.some.injEq]
      exact ⟨fun h => ⟨rfl, h.symm⟩, fun h => h.2.symm⟩
    · rw [Function.update_of_ne hq, or_iff_right fun h => hq h.1]
  have hholds : ∀ q j x, Holds (Function.update t p (some i)) q j x ↔
      (q = p ∧ j = i ∧ p ≤ x ∧ x < p + 2 ^ i) ∨ Holds t q j x := by
    intro q j x
    constructor
    · rintro ⟨hb, hle, hlt⟩
      rcases (hcases q j).mp hb with ⟨rfl, rfl⟩ | hb
      · exact .inl ⟨rfl, rfl, hle, hlt⟩
      · exact .inr ⟨hb, hle, hlt⟩
    · rintro (⟨rfl, rfl, hle, hlt⟩ | ⟨hb, hle, hlt⟩)
      · exact ⟨(hcases q j).mpr (.inl ⟨rfl, rfl⟩), hle, hlt⟩
      · exact ⟨(hcases q j).mpr (.inr hb), hle, hlt⟩
  have hold : ∀ q j x, Holds t q j x → ¬ (p ≤ x ∧ x < p + 2 ^ i) := fun q j x hq hx =>
    hfree x hx.1 hx.2 ((h.cover x).mpr ⟨q, j, hq⟩)
  refine ⟨fun q j hq => ?_, fun q j hq => ?_, fun x => ?_, fun q q' j j' x hq hq' => ?_⟩
  · rcases (hcases q j).mp hq with ⟨rfl, rfl⟩ | hq
    · exact hdvd
    · exact h.aligned q j hq
  · rcases (hcases q j).mp hq with ⟨rfl, rfl⟩ | hq
    · exact hi
    · exact h.order_le q j hq
  · simp only [Set.mem_ofPred_eq, h.cover, hholds]
    constructor
    · rintro (⟨q, j, hq⟩ | hx)
      · exact ⟨q, j, .inr hq⟩
      · exact ⟨p, i, .inl ⟨rfl, rfl, hx⟩⟩
    · rintro ⟨q, j, ⟨-, -, hx⟩ | hq⟩
      · exact .inr hx
      · exact .inl ⟨q, j, hq⟩
  · rcases (hholds q j x).mp hq with ⟨hqp, -, hx⟩ | hold₁ <;>
      rcases (hholds q' j' x).mp hq' with ⟨hqp', -, hx'⟩ | hold₂
    · rw [hqp, hqp']
    · exact absurd hx (hold q' j' x hold₂)
    · exact absurd hx' (hold q j x hold₁)
    · exact h.unique q q' j j' x hold₁ hold₂

/-- **A block is taken away.** -/
theorem Tiles.remove (h : Tiles m R t) (hp : t p = some i) :
    Tiles m {x | x ∈ R ∧ ¬ (p ≤ x ∧ x < p + 2 ^ i)} (Function.update t p none) := by
  have hcases : ∀ q j, Function.update t p none q = some j ↔ q ≠ p ∧ t q = some j := by
    intro q j
    by_cases hq : q = p
    · subst hq
      rw [Function.update_self]
      simp
    · rw [Function.update_of_ne hq, and_iff_right hq]
  have hholds : ∀ q j x, Holds (Function.update t p none) q j x ↔ q ≠ p ∧ Holds t q j x := by
    intro q j x
    constructor
    · rintro ⟨hb, hle, hlt⟩
      obtain ⟨hne, hb⟩ := (hcases q j).mp hb
      exact ⟨hne, hb, hle, hlt⟩
    · rintro ⟨hne, hb, hle, hlt⟩
      exact ⟨(hcases q j).mpr ⟨hne, hb⟩, hle, hlt⟩
  refine ⟨fun q j hq => h.aligned q j ((hcases q j).mp hq).2,
    fun q j hq => h.order_le q j ((hcases q j).mp hq).2, fun x => ?_, fun q q' j j' x hq hq' =>
      h.unique q q' j j' x ((hholds q j x).mp hq).2 ((hholds q' j' x).mp hq').2⟩
  simp only [Set.mem_ofPred_eq, h.cover, hholds]
  constructor
  · rintro ⟨⟨q, j, hq⟩, hout⟩
    refine ⟨q, j, ?_, hq⟩
    rintro rfl
    have hsame := hq.block
    rw [hp] at hsame
    obtain rfl := Option.some.inj hsame
    exact hout ⟨hq.le, hq.lt⟩
  · rintro ⟨q, j, hne, hq⟩
    exact ⟨⟨q, j, hq⟩, fun hx => hne (h.unique q p j i x hq ⟨hp, hx.1, hx.2⟩)⟩

lemma Tiles.congr {R' : Set ℕ} (h : Tiles m R t) (hR : ∀ x, x ∈ R' ↔ x ∈ R) : Tiles m R' t :=
  { h with cover := fun x => (hR x).trans (h.cover x) }

/-- **A block is split** into halves. -/
theorem Tiles.split (h : Tiles m R t) (hp : t p = some (i + 1)) :
    Tiles m R (Function.update (Function.update t p (some i)) (p + 2 ^ i) (some i)) := by
  have hpos := Nat.two_pow_pos i
  have hdouble : 2 ^ (i + 1) = 2 ^ i + 2 ^ i := by ring
  have hdvd := h.aligned p _ hp
  have hhalf : 2 ^ i ∣ p := (pow_dvd_pow 2 (Nat.le_succ i)).trans hdvd
  have him := h.order_le p _ hp
  have hout := h.remove hp
  have hfirst := hout.add (i := i) hhalf (by omega) fun x hle hlt hx => hx.2 ⟨hle, by omega⟩
  have hboth := hfirst.add (p := p + 2 ^ i) (i := i) (Nat.dvd_add hhalf dvd_rfl) (by omega) (by
    rintro x hle hlt (⟨-, hx⟩ | ⟨-, hx⟩)
    · exact hx ⟨by omega, by omega⟩
    · omega)
  rw [Function.update_idem] at hboth
  refine hboth.congr fun x => ?_
  simp only [Set.mem_ofPred_eq]
  constructor
  · intro hx
    by_cases hin : p ≤ x ∧ x < p + 2 ^ (i + 1)
    · by_cases hlt : x < p + 2 ^ i
      · exact .inl (.inr ⟨hin.1, hlt⟩)
      · exact .inr ⟨by omega, by omega⟩
    · exact .inl (.inl ⟨hx, hin⟩)
  · rintro ((⟨hx, -⟩ | ⟨hle, hlt⟩) | ⟨hle, hlt⟩)
    · exact hx
    · exact (h.cover x).mpr ⟨p, i + 1, hp, hle, by omega⟩
    · exact (h.cover x).mpr ⟨p, i + 1, hp, by omega, by omega⟩

/-- **Two halves are merged.** -/
theorem Tiles.merge (h : Tiles m R t) (hp : t p = some i) (hq : t (p + 2 ^ i) = some i)
    (hdvd : 2 ^ (i + 1) ∣ p) (hi : i + 1 ≤ m) :
    Tiles m R (Function.update (Function.update t (p + 2 ^ i) none) p (some (i + 1))) := by
  have hpos := Nat.two_pow_pos i
  have hdouble : 2 ^ (i + 1) = 2 ^ i + 2 ^ i := by ring
  have hne : p ≠ p + 2 ^ i := by omega
  have hright := h.remove hq
  have hleft := hright.remove (p := p) (i := i) (by rw [Function.update_of_ne hne, hp])
  have hall := hleft.add (i := i + 1) hdvd hi (by
    rintro x hle hlt ⟨⟨-, hx⟩, hx'⟩
    by_cases hhalf : x < p + 2 ^ i
    · exact hx' ⟨hle, hhalf⟩
    · exact hx ⟨by omega, by omega⟩)
  rw [Function.update_idem] at hall
  refine hall.congr fun x => ?_
  simp only [Set.mem_ofPred_eq]
  constructor
  · intro hx
    by_cases hin : p ≤ x ∧ x < p + 2 ^ (i + 1)
    · exact .inr hin
    · exact .inl ⟨⟨hx, fun h => hin ⟨by omega, by omega⟩⟩, fun h => hin ⟨h.1, by omega⟩⟩
  · rintro (⟨⟨hx, -⟩, -⟩ | ⟨hle, hlt⟩)
    · exact hx
    · by_cases hhalf : x < p + 2 ^ i
      · exact (h.cover x).mpr ⟨p, i, hp, hle, hhalf⟩
      · exact (h.cover x).mpr ⟨p + 2 ^ i, i, hq, by omega, by omega⟩

end KernelModel.DyadicTiling
