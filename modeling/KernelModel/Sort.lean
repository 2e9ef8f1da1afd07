import KernelModel.Blocks
import KernelModel.Quicksort

/-!
Sorting an array of bytes.

The memory is the array, and every access is checked to be inside of it. Positions are offsets from
its first byte.
-/

namespace KernelModel.Sort

open Quicksort

def load (b : Block UInt8) (i : ℕ) : Option UInt8 := if i < b.size then some (b.data i) else none

/-- The body of the loop of `sys_memory_exchange`. -/
def exchangeByte (b : Block UInt8) (x y : ℕ) : Option (Block UInt8) := do
  let tmp ← load b x
  let other ← load b y
  let b ← b.write x other
  b.write y tmp

/-- `sys_memory_exchange` -/
def sysMemoryExchange (b : Block UInt8) (x y : ℕ) : ℕ → Option (Block UInt8)
  | 0 => some b
  | i + 1 => (sysMemoryExchange b x y i).bind fun b => exchangeByte b (x + i) (y + i)

/-- The bytes of an element. -/
def elements (size : ℕ) (b : Block UInt8) (j : ℕ) : List UInt8 :=
  (List.range size).map fun k => b.data (size * j + k)

/-- An element that the callback reads, at a position. -/
def readElement (size : ℕ) (b : Block UInt8) (position : ℕ) : Option (List UInt8) :=
  if position + size ≤ b.size then some ((List.range size).map fun k => b.data (position + k))
  else none

section

variable (switchCallback : List UInt8 → List UInt8 → Bool) (size : ℕ)

/-- The loop of `sys_sort`, for the first `j` elements: the memory, and `i`. -/
def sortLoop (data count : ℕ) (b : Block UInt8) : ℕ → Option (Block UInt8 × ℕ)
  | 0 => some (b, 0)
  | j + 1 => do
    let (b, i) ← sortLoop data count b j
    let x ← readElement size b (data + size * j)
    let pivot ← readElement size b (data + size * count)
    if switchCallback x pivot then
      (sysMemoryExchange b (data + size * i) (data + size * j) size).map fun b => (b, i + 1)
    else some (b, i)

/-- `sys_sort`, with fuel for the depth of its recursion. -/
def sysSort : ℕ → Block UInt8 → ℕ → ℕ → Option (Block UInt8)
  | 0, _, _, _ => none
  | fuel + 1, b, data, count =>
    if count ≤ 1 then some b
    else do
      let count := count - 1
      let (b, i) ← sortLoop switchCallback size data count b count
      let b ← sysMemoryExchange b (data + size * i) (data + size * count) size
      (if i > 1 then sysSort fuel b data i else some b).bind fun b =>
        let i := i + 1
        if i < count then sysSort fuel b (data + size * i) (count - i + 1) else some b

end

section

variable {b b' : Block UInt8} {x y n size i j count lo data fuel : ℕ}
  {less : List UInt8 → List UInt8 → Bool} {f : ℕ → List UInt8}

lemma exchangeByte_eq (hx : x < b.size) (hy : y < b.size) : exchangeByte b x y =
    some ⟨b.size, fun a => if a = x then b.data y else if a = y then b.data x else b.data a⟩ := by
  rw [exchangeByte, load, load, if_pos hx, if_pos hy]
  simp only [Option.bind_eq_bind, Option.bind_some, Block.write_eq hx]
  rw [Block.write_eq (by rw [Block.size_set]; exact hy)]
  refine Block.some_eq fun a => ?_
  by_cases hay : a = y
  · rw [hay, Block.data_set_self, if_pos rfl]
    split_ifs with h
    · rw [h]
    · rfl
  · rw [Block.data_set_of_ne hay, if_neg hay]
    by_cases hax : a = x
    · rw [hax, Block.data_set_self, if_pos rfl]
    · rw [Block.data_set_of_ne hax, if_neg hax]

/-- **The bytes at two places** are exchanged, which may be one place. -/
lemma sysMemoryExchange_eq (hx : x + n ≤ b.size) (hy : y + n ≤ b.size)
    (hplaces : x = y ∨ x + n ≤ y ∨ y + n ≤ x) : sysMemoryExchange b x y n =
      some ⟨b.size, fun a => if x ≤ a ∧ a < x + n then b.data (y + (a - x))
        else if y ≤ a ∧ a < y + n then b.data (x + (a - y)) else b.data a⟩ := by
  induction n with
  | zero => exact Block.some_eq fun a => by rw [if_neg (by omega), if_neg (by omega)]
  | succ n ih =>
    rw [sysMemoryExchange, ih (by omega) (by omega) (by omega), Option.bind_some,
      exchangeByte_eq (by exact hx) (by exact hy)]
    refine congrArg (fun data => some (Block.mk b.size data)) (funext fun a => ?_)
    dsimp only
    -- The places of the last byte of each side have not been written before.
    have hxlast : (if x ≤ x + n ∧ x + n < x + n then b.data (y + (x + n - x))
        else if y ≤ x + n ∧ x + n < y + n then b.data (x + (x + n - y)) else b.data (x + n)) =
        b.data (x + n) := by
      rw [if_neg (by omega), if_neg (by omega)]
    have hylast : (if x ≤ y + n ∧ y + n < x + n then b.data (y + (y + n - x))
        else if y ≤ y + n ∧ y + n < y + n then b.data (x + (y + n - y)) else b.data (y + n)) =
        b.data (y + n) := by
      rw [if_neg (by omega), if_neg (by omega)]
    rw [hxlast, hylast]
    by_cases hax : a = x + n
    · rw [if_pos hax, if_pos (by omega), hax, Nat.add_sub_cancel_left]
    · have hleft : (x ≤ a ∧ a < x + (n + 1)) ↔ (x ≤ a ∧ a < x + n) := by omega
      rw [if_neg hax]
      simp only [hleft]
      by_cases hay : a = y + n
      · rw [if_pos hay, if_neg (by omega), if_pos (by omega), hay, Nat.add_sub_cancel_left]
      · have hright : (y ≤ a ∧ a < y + (n + 1)) ↔ (y ≤ a ∧ a < y + n) := by omega
        rw [if_neg hay]
        simp only [hright]

lemma element_places (size i j : ℕ) : size * i = size * j ∨ size * i + size ≤ size * j ∨
    size * j + size ≤ size * i := by
  rcases Nat.lt_trichotomy i j with h | rfl | h
  · exact .inr (.inl (by rw [← Nat.mul_succ]; exact Nat.mul_le_mul_left size h))
  · exact .inl rfl
  · exact .inr (.inr (by rw [← Nat.mul_succ]; exact Nat.mul_le_mul_left size h))

lemma mem_element {l a : ℕ} (hl : a < size) (i : ℕ) :
    (size * i ≤ size * l + a ∧ size * l + a < size * i + size) ↔ l = i := by
  constructor
  · rintro ⟨hle, hlt⟩
    rcases element_places size l i with h | h | h
    · exact Nat.eq_of_mul_eq_mul_left (by omega) h
    · omega
    · omega
  · rintro rfl
    omega

lemma exchange_elements (hi : size * i + size ≤ b.size) (hj : size * j + size ≤ b.size) :
    ∃ b', sysMemoryExchange b (size * i) (size * j) size = some b' ∧ b'.size = b.size ∧
      elements size b' = exchange (elements size b) i j := by
  refine ⟨_, sysMemoryExchange_eq hi hj (element_places size i j), rfl, funext fun l => ?_⟩
  rw [exchange, Function.comp_apply, elements, elements]
  refine List.map_congr_left fun a ha => ?_
  rw [List.mem_range] at ha
  simp only [mem_element ha]
  split_ifs with hli hlj
  · rw [hli, Equiv.swap_apply_left, Nat.add_sub_cancel_left]
  · rw [hlj, Equiv.swap_apply_right, Nat.add_sub_cancel_left]
  · rw [Equiv.swap_apply_of_ne_of_ne hli hlj]

lemma readElement_eq (h : size * j + size ≤ b.size) :
    readElement size b (size * j) = some (elements size b j) := if_pos h

lemma element_le (hj : j < lo + n) (h : size * (lo + n) ≤ b.size) : size * j + size ≤ b.size := by
  rw [← Nat.mul_succ]
  exact (Nat.mul_le_mul_left size hj).trans h

lemma sortLoop_eq (hn : n ≤ count) (h : size * (lo + (count + 1)) ≤ b.size) :
    ∃ b', sortLoop less size (size * lo) count b n =
        some (b', (partition less lo count (elements size b) n).2) ∧ b'.size = b.size ∧
      elements size b' = (partition less lo count (elements size b) n).1 := by
  induction n with
  | zero => exact ⟨b, rfl, rfl, rfl⟩
  | succ n ih =>
    obtain ⟨b', hloop, hsize, helements⟩ := ih (Nat.le_of_succ_le hn)
    have hle := (partition_spec less lo (elements size b) (Nat.le_of_succ_le hn)).le
    obtain ⟨⟨g, i⟩, hg⟩ : ∃ p, partition less lo count (elements size b) n = p := ⟨_, rfl⟩
    rw [hg] at hloop helements hle
    dsimp only at hloop helements hle
    rw [← hsize] at h
    rw [sortLoop, partition, hloop, hg]
    simp only [Option.bind_eq_bind, Option.bind_some, ← Nat.mul_add]
    rw [readElement_eq (element_le (by omega) h), readElement_eq (element_le (by omega) h)]
    simp only [Option.bind_some, helements]
    split_ifs
    · obtain ⟨b₂, hexchange, hsize₂, helements₂⟩ := @exchange_elements b' size (lo + i) (lo + n)
        (element_le (by omega) h) (element_le (by omega) h)
      rw [hexchange]
      exact ⟨b₂, rfl, hsize₂.trans hsize, by rw [helements₂, helements]⟩
    · exact ⟨b', rfl, hsize, helements⟩

/-- **A range of elements** is sorted, and nothing outside of it changes. -/
lemma sysSort_spec [IsStrictOrder (List UInt8) fun x y => less x y] (hfuel : count < fuel)
    (h : size * (lo + count) ≤ b.size) :
    ∃ b', sysSort less size fuel b (size * lo) count = some b' ∧ b'.size = b.size ∧
      Arranged lo (lo + count) (elements size b) (elements size b') ∧
      Sorted less lo (lo + count) (elements size b') := by
  induction fuel generalizing b lo count with
  | zero => omega
  | succ fuel ih =>
    rw [sysSort]
    split_ifs with hcount
    · exact ⟨b, rfl, rfl, .refl _ _ _, fun i j hi hij hj => by omega⟩
    · obtain ⟨count, rfl⟩ : ∃ n, count = n + 1 := ⟨count - 1, by omega⟩
      obtain ⟨hle, harranged, hpivot, hbelow, habove⟩ :=
        pivot_spec less lo count (elements size b)
      obtain ⟨b₁, hloop, hsize₁, helements₁⟩ := @sortLoop_eq b count size count lo less le_rfl h
      obtain ⟨⟨g, i⟩, hg⟩ : ∃ p, partition less lo count (elements size b) count = p := ⟨_, rfl⟩
      rw [hg] at hle harranged hpivot hbelow habove hloop helements₁
      dsimp only at hle harranged hpivot hbelow habove hloop helements₁
      rw [← hsize₁] at h
      obtain ⟨b₂, hexchange, hsize₂, helements₂⟩ := @exchange_elements b₁ size (lo + i) (lo + count)
        (element_le (by omega) h) (element_le (by omega) h)
      rw [helements₁] at helements₂
      rw [← helements₂] at harranged hpivot hbelow habove
      rw [← hsize₂] at h
      -- Each side is sorted, or has one element at most.
      obtain ⟨b₃, hleft, hsize₃, harrangedLeft, hsortedLeft⟩ : ∃ b₃,
          (if i > 1 then sysSort less size fuel b₂ (size * lo) i else some b₂) = some b₃ ∧
          b₃.size = b₂.size ∧ Arranged lo (lo + i) (elements size b₂) (elements size b₃) ∧
          Sorted less lo (lo + i) (elements size b₃) := by
        split_ifs with hi
        · exact ih (by omega) ((Nat.mul_le_mul_left size (by omega)).trans h)
        · exact ⟨b₂, rfl, rfl, .refl _ _ _, fun k l hk hkl hl => by omega⟩
      rw [← hsize₃] at h
      obtain ⟨b₄, hright, hsize₄, harrangedRight, hsortedRight⟩ : ∃ b₄,
          (if i + 1 < count then
            sysSort less size fuel b₃ (size * (lo + (i + 1))) (count - (i + 1) + 1)
          else some b₃) = some b₄ ∧ b₄.size = b₃.size ∧
          Arranged (lo + i + 1) (lo + (count + 1)) (elements size b₃) (elements size b₄) ∧
          Sorted less (lo + i + 1) (lo + (count + 1)) (elements size b₄) := by
        split_ifs with hi
        · have hend : lo + (i + 1) + (count - (i + 1) + 1) = lo + (count + 1) := by omega
          have hspec := @ih b₃ (count - (i + 1) + 1) (lo + (i + 1)) (by omega) (by rwa [hend])
          rwa [hend] at hspec
        · exact ⟨b₃, rfl, rfl, .refl _ _ _, fun k l hk hkl hl => by omega⟩
      obtain ⟨hall, hsorted⟩ := sorted_of_arranged (Nat.le_add_right lo i) (by omega)
        harrangedLeft hsortedLeft harrangedRight hsortedRight
        (fun k hlo hk => by
          obtain ⟨k, rfl⟩ := Nat.exists_eq_add_of_le hlo
          exact hbelow k (by omega))
        (fun k hk hhi => by
          obtain ⟨k, rfl⟩ := Nat.exists_eq_add_of_le (show lo ≤ k by omega)
          exact habove k (by omega) (by omega))
      refine ⟨b₄, ?_, by omega, harranged.trans hall, hsorted⟩
      rw [Nat.add_sub_cancel]
      simp only [Option.bind_eq_bind, ← Nat.mul_add, hloop, Option.bind_some, hexchange, hleft,
        hright]

end

/-- The elements of an array, in order. -/
def array (size count : ℕ) (b : Block UInt8) : List (List UInt8) :=
  (List.range count).map (elements size b)

/-- **Sorting is correct.** For a strict order the call ends, every access is to a byte of the
array, the elements are the same as before, and none is less than an earlier one. -/
theorem sysSort_sorts (less : List UInt8 → List UInt8 → Bool)
    [IsStrictOrder (List UInt8) fun x y => less x y] {size count fuel : ℕ} {b : Block UInt8}
    (hsize : b.size = size * count) (hfuel : count < fuel) :
    (∃ b', sysSort less size fuel b 0 count = some b' ∧ b'.size = b.size ∧
      (array size count b').Perm (array size count b) ∧
      (array size count b').Pairwise fun x y => ¬less y x) ∧
    ∀ i < count, ∀ j < count, ∃ b', sysMemoryExchange b (size * i) (size * j) size = some b' ∧
      b'.size = b.size ∧ ∀ k, elements size b' k =
        if k = i then elements size b j
        else if k = j then elements size b i else elements size b k := by
  have hzero : size * 0 = 0 := Nat.mul_zero size
  constructor
  · obtain ⟨b', hsort, hsize', harranged, hsorted⟩ :=
      @sysSort_spec b size count 0 fuel less _ hfuel (by rw [Nat.zero_add, hsize])
    rw [Nat.zero_add] at harranged hsorted
    refine ⟨b', hzero ▸ hsort, hsize', harranged.perm, ?_⟩
    rw [array, List.pairwise_map]
    refine (List.pairwise_lt_range).imp_of_mem fun {i j} _ hj hij => ?_
    exact hsorted i j (Nat.zero_le i) hij (List.mem_range.mp hj)
  · intro i hi j hj
    have hinside : ∀ k < count, size * k + size ≤ b.size := fun k hk => by
      rw [hsize, ← Nat.mul_succ]
      exact Nat.mul_le_mul_left size hk
    obtain ⟨b', hexchange, hsize', helements⟩ := exchange_elements (hinside i hi) (hinside j hj)
    refine ⟨b', hexchange, hsize', fun k => ?_⟩
    rw [helements, exchange, Function.comp_apply]
    split_ifs with hki hkj
    · rw [hki, Equiv.swap_apply_left]
    · rw [hkj, Equiv.swap_apply_right]
    · rw [Equiv.swap_apply_of_ne_of_ne hki hkj]

/-- The order by the first byte. -/
def lessHead (x y : List UInt8) : Bool := x.headD 0 < y.headD 0

instance : IsStrictOrder (List UInt8) fun x y => lessHead x y where
  irrefl x := by simp [lessHead]
  trans x y z hxy hyz := by
    simp only [lessHead, decide_eq_true_eq] at hxy hyz ⊢
    exact UInt8.lt_trans hxy hyz

/-- Three elements of two bytes, and two equal ones among them, which trade places. -/
def pairs : Block UInt8 := ⟨6, fun i => [2, 5, 1, 7, 2, 6].getD i 0⟩

example : (sysSort lessHead 2 4 pairs 0 3).map (array 2 3) = some [[1, 7], [2, 6], [2, 5]] := by
  decide +kernel

theorem sysSort_sorts_pairs : ∃ b', sysSort lessHead 2 4 pairs 0 3 = some b' ∧
    b'.size = pairs.size ∧ (array 2 3 b').Perm (array 2 3 pairs) ∧
      (array 2 3 b').Pairwise fun x y => ¬lessHead y x :=
  (@sysSort_sorts lessHead _ 2 3 4 pairs rfl (by decide)).1

end KernelModel.Sort
