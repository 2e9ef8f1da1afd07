import Mathlib.Tactic

/-!
Ones' complement sums of 16-bit words.

The sum with end-around carry of many words is their plain total, reduced once at the end; and it
does not matter in which byte order the words are read.
-/

namespace KernelModel.OnesComplement

/-- The sum of two words, with the carry added back. -/
def add (x y : ℕ) : ℕ := (x + y) % 65536 + (x + y) / 65536

/-- The sum of the big-endian words of some bytes; an odd last byte is padded with zero. -/
def sum : List UInt8 → ℕ
  | [] => 0
  | [a] => a.toNat * 256
  | a :: b :: rest => add (a.toNat * 256 + b.toNat) (sum rest)

/-- The word of a total: zero for zero only, and otherwise never zero. -/
def reduce (n : ℕ) : ℕ := if n = 0 then 0 else (n - 1) % 65535 + 1

/-- A word with its two bytes in the other order. -/
def swap (x : ℕ) : ℕ := x % 256 * 256 + x / 256

variable {n m x y : ℕ}

/-! ### Reduction -/

lemma reduce_le (n : ℕ) : reduce n ≤ 65535 := by
  rw [reduce]
  split_ifs
  · exact Nat.zero_le _
  · have := Nat.mod_lt (n - 1) (show 0 < 65535 by decide)
    omega

lemma reduce_eq_zero_iff : reduce n = 0 ↔ n = 0 := by
  rw [reduce]
  by_cases h : n = 0
  · exact iff_of_true (if_pos h) h
  · rw [if_neg h]
    exact iff_of_false (Nat.succ_ne_zero _) h

lemma reduce_mod (n : ℕ) : reduce n % 65535 = n % 65535 := by
  rw [reduce]
  split_ifs with h
  · rw [h]
  · omega

lemma eq_reduce (hle : x ≤ 65535) (hzero : x = 0 ↔ n = 0) (hmod : x % 65535 = n % 65535) :
    x = reduce n := by
  have hle' := reduce_le n
  have hzero' := reduce_eq_zero_iff (n := n)
  have hmod' := reduce_mod n
  omega

lemma reduce_congr (hzero : n = 0 ↔ m = 0) (hmod : n % 65535 = m % 65535) : reduce n = reduce m :=
  eq_reduce (reduce_le n) (reduce_eq_zero_iff.trans hzero) ((reduce_mod n).trans hmod)

lemma reduce_of_le (h : x ≤ 65535) : reduce x = x := (eq_reduce h Iff.rfl rfl).symm

lemma reduce_reduce_add (n m : ℕ) : reduce (reduce n + m) = reduce (n + m) := by
  have hmod := reduce_mod n
  have hzero := reduce_eq_zero_iff (n := n)
  refine reduce_congr ?_ ?_
  · omega
  · omega

lemma add_eq_reduce (hx : x ≤ 65535) (hy : y ≤ 65535) : add x y = reduce (x + y) := by
  rw [add]
  refine eq_reduce ?_ ?_ ?_
  · omega
  · omega
  · omega

/-- A total that is a multiple of the modulus, but not zero, has the word of all ones. -/
lemma reduce_eq_ones_iff : reduce n = 65535 ↔ n ≠ 0 ∧ n % 65535 = 0 := by
  have hle := reduce_le n
  have hmod := reduce_mod n
  have hzero := reduce_eq_zero_iff (n := n)
  omega

/-! ### Bytes -/

/-- The plain total of the big-endian words. -/
def total : List UInt8 → ℕ
  | [] => 0
  | [a] => a.toNat * 256
  | a :: b :: rest => a.toNat * 256 + b.toNat + total rest

/-- The plain total of the little-endian words. -/
def totalLittle : List UInt8 → ℕ
  | [] => 0
  | [a] => a.toNat
  | a :: b :: rest => a.toNat + b.toNat * 256 + totalLittle rest

lemma sum_eq_reduce : ∀ data : List UInt8, sum data = reduce (total data)
  | [] => rfl
  | [a] => by
    have ha := a.toNat_lt
    exact (reduce_of_le (show a.toNat * 256 ≤ 65535 by omega)).symm
  | a :: b :: rest => by
    have ha := a.toNat_lt
    have hb := b.toNat_lt
    rw [sum, sum_eq_reduce rest, add_eq_reduce (by omega) (reduce_le _), add_comm,
      reduce_reduce_add, total, add_comm]

lemma total_zero_iff : ∀ data : List UInt8, totalLittle data = 0 ↔ total data = 0
  | [] => Iff.rfl
  | [a] => by
    rw [totalLittle, total]
    omega
  | a :: b :: rest => by
    have ih := total_zero_iff rest
    rw [totalLittle, total]
    omega

lemma total_mod : ∀ data : List UInt8, 256 * totalLittle data % 65535 = total data % 65535
  | [] => rfl
  | [a] => by
    rw [totalLittle, total, Nat.mul_comm]
  | a :: b :: rest => by
    have ih := total_mod rest
    rw [totalLittle, total]
    omega

lemma totalLittle_le : ∀ data : List UInt8, totalLittle data ≤ data.length * 65535
  | [] => Nat.zero_le _
  | [a] => by
    have ha := a.toNat_lt
    rw [totalLittle, List.length_singleton]
    omega
  | a :: b :: rest => by
    have ha := a.toNat_lt
    have hb := b.toNat_lt
    have ih := totalLittle_le rest
    rw [totalLittle, List.length_cons, List.length_cons]
    omega

/-! ### The byte order -/

lemma swap_le (h : x ≤ 65535) : swap x ≤ 65535 := by
  rw [swap]
  omega

lemma swap_reduce (n : ℕ) : swap (reduce n) = reduce (256 * n) := by
  have hle := reduce_le n
  have hmod := reduce_mod n
  have hzero := reduce_eq_zero_iff (n := n)
  refine eq_reduce (swap_le hle) ?_ ?_
  · rw [swap]
    omega
  · rw [swap]
    omega

lemma swap_swap (h : x ≤ 65535) : swap (swap x) = x := by
  rw [swap, swap]
  omega

lemma swap_compl (h : x ≤ 65535) : swap (65535 - x) = 65535 - swap x := by
  rw [swap, swap]
  omega

/-- **The byte order** of the words is the byte order of the sum. -/
lemma reduce_totalLittle (data : List UInt8) : reduce (totalLittle data) = swap (sum data) := by
  have hword : swap (reduce (totalLittle data)) = sum data := by
    rw [swap_reduce, sum_eq_reduce]
    refine reduce_congr ?_ (total_mod data)
    rw [← total_zero_iff]
    omega
  rw [← hword, swap_swap (reduce_le _)]

/-- A partial sum in the other byte order goes with a total in the other byte order. -/
lemma reduce_add_totalLittle (h : x ≤ 65535) (data : List UInt8) :
    reduce (x + totalLittle data) = swap (add (swap x) (sum data)) := by
  have hsum : sum data ≤ 65535 := by
    rw [sum_eq_reduce]
    exact reduce_le _
  rw [add_eq_reduce (swap_le h) hsum, swap_reduce, add_comm, ← reduce_reduce_add,
    reduce_totalLittle]
  refine reduce_congr ?_ ?_
  · rw [swap, swap]
    omega
  · rw [swap, swap]
    omega

end KernelModel.OnesComplement
