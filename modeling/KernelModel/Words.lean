import Mathlib.Data.Nat.Log
import Mathlib.Tactic

/-!
Numbers in words of 32 bits, the lowest word first.

The words are a function from positions. The value of the first `n` words determines each of them,
numbers compare as their words do from the top, and the quotient of two numbers is estimated by
their top words.
-/

namespace KernelModel.Words

open Finset

def base : ℕ := 2 ^ 32

def value (f : ℕ → UInt32) (n : ℕ) : ℕ := ∑ i ∈ range n, (f i).toNat * base ^ i

/-- The word of a number at a position. -/
def digit (x i : ℕ) : ℕ := x / base ^ i % base

/-- How many words a number needs; zero needs one. -/
def wordLength (x : ℕ) : ℕ := Nat.log base x + 1

lemma base_pos : 0 < base := by decide

lemma one_lt_base : 1 < base := by decide

lemma base_pow_pos (n : ℕ) : 0 < base ^ n := Nat.pow_pos base_pos

lemma toNat_lt_base (w : UInt32) : w.toNat < base := w.toNat_lt

lemma toNat_ofNat (x : ℕ) : (UInt32.ofNat x).toNat = x % base := UInt32.toNat_ofNat'

variable {f g : ℕ → UInt32} {n m x y : ℕ}

/-! ### Values -/

@[simp] lemma value_zero (f : ℕ → UInt32) : value f 0 = 0 := rfl

lemma value_succ (f : ℕ → UInt32) (n : ℕ) :
    value f (n + 1) = value f n + (f n).toNat * base ^ n := sum_range_succ _ _

lemma value_congr (h : ∀ i < n, f i = g i) : value f n = value g n :=
  sum_congr rfl fun i hi => by rw [h i (mem_range.mp hi)]

@[simp] lemma value_update (f : ℕ → UInt32) (n : ℕ) (w : UInt32) :
    value (Function.update f n w) n = value f n :=
  value_congr fun _ hi => Function.update_of_ne (Nat.ne_of_lt hi) _ _

lemma value_lt (f : ℕ → UInt32) (n : ℕ) : value f n < base ^ n := by
  induction n with
  | zero => exact Nat.one_pos
  | succ n ih =>
    have hword := toNat_lt_base (f n)
    calc value f (n + 1) = value f n + (f n).toNat * base ^ n := value_succ f n
      _ < base ^ n + (f n).toNat * base ^ n := Nat.add_lt_add_right ih _
      _ = ((f n).toNat + 1) * base ^ n := by ring
      _ ≤ base * base ^ n := Nat.mul_le_mul_right _ hword
      _ = base ^ (n + 1) := (pow_succ' base n).symm

lemma value_extend (hnm : n ≤ m) (h : ∀ i, n ≤ i → i < m → f i = 0) : value f m = value f n := by
  induction m, hnm using Nat.le_induction with
  | base => rfl
  | succ m hnm ih =>
    rw [value_succ, h m hnm (Nat.lt_succ_self m), ih fun i h1 h2 => h i h1 (by omega)]
    simp

lemma value_split (f : ℕ → UInt32) (n m : ℕ) :
    value f (n + m) = value f n + base ^ n * value (fun i => f (n + i)) m := by
  induction m with
  | zero => simp
  | succ m ih =>
    rw [← Nat.add_assoc, value_succ, ih, value_succ, pow_add]
    ring

lemma value_div (f : ℕ → UInt32) (n m : ℕ) :
    value f (n + m) / base ^ n = value (fun i => f (n + i)) m := by
  rw [value_split, Nat.add_mul_div_left _ _ (base_pow_pos n),
    Nat.div_eq_of_lt (value_lt f n), Nat.zero_add]

lemma value_mod (f : ℕ → UInt32) (n m : ℕ) : value f (n + m) % base ^ n = value f n := by
  rw [value_split, Nat.add_mul_mod_self_left, Nat.mod_eq_of_lt (value_lt f n)]

lemma digit_value {i : ℕ} (hi : i < n) : digit (value f n) i = (f i).toNat := by
  obtain ⟨m, rfl⟩ : ∃ m, n = i + (m + 1) := ⟨n - i - 1, by omega⟩
  have hmod := value_mod (fun k => f (i + k)) 1 m
  rw [pow_one, value_succ, value_zero, Nat.add_comm 1 m] at hmod
  rw [digit, value_div, hmod]
  simp

lemma digit_lt (x i : ℕ) : digit x i < base := Nat.mod_lt _ base_pos

lemma sum_digit (x n : ℕ) : ∑ i ∈ range n, digit x i * base ^ i = x % base ^ n := by
  induction n with
  | zero => rw [sum_range_zero, pow_zero, Nat.mod_one]
  | succ n ih => rw [sum_range_succ, ih, Nat.mod_pow_succ, digit, Nat.mul_comm]

lemma value_eq_of_digit (h : ∀ i < n, (f i).toNat = digit x i) : value f n = x % base ^ n := by
  rw [value, ← sum_digit]
  exact sum_congr rfl fun i hi => by rw [h i (mem_range.mp hi)]

lemma digit_mul_pow (x j i : ℕ) :
    digit (x * base ^ j) i = if i < j then 0 else digit x (i - j) := by
  split_ifs with h
  · obtain ⟨k, rfl⟩ : ∃ k, j = i + (k + 1) := ⟨j - i - 1, by omega⟩
    have hmul : x * base ^ (i + (k + 1)) = x * base ^ k * base * base ^ i := by ring
    rw [digit, hmul, Nat.mul_div_cancel _ (base_pow_pos i), Nat.mul_mod_left]
  · obtain ⟨k, rfl⟩ : ∃ k, i = j + k := ⟨i - j, by omega⟩
    rw [digit, digit, pow_add, ← Nat.div_div_eq_div_mul, Nat.mul_div_cancel _ (base_pow_pos j),
      Nat.add_sub_cancel_left]

/-! ### Lengths -/

lemma pow_le_value (htop : f n ≠ 0) : base ^ n ≤ value f (n + 1) := by
  have hword : 1 ≤ (f n).toNat := by
    rcases Nat.eq_zero_or_pos (f n).toNat with h0 | hpos
    · exact absurd (UInt32.toNat_inj.mp h0) htop
    · exact hpos
  rw [value_succ]
  calc base ^ n = 1 * base ^ n := (Nat.one_mul _).symm
    _ ≤ (f n).toNat * base ^ n := Nat.mul_le_mul_right _ hword
    _ ≤ value f n + (f n).toNat * base ^ n := Nat.le_add_left _ _

lemma wordLength_eq (hn : 0 < n) (htop : n = 1 ∨ f (n - 1) ≠ 0) :
    wordLength (value f n) = n := by
  rw [wordLength]
  rcases htop with rfl | htop
  · have hlt : value f 1 < base := by
      have h := value_lt f 1
      rwa [pow_one] at h
    rw [Nat.log_of_lt hlt]
  · obtain ⟨n, rfl⟩ : ∃ k, n = k + 1 := ⟨n - 1, by omega⟩
    rw [Nat.add_sub_cancel] at htop
    rw [Nat.log_eq_of_pow_le_of_lt_pow (pow_le_value htop) (value_lt f (n + 1))]

lemma lt_base_pow_wordLength (x : ℕ) : x < base ^ wordLength x :=
  Nat.lt_pow_succ_log_self one_lt_base x

/-! ### Comparing -/

lemma value_lt_value_succ : value f (n + 1) < value g (n + 1) ↔
    f n < g n ∨ f n = g n ∧ value f n < value g n := by
  rw [value_succ, value_succ]
  have hf := value_lt f n
  have hg := value_lt g n
  rcases Nat.lt_trichotomy (f n).toNat (g n).toNat with h | h | h
  · have hmul := Nat.mul_le_mul_right (base ^ n) h
    rw [Nat.succ_mul] at hmul
    exact ⟨fun _ => Or.inl (UInt32.lt_iff_toNat_lt.mpr h), fun _ => by omega⟩
  · have heq := UInt32.toNat_inj.mp h
    rw [heq]
    refine ⟨fun hlt => Or.inr ⟨rfl, by omega⟩, ?_⟩
    rintro (hlt | ⟨-, hlt⟩)
    · exact absurd (UInt32.lt_iff_toNat_lt.mp hlt) (lt_irrefl _)
    · omega
  · have hmul := Nat.mul_le_mul_right (base ^ n) h
    rw [Nat.succ_mul] at hmul
    refine ⟨fun hlt => by omega, ?_⟩
    rintro (hlt | ⟨heq, -⟩)
    · exact absurd (UInt32.lt_iff_toNat_lt.mp hlt) (by omega)
    · exact absurd (congrArg UInt32.toNat heq) (by omega)

/-! ### Estimating a quotient -/

lemma div_pow_eq (x n : ℕ) : x / base ^ n = x / base ^ (n + 1) * base + digit x n := by
  rw [digit, pow_succ, ← Nat.div_div_eq_div_mul, Nat.div_add_mod']

lemma digit_eq_div (h : x < base ^ (n + 1)) : digit x n = x / base ^ n := by
  rw [div_pow_eq x n, Nat.div_eq_of_lt h, Nat.zero_mul, Nat.zero_add]

section

variable {a b : ℕ}

lemma quotient_le_estimate (e : ℕ) (hb : 0 < b / base ^ e) :
    a / b ≤ a / base ^ e / (b / base ^ e) := by
  rw [Nat.le_div_iff_mul_le hb, Nat.le_div_iff_mul_le (base_pow_pos e)]
  calc a / b * (b / base ^ e) * base ^ e = a / b * (b / base ^ e * base ^ e) := Nat.mul_assoc _ _ _
    _ ≤ a / b * b := Nat.mul_le_mul_left _ (Nat.div_mul_le_self b _)
    _ ≤ a := Nat.div_mul_le_self a b

/-- And it is at most one above it, if it is a word and the divisor has a word in front. -/
lemma estimate_le_quotient {e q : ℕ} (hq : q * (b / base ^ e) ≤ a / base ^ e) (hword : q < base)
    (hb : base ^ (e + 1) ≤ b) : q ≤ a / b + 1 := by
  have hbpos : 0 < b := (base_pow_pos _).trans_le hb
  have hqb : q * b ≤ a + b := by
    have hsplit := Nat.div_add_mod b (base ^ e)
    have hmod := Nat.mod_lt b (base_pow_pos e)
    have hmul := (Nat.le_div_iff_mul_le (base_pow_pos e)).mp hq
    calc q * b = q * (base ^ e * (b / base ^ e) + b % base ^ e) := by rw [hsplit]
      _ = q * (b / base ^ e) * base ^ e + q * (b % base ^ e) := by ring
      _ ≤ a + q * base ^ e := Nat.add_le_add hmul (Nat.mul_le_mul_left _ hmod.le)
      _ ≤ a + base * base ^ e := Nat.add_le_add_left (Nat.mul_le_mul_right _ hword.le) _
      _ ≤ a + b := by
        rw [← pow_succ']
        exact Nat.add_le_add_left hb _
  rw [← Nat.add_div_right a hbpos, Nat.le_div_iff_mul_le hbpos]
  exact hqb

end

/-- The quotient by the top words and a rounded reciprocal is not above the true one, and at most
two below it. -/
lemma reciprocal_estimate {b k m v : ℕ} (hk : 0 < k) (hlow : b ^ (k - 1) ≤ m) (hb : 0 < b)
    (hm : 0 < m) (hv : v < b ^ (2 * k)) :
    v / b ^ (k - 1) * (b ^ (2 * k) / m) / b ^ (k + 1) * m ≤ v ∧
      v < (v / b ^ (k - 1) * (b ^ (2 * k) / m) / b ^ (k + 1) + 3) * m := by
  have hpow : b ^ (2 * k) = b ^ (k + 1) * b ^ (k - 1) := by
    rw [← pow_add]
    congr 1
    omega
  have hlowpos : 0 < b ^ (k - 1) := Nat.pow_pos hb
  have hhighpos : 0 < b ^ (k + 1) := Nat.pow_pos hb
  generalize hx : v / b ^ (k - 1) = x
  generalize hmu : b ^ (2 * k) / m = mu
  generalize hq : x * mu / b ^ (k + 1) = q
  have hx1 : x * b ^ (k - 1) ≤ v := by rw [← hx]; exact Nat.div_mul_le_self _ _
  have hx2 : v < (x + 1) * b ^ (k - 1) := by
    rw [← hx]
    exact (Nat.lt_mul_div_succ v hlowpos).trans_eq (Nat.mul_comm _ _)
  have hmu1 : mu * m ≤ b ^ (2 * k) := by rw [← hmu]; exact Nat.div_mul_le_self _ _
  have hmu2 : b ^ (2 * k) < (mu + 1) * m := by
    rw [← hmu]
    exact (Nat.lt_mul_div_succ _ hm).trans_eq (Nat.mul_comm _ _)
  have hq1 : q * b ^ (k + 1) ≤ x * mu := by rw [← hq]; exact Nat.div_mul_le_self _ _
  have hq2 : x * mu < (q + 1) * b ^ (k + 1) := by
    rw [← hq]
    exact (Nat.lt_mul_div_succ _ hhighpos).trans_eq (Nat.mul_comm _ _)
  have hpos : 0 < b ^ (2 * k) := Nat.pow_pos hb
  constructor
  · refine Nat.le_of_mul_le_mul_right ?_ hpos
    calc q * m * b ^ (2 * k) = q * b ^ (k + 1) * (m * b ^ (k - 1)) := by rw [hpow]; ring
      _ ≤ x * mu * (m * b ^ (k - 1)) := Nat.mul_le_mul_right _ hq1
      _ = x * b ^ (k - 1) * (mu * m) := by ring
      _ ≤ v * b ^ (2 * k) := Nat.mul_le_mul hx1 hmu1
  · refine Nat.lt_of_mul_lt_mul_right (a := b ^ (2 * k)) ?_
    have h1 : v * mu ≤ (q + 1) * b ^ (2 * k) + mu * b ^ (k - 1) := by
      calc v * mu ≤ (x + 1) * b ^ (k - 1) * mu := Nat.mul_le_mul_right _ hx2.le
        _ = x * mu * b ^ (k - 1) + mu * b ^ (k - 1) := by ring
        _ ≤ (q + 1) * b ^ (k + 1) * b ^ (k - 1) + mu * b ^ (k - 1) :=
          Nat.add_le_add_right (Nat.mul_le_mul_right _ hq2.le) _
        _ = (q + 1) * b ^ (2 * k) + mu * b ^ (k - 1) := by rw [hpow]; ring
    have h2 : mu * b ^ (k - 1) ≤ b ^ (2 * k) :=
      (Nat.mul_le_mul_left _ hlow).trans hmu1
    calc v * b ^ (2 * k) ≤ v * ((mu + 1) * m) := Nat.mul_le_mul_left _ hmu2.le
      _ = v * mu * m + v * m := by ring
      _ < (q + 2) * b ^ (2 * k) * m + b ^ (2 * k) * m := by
        have h3 : v * mu ≤ (q + 2) * b ^ (2 * k) := by
          refine h1.trans ?_
          calc (q + 1) * b ^ (2 * k) + mu * b ^ (k - 1)
              ≤ (q + 1) * b ^ (2 * k) + b ^ (2 * k) := Nat.add_le_add_left h2 _
            _ = (q + 2) * b ^ (2 * k) := by ring
        exact Nat.add_lt_add_of_le_of_lt (Nat.mul_le_mul_right _ h3)
          (Nat.mul_lt_mul_of_pos_right hv hm)
      _ = (q + 3) * m * b ^ (2 * k) := by ring

end KernelModel.Words
