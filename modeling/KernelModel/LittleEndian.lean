import Mathlib.Tactic

/-!
Little-endian numbers in memory. Memory is a function from addresses to bytes.
-/

namespace KernelModel.LittleEndian

/-- The number in the `n` bytes from `off` on. -/
def get : ℕ → (ℕ → UInt8) → ℕ → ℕ
  | 0, _, _ => 0
  | n + 1, m, off => (m off).toNat + 256 * get n m (off + 1)

/-- The memory after a number was put into the `n` bytes from `off` on. -/
def put (n : ℕ) (m : ℕ → UInt8) (off v : ℕ) : ℕ → UInt8 :=
  fun i => if off ≤ i ∧ i < off + n then UInt8.ofNat (v / 256 ^ (i - off)) else m i

variable {m m' : ℕ → UInt8} {n off v : ℕ}

lemma get_congr (h : ∀ i, off ≤ i → i < off + n → m i = m' i) : get n m off = get n m' off := by
  induction n generalizing off with
  | zero => rfl
  | succ n ih =>
    rw [get, get, h off le_rfl (by omega), ih fun i h1 h2 => h i (by omega) (by omega)]

lemma get_congr_add {off' : ℕ} (h : ∀ i < n, m (off + i) = m' (off' + i)) :
    get n m off = get n m' off' := by
  induction n generalizing off off' with
  | zero => rfl
  | succ n ih =>
    have hhead := h 0 (Nat.succ_pos n)
    rw [Nat.add_zero, Nat.add_zero] at hhead
    rw [get, get, hhead, @ih (off + 1) (off' + 1) fun i hi => ?_]
    have htail := h (i + 1) (by omega)
    rwa [← Nat.add_assoc, ← Nat.add_assoc, Nat.add_right_comm off, Nat.add_right_comm off'] at htail

lemma get_lt (n : ℕ) (m : ℕ → UInt8) (off : ℕ) : get n m off < 256 ^ n := by
  induction n generalizing off with
  | zero => exact Nat.one_pos
  | succ n ih =>
    have hb := UInt8.toNat_lt (m off)
    have hi := ih (off + 1)
    rw [get, pow_succ]
    omega

lemma get_inj (h : get n m off = get n m' off) : ∀ i, off ≤ i → i < off + n → m i = m' i := by
  induction n generalizing off with
  | zero => intro i h1 h2; omega
  | succ n ih =>
    intro i h1 h2
    have hb := UInt8.toNat_lt (m off)
    have hb' := UInt8.toNat_lt (m' off)
    rw [get, get] at h
    by_cases hi : i = off
    · subst hi
      exact UInt8.toNat_inj.mp (by omega)
    · have htail : get n m (off + 1) = get n m' (off + 1) := by omega
      exact ih htail i (by omega) (by omega)

lemma put_of_lt {i : ℕ} (h : i < off) : put n m off v i = m i := if_neg (by omega)

lemma put_of_ge {i : ℕ} (h : off + n ≤ i) : put n m off v i = m i := if_neg (by omega)

lemma get_put_self (n : ℕ) (m : ℕ → UInt8) (off v : ℕ) :
    get n (put n m off v) off = v % 256 ^ n := by
  induction n generalizing m off v with
  | zero => simp [get, Nat.mod_one]
  | succ n ih =>
    have hfirst : put (n + 1) m off v off = UInt8.ofNat v := by
      simp [put]
    have hrest : get n (put (n + 1) m off v) (off + 1) =
        get n (put n m (off + 1) (v / 256)) (off + 1) := by
      refine get_congr fun i h1 h2 => ?_
      obtain ⟨k, rfl⟩ := Nat.exists_eq_add_of_le h1
      rw [put, put, if_pos (by omega), if_pos (by omega), Nat.div_div_eq_div_mul, ← pow_succ',
        show off + 1 + k - off = off + 1 + k - (off + 1) + 1 by omega]
    rw [get, hfirst, hrest, ih, pow_succ', Nat.mod_mul]
    simp [UInt8.toNat_ofNat']

lemma get_put_of_disjoint {k o : ℕ} (h : o + k ≤ off ∨ off + n ≤ o) :
    get k (put n m off v) o = get k m o := by
  refine get_congr fun i h1 h2 => ?_
  rcases h with h | h
  · exact put_of_lt (by omega)
  · exact put_of_ge (by omega)

lemma put_put (w : ℕ) : put n (put n m off v) off w = put n m off w := by
  funext i
  unfold put
  split_ifs <;> rfl

/-! ### The other byte order -/

/-- The big-endian number in the `n` bytes from `off` on. -/
def getBig : ℕ → (ℕ → UInt8) → ℕ → ℕ
  | 0, _, _ => 0
  | n + 1, m, off => (m off).toNat * 256 ^ n + getBig n m (off + 1)

/-- Byte `i` of a number, the lowest one first. -/
def byte (v i : ℕ) : UInt8 := UInt8.ofNat (v / 256 ^ i)

/-- The number with its `n` bytes in the other order: `__builtin_bswap`. -/
def bswap (n v : ℕ) : ℕ := get n (fun i => byte v (n - 1 - i)) 0

lemma byte_get {i : ℕ} (hi : i < n) : byte (get n m off) i = m (off + i) := by
  induction n generalizing off i with
  | zero => omega
  | succ n ih =>
    have hb := UInt8.toNat_lt (m off)
    rw [byte, get]
    cases i with
    | zero =>
      apply UInt8.toNat_inj.mp
      rw [pow_zero, Nat.div_one, UInt8.toNat_ofNat', Nat.add_mul_mod_self_left,
        Nat.mod_eq_of_lt hb, Nat.add_zero]
    | succ i =>
      have hdiv : ((m off).toNat + 256 * get n m (off + 1)) / 256 ^ (i + 1) =
          get n m (off + 1) / 256 ^ i := by
        rw [pow_succ', ← Nat.div_div_eq_div_mul, Nat.add_mul_div_left _ _ (by omega),
          Nat.div_eq_of_lt hb, Nat.zero_add]
      have hrest := @ih (off + 1) i (by omega)
      rw [byte] at hrest
      rw [hdiv, hrest, show off + 1 + i = off + (i + 1) by omega]

lemma byte_bswap {v i : ℕ} (hi : i < n) : byte (bswap n v) i = byte v (n - 1 - i) := by
  rw [bswap, byte_get hi, Nat.zero_add]

lemma byte_mod {v i : ℕ} (hi : i < n) : byte (v % 256 ^ n) i = byte v i := by
  apply UInt8.toNat_inj.mp
  obtain ⟨k, rfl⟩ := Nat.exists_eq_add_of_lt hi
  rw [byte, byte, UInt8.toNat_ofNat', UInt8.toNat_ofNat', show i + k + 1 = i + (k + 1) by omega,
    pow_add, Nat.mod_mul_right_div_self, pow_succ', Nat.mod_mul_right_mod]

lemma get_reverse (n : ℕ) (m : ℕ → UInt8) (off : ℕ) :
    get n (fun i => m (off + (n - 1 - i))) 0 = getBig n m off := by
  have hlast : ∀ (n : ℕ) (f : ℕ → UInt8) (o : ℕ),
      get (n + 1) f o = get n f o + 256 ^ n * (f (o + n)).toNat := by
    intro n
    induction n with
    | zero => intro f o; simp [get]
    | succ n ih =>
      intro f o
      rw [get, ih, get, show o + 1 + n = o + (n + 1) by omega, pow_succ',
        Nat.mul_add, ← Nat.add_assoc, ← Nat.mul_assoc]
  induction n generalizing off with
  | zero => rfl
  | succ n ih =>
    have hrest : get n (fun i => m (off + (n + 1 - 1 - i))) 0 = getBig n m (off + 1) := by
      rw [← ih]
      refine get_congr fun i _ hi => ?_
      congr 1
      omega
    rw [hlast, getBig, hrest, Nat.add_comm, Nat.mul_comm]
    simp only [Nat.zero_add, Nat.add_sub_cancel, Nat.sub_self, Nat.add_zero]

/-- **Swapping** what was read in one order gives what is read in the other. -/
lemma bswap_get (n : ℕ) (m : ℕ → UInt8) (off : ℕ) : bswap n (get n m off) = getBig n m off := by
  rw [bswap, ← get_reverse]
  refine get_congr fun i _ hi => ?_
  exact byte_get (by omega)

lemma getBig_congr {off' : ℕ} (h : ∀ i < n, m (off + i) = m' (off' + i)) :
    getBig n m off = getBig n m' off' := by
  induction n generalizing off off' with
  | zero => rfl
  | succ n ih =>
    have hfirst := h 0 (by omega)
    have hrest : getBig n m (off + 1) = getBig n m' (off' + 1) := by
      refine ih fun i hi => ?_
      have hi' := h (i + 1) (by omega)
      rwa [show off + 1 + i = off + (i + 1) by omega, show off' + 1 + i = off' + (i + 1) by omega]
    rw [getBig, getBig, hrest]
    rw [Nat.add_zero, Nat.add_zero] at hfirst
    rw [hfirst]

end KernelModel.LittleEndian
