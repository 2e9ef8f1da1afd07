import KernelModel.Rsa

/-!
The reciprocal of a modulus.

Before round `j` the number `a` is the remainder of the dividend by the divisor times the power
`j + 1` of the base. The digit from the top words is the true one or one above it; in the second
case the divisor is added back, and this addition drops its carries.
-/

namespace KernelModel.Rsa

open Function Words

/-- The number is normalised and has the value. -/
structure Represents (a : RsaNumber) (v : ℕ) : Prop where
  value_eq : a.value = v
  pos : 0 < a.length
  fits : a.length ≤ a.capacity
  top : a.length = 1 ∨ a.data (a.length - 1) ≠ 0
  clear : ∀ i, a.length ≤ i → i < a.capacity → a.data i = 0

namespace Represents

variable {a : RsaNumber} {v : ℕ}

lemma length_eq (h : Represents a v) : a.length = wordLength v := by
  rw [← h.value_eq, RsaNumber.value, wordLength_eq h.pos h.top]

lemma lt (h : Represents a v) : v < base ^ a.length := by
  rw [← h.value_eq]
  exact value_lt _ _

lemma word (h : Represents a v) {i : ℕ} (hi : i < a.capacity) :
    (a.data i).toNat = digit v i := by
  rcases Nat.lt_or_ge i a.length with hlt | hge
  · rw [← h.value_eq, RsaNumber.value, digit_value hlt]
  · rw [h.clear i hge hi, digit,
      Nat.div_eq_of_lt (h.lt.trans_le (Nat.pow_le_pow_right base_pos hge)), Nat.zero_mod]
    rfl

lemma value_data (h : Represents a v) {n : ℕ} (hn : n ≤ a.capacity) :
    Words.value a.data n = v % base ^ n :=
  value_eq_of_digit fun _ hi => h.word (hi.trans_le hn)

end Represents

/-! ### The operations -/

section

variable {a b out : RsaNumber} {v w : ℕ}

lemma trim_spec (data : ℕ → UInt32) (n : ℕ) :
    trim data n ≤ n ∧ (0 < n → 0 < trim data n) ∧
      (0 < n → trim data n = 1 ∨ data (trim data n - 1) ≠ 0) ∧
      ∀ i, trim data n ≤ i → i < n → data i = 0 := by
  induction n with
  | zero => exact ⟨le_rfl, id, fun h => absurd h (lt_irrefl 0), fun i _ hi => absurd hi (by omega)⟩
  | succ n ih =>
    rw [trim]
    split_ifs with h
    · obtain ⟨hle, hpos, htop, hclear⟩ := ih
      refine ⟨by omega, fun _ => hpos (by omega), fun _ => htop (by omega), fun i h1 h2 => ?_⟩
      rcases Nat.lt_succ_iff_lt_or_eq.mp h2 with hlt | rfl
      · exact hclear i h1 hlt
      · exact h.2
    · refine ⟨le_rfl, fun _ => Nat.succ_pos n, fun _ => ?_, fun i h1 h2 => absurd h1 (by omega)⟩
      by_cases hn : n + 1 > 1
      · exact Or.inr fun h0 => h ⟨hn, h0⟩
      · exact Or.inl (by omega)

lemma normalize_represents (hpos : 0 < a.length) (hfits : a.length ≤ a.capacity) :
    Represents (normalize a) a.value := by
  have hdata : ∀ i < a.length,
      (if a.length ≤ i ∧ i < a.capacity then 0 else a.data i) = a.data i :=
    fun i hi => if_neg (by omega)
  obtain ⟨hle, htrim, htop, hclear⟩ :=
    trim_spec (fun i => if a.length ≤ i ∧ i < a.capacity then 0 else a.data i) a.length
  refine ⟨?_, htrim hpos, hle.trans hfits, htop hpos, fun i h1 h2 => ?_⟩
  · exact (value_extend hle hclear).symm.trans (value_congr hdata)
  · by_cases hi : i < a.length
    · exact hclear i h1 hi
    · exact if_pos ⟨by omega, h2⟩

lemma lessFrom_iff (f g : ℕ → UInt32) (n : ℕ) :
    lessFrom f g n = true ↔ Words.value f n < Words.value g n := by
  induction n with
  | zero => exact ⟨fun h => absurd h Bool.false_ne_true, fun h => absurd h (lt_irrefl 0)⟩
  | succ n ih =>
    rw [value_lt_value_succ, ← ih, lessFrom]
    split_ifs with hlt hgt
    · exact ⟨fun _ => Or.inl hlt, fun _ => rfl⟩
    · refine ⟨False.elim, ?_⟩
      rintro (h | ⟨h, -⟩)
      · exact hlt h
      · rw [h] at hgt
        exact UInt32.lt_irrefl _ hgt
    · have heq : f n = g n := UInt32.le_antisymm (UInt32.not_lt.mp hgt) (UInt32.not_lt.mp hlt)
      exact ⟨fun h => Or.inr ⟨heq, h⟩, fun h => h.elim (fun h => absurd h hlt) And.right⟩

lemma isLessThan_iff (ha : Represents a v) (hb : Represents b w) :
    isLessThan a b = true ↔ v < w := by
  have hpow : ∀ {x y : ℕ} {c d : RsaNumber}, Represents c x → Represents d y →
      c.length < d.length → x < y := by
    intro x y c d hc hd hlt
    by_contra hge
    have hmono : wordLength y ≤ wordLength x := by
      rw [wordLength, wordLength]
      exact Nat.add_le_add_right (Nat.log_mono_right (not_lt.mp hge)) 1
    rw [← hc.length_eq, ← hd.length_eq] at hmono
    exact absurd hlt (not_lt.mpr hmono)
  rw [isLessThan]
  split_ifs with hlt hgt
  · exact iff_of_true rfl (hpow ha hb hlt)
  · exact iff_of_false not_false (not_lt.mpr (hpow hb ha hgt).le)
  · have heq : a.length = b.length := by omega
    rw [lessFrom_iff, ← ha.value_eq, ← hb.value_eq, RsaNumber.value, RsaNumber.value, heq]

/-- The sum without carries, as far as the first number has words. -/
def carrylessSum (x y : ℕ) : ℕ :=
  ∑ i ∈ Finset.range (wordLength x), (digit x i + digit y i) % base * base ^ i

lemma addLoop_eq (f g : ℕ → UInt32) (bOffset n : ℕ) :
    addLoop f g f bOffset n =
      (fun i => if bOffset ≤ i ∧ i < bOffset + n then f i + g (i - bOffset) else f i, 0) := by
  induction n with
  | zero =>
    refine Prod.ext (funext fun i => ?_) rfl
    dsimp only [addLoop]
    rw [ite_self, if_neg (by omega)]
  | succ n ih =>
    have hword := UInt32.toNat_lt (f (bOffset + n) + g n)
    rw [addLoop, ih]
    dsimp only
    rw [Nat.zero_add, Nat.add_sub_cancel_left, Nat.mod_eq_of_lt (hword.trans (by decide)),
      Nat.div_eq_of_lt hword, UInt32.ofNat_toNat]
    refine Prod.ext (funext fun i => ?_) rfl
    dsimp only
    by_cases hi : i = bOffset + n
    · rw [hi, update_self, if_pos (by omega), Nat.add_sub_cancel_left]
    · have hin : (bOffset ≤ i ∧ i < bOffset + (n + 1)) ↔ (bOffset ≤ i ∧ i < bOffset + n) := by
        omega
      rw [update_of_ne hi]
      simp only [hin]

lemma add_represents (ha : Represents a v) (hb : Represents b w) (hcap : b.capacity = a.capacity)
    (hroom : a.length < a.capacity) (j : ℕ) :
    Represents (add a b j a) (carrylessSum v (w * base ^ j)) := by
  have hvalue : carrylessSum v (w * base ^ j) =
      Words.value (addLoop a.data b.data a.data j (a.length - j)).1 (a.length + 1) := by
    rw [addLoop_eq, value_succ]
    dsimp only
    rw [if_neg (by omega), ha.clear _ le_rfl hroom, UInt32.toNat_zero, Nat.zero_mul, carrylessSum,
      ← ha.length_eq]
    refine Eq.trans (Finset.sum_congr rfl fun i hi => ?_) (Nat.add_zero _).symm
    have hi := Finset.mem_range.mp hi
    rw [digit_mul_pow]
    dsimp only
    congr 1
    by_cases hij : i < j
    · rw [if_pos hij, if_neg (by omega), Nat.add_zero, Nat.mod_eq_of_lt (digit_lt _ _),
        ha.word (by omega)]
    · rw [if_neg hij, if_pos (by omega), UInt32.toNat_add, ha.word (by omega), hb.word (by omega)]
      rfl
  rw [hvalue]
  exact normalize_represents (Nat.succ_pos _) hroom

/-- The difference, as far as the first number has words. -/
def wrappedDifference (x y : ℕ) : ℕ :=
  (x + base ^ wordLength x - y % base ^ wordLength x) % base ^ wordLength x

lemma wrappedDifference_of_le {x y : ℕ} (h : y ≤ x) : wrappedDifference x y = x - y := by
  have hlt := lt_base_pow_wordLength x
  rw [wrappedDifference, Nat.mod_eq_of_lt (h.trans_lt hlt), Nat.add_comm, Nat.add_sub_assoc h,
    Nat.add_mod_left, Nat.mod_eq_of_lt (by omega)]

lemma subtract_word (x y : UInt32) {c : ℕ} (hc : c ≤ 1) :
    x.toNat + (if (x.toNat : ℤ) - y.toNat - c < 0 then 1 else 0) * base =
      (UInt32.ofNat (((x.toNat : ℤ) - y.toNat - c) % 2 ^ 32).toNat).toNat + y.toNat + c := by
  have hx := toNat_lt_base x
  have hy := toNat_lt_base y
  rw [toNat_ofNat]
  rw [base] at *
  split_ifs with h <;> omega

lemma subtractLoop_spec (f g o : ℕ → UInt32) (n : ℕ) :
    Words.value f n + (subtractLoop f g o n).2 * base ^ n =
        Words.value (subtractLoop f g o n).1 n + Words.value g n ∧
      (subtractLoop f g o n).2 ≤ 1 := by
  induction n with
  | zero => exact ⟨rfl, Nat.zero_le 1⟩
  | succ n ih =>
    obtain ⟨hvalue, hcarry⟩ := ih
    have hword := congrArg (· * base ^ n) (subtract_word (f n) (g n) hcarry)
    rw [subtractLoop, value_succ, value_succ, value_succ]
    dsimp only
    rw [update_self, value_update]
    refine ⟨?_, by split_ifs <;> decide⟩
    rw [Nat.add_mul, Nat.add_mul, Nat.add_mul, Nat.mul_assoc, ← pow_succ'] at hword
    omega

lemma subtract_represents (ha : Represents a v) (hb : Represents b w)
    (hcap : b.capacity = a.capacity) : Represents (subtract a b a) (wrappedDifference v w) := by
  obtain ⟨hvalue, hcarry⟩ := subtractLoop_spec a.data b.data a.data a.length
  have hlt := value_lt (subtractLoop a.data b.data a.data a.length).1 a.length
  have hdifference : wrappedDifference v w =
      Words.value (subtractLoop a.data b.data a.data a.length).1 a.length := by
    have ha' : Words.value a.data a.length = v := ha.value_eq
    rw [ha', hb.value_data (hcap ▸ ha.fits)] at hvalue
    rw [wrappedDifference, ← ha.length_eq]
    rcases Nat.le_one_iff_eq_zero_or_eq_one.mp hcarry with h0 | h1
    · rw [h0, Nat.zero_mul, Nat.add_zero] at hvalue
      have hsub : v + base ^ a.length - w % base ^ a.length =
          Words.value (subtractLoop a.data b.data a.data a.length).1 a.length +
            base ^ a.length := by omega
      rw [hsub, Nat.add_mod_right, Nat.mod_eq_of_lt hlt]
    · rw [h1, Nat.one_mul] at hvalue
      rw [hvalue, Nat.add_sub_cancel, Nat.mod_eq_of_lt hlt]
  rw [hdifference]
  exact normalize_represents ha.pos ha.fits

lemma multIntLoop_spec (f o : ℕ → UInt32) (d : UInt32) (j n : ℕ) :
    Words.value (multIntLoop f d o j n).1 (n + j) +
        (multIntLoop f d o j n).2 * base ^ (n + j) =
      Words.value f n * d.toNat * base ^ j ∧ (multIntLoop f d o j n).2 < base := by
  induction n with
  | zero =>
    refine ⟨?_, base_pos⟩
    rw [multIntLoop, Nat.zero_add, value_extend (Nat.zero_le j) fun i _ hi => if_pos hi]
    simp
  | succ n ih =>
    obtain ⟨hvalue, hcarry⟩ := ih
    have hf := toNat_lt_base (f n)
    have hd := toNat_lt_base d
    have hproduct : (f n).toNat * d.toNat ≤ (base - 1) * (base - 1) :=
      Nat.mul_le_mul (Nat.le_sub_one_of_lt hf) (Nat.le_sub_one_of_lt hd)
    have hbound : (multIntLoop f d o j n).2 + (f n).toNat * d.toNat < base * base := by
      have hsquare : (base - 1) * (base - 1) + base ≤ base * base := by decide
      omega
    have hword : base * base = 2 ^ 64 := by decide
    have hbase : (2 : ℕ) ^ 32 = base := rfl
    rw [multIntLoop]
    dsimp only
    rw [← hword, Nat.mod_eq_of_lt hbound, hbase, Nat.add_right_comm n 1 j, value_succ, update_self,
      value_update, toNat_ofNat]
    refine ⟨?_, Nat.div_lt_of_lt_mul hbound⟩
    have hsplit := Nat.mod_add_div ((multIntLoop f d o j n).2 + (f n).toNat * d.toNat) base
    generalize ((multIntLoop f d o j n).2 + (f n).toNat * d.toNat) / base = q at hsplit ⊢
    generalize ((multIntLoop f d o j n).2 + (f n).toNat * d.toNat) % base = r at hsplit ⊢
    calc Words.value (multIntLoop f d o j n).1 (n + j) + r * base ^ (n + j) +
          q * base ^ (n + j + 1)
        = Words.value (multIntLoop f d o j n).1 (n + j) + (r + base * q) * base ^ (n + j) := by
          rw [pow_succ]
          ring
      _ = Words.value f n * d.toNat * base ^ j + (f n).toNat * d.toNat * base ^ (n + j) := by
          rw [hsplit, ← hvalue]
          ring
      _ = Words.value f (n + 1) * d.toNat * base ^ j := by
          rw [value_succ, pow_add]
          ring

lemma multInt_represents (ha : Represents a v) (d : UInt32) {j : ℕ}
    (hroom : a.length + j + 1 ≤ out.capacity) :
    Represents (multInt a d out j) (v * d.toNat * base ^ j) := by
  obtain ⟨hvalue, hcarry⟩ := multIntLoop_spec a.data out.data d j a.length
  have hproduct : v * d.toNat * base ^ j = Words.value (update
      (multIntLoop a.data d out.data j a.length).1 (a.length + j)
        (UInt32.ofNat (multIntLoop a.data d out.data j a.length).2)) (a.length + j + 1) := by
    rw [value_succ, update_self, toNat_ofNat, Nat.mod_eq_of_lt hcarry,
      value_update, hvalue, ← ha.value_eq]
    rfl
  rw [hproduct]
  exact normalize_represents (Nat.succ_pos _) hroom

lemma shiftLoop_spec (f o : ℕ → UInt32) {s : ℕ} (hs : s < 32) (n : ℕ) :
    Words.value (shiftLoop f s o n).1 n + (shiftLoop f s o n).2 * base ^ n =
        Words.value f n * 2 ^ s ∧
      (shiftLoop f s o n).2 < 2 ^ s ∧ ∀ i, n ≤ i → (shiftLoop f s o n).1 i = o i := by
  induction n with
  | zero => exact ⟨by simp [shiftLoop], Nat.pow_pos (by decide), fun i _ => rfl⟩
  | succ n ih =>
    obtain ⟨hvalue, hcarry, hrest⟩ := ih
    have hf := toNat_lt_base (f n)
    have hpow : 2 ^ s ≤ 2 ^ 31 := Nat.pow_le_pow_right (by decide) (by omega)
    have hshifted : (f n).toNat <<< s < 2 ^ 64 := by
      rw [Nat.shiftLeft_eq]
      calc (f n).toNat * 2 ^ s ≤ base * 2 ^ 31 := Nat.mul_le_mul hf.le hpow
        _ < 2 ^ 64 := by decide
    have hor : (shiftLoop f s o n).2 ||| (f n).toNat <<< s % 2 ^ 64 =
        (f n).toNat * 2 ^ s + (shiftLoop f s o n).2 := by
      rw [Nat.mod_eq_of_lt hshifted, Nat.or_comm, ← Nat.shiftLeft_add_eq_or_of_lt hcarry,
        Nat.shiftLeft_eq]
    have hbase : (2 : ℕ) ^ 32 = base := rfl
    rw [shiftLoop]
    dsimp only
    rw [hor, hbase, value_succ, update_self,
      value_update, toNat_ofNat]
    refine ⟨?_, ?_, fun i hi => ?_⟩
    · have hsplit := Nat.mod_add_div ((f n).toNat * 2 ^ s + (shiftLoop f s o n).2) base
      generalize ((f n).toNat * 2 ^ s + (shiftLoop f s o n).2) / base = q at hsplit ⊢
      generalize ((f n).toNat * 2 ^ s + (shiftLoop f s o n).2) % base = r at hsplit ⊢
      calc Words.value (shiftLoop f s o n).1 n + r * base ^ n + q * base ^ (n + 1)
          = Words.value (shiftLoop f s o n).1 n + (r + base * q) * base ^ n := by
            rw [pow_succ]
            ring
        _ = Words.value f n * 2 ^ s + (f n).toNat * 2 ^ s * base ^ n := by
            rw [hsplit, ← hvalue]
            ring
        _ = Words.value f (n + 1) * 2 ^ s := by
            rw [value_succ]
            ring
    · refine Nat.div_lt_of_lt_mul ?_
      calc (f n).toNat * 2 ^ s + (shiftLoop f s o n).2
          < (f n).toNat * 2 ^ s + 2 ^ s := Nat.add_lt_add_left hcarry _
        _ = ((f n).toNat + 1) * 2 ^ s := by ring
        _ ≤ base * 2 ^ s := Nat.mul_le_mul_right _ hf
    · rw [update_of_ne (by omega)]
      exact hrest i (by omega)

end

/-! ### The digits -/

/-- The digit from the top words. -/
def estimate (b k j a : ℕ) : ℕ := min (base - 1) (a / base ^ (j + k - 2) / (b / base ^ (k - 2)))

lemma correctDigit_eq (a128 : ℕ) {b64 : ℕ} (hb : 0 < b64) (d : ℕ) :
    correctDigit a128 b64 d = min d (a128 / b64) := by
  induction d with
  | zero => exact (Nat.zero_min _).symm
  | succ d ih =>
    rw [correctDigit]
    split_ifs with h
    · have hlt : a128 / b64 < d + 1 := by
        rw [Nat.div_lt_iff_lt_mul hb, Nat.mul_comm]
        exact h
      rw [ih]
      omega
    · have hle : d + 1 ≤ a128 / b64 := by
        rw [Nat.le_div_iff_mul_le hb, Nat.mul_comm]
        exact not_lt.mp h
      exact (min_eq_left hle).symm

lemma shift_or (x : ℕ) (w : UInt32) : x <<< 32 ||| w.toNat = x * base + w.toNat := by
  rw [← Nat.shiftLeft_add_eq_or_of_lt w.toNat_lt, Nat.shiftLeft_eq]
  rfl

section

variable {a b : RsaNumber} {A V e j : ℕ}

lemma top_words (ha : Represents a A) (hb : Represents b V) (hlength : b.length = e + 2)
    (hA : A < V * base ^ (j + 1)) (hcap : j + b.length < a.capacity) :
    (a.data (j + b.length)).toNat = A / base ^ (j + e + 2) ∧
      (a.data (j + b.length)).toNat <<< 32 ||| (a.data (j + b.length - 1)).toNat =
        A / base ^ (j + e + 1) ∧
      (A / base ^ (j + e + 1)) <<< 32 ||| (a.data (j + b.length - 2)).toNat = A / base ^ (j + e) ∧
      (b.data (b.length - 1)).toNat = V / base ^ (e + 1) ∧
      (V / base ^ (e + 1)) <<< 32 ||| (b.data (b.length - 2)).toNat = V / base ^ e := by
  have hV : V < base ^ (e + 2) := hlength ▸ hb.lt
  have hA' : A < base ^ (j + e + 2 + 1) := by
    refine hA.trans_le ?_
    calc V * base ^ (j + 1) ≤ base ^ (e + 2) * base ^ (j + 1) := Nat.mul_le_mul_right _ hV.le
      _ = base ^ (j + e + 2 + 1) := by
        rw [← pow_add]
        congr 1
        omega
  have hfirst : (a.data (j + b.length)).toNat = A / base ^ (j + e + 2) := by
    rw [ha.word hcap, hlength, ← digit_eq_div hA', Nat.add_assoc]
  have hb1 := hb.fits
  have hsecond : j + b.length - 1 = j + e + 1 := by omega
  have hthird : j + b.length - 2 = j + e := by omega
  have htop : b.length - 1 = e + 1 := by omega
  have hnext : b.length - 2 = e := by omega
  refine ⟨hfirst, ?_, ?_, ?_, ?_⟩
  · rw [hfirst, shift_or, ha.word (by omega), hsecond, ← div_pow_eq]
  · rw [shift_or, ha.word (by omega), hthird, ← div_pow_eq]
  · rw [hb.word (by omega), htop, digit_eq_div hV]
  · rw [shift_or, hb.word (by omega), hnext, ← div_pow_eq]

/-- The first digit is a word, and the inner loop brings it down to the estimate. -/
lemma estimatedDigit_spec (ha : Represents a A) (hb : Represents b V) (hlength : b.length = e + 2)
    (hV : base ^ (e + 1) ≤ V) (hA : A < V * base ^ (j + 1)) (hcap : j + b.length < a.capacity) :
    trialDigit a b (j + b.length) < base ∧
      (estimatedDigit a b (j + b.length)).toNat = estimate V b.length j A := by
  obtain ⟨h1, h2, h3, h4, h5⟩ := top_words ha hb hlength hA hcap
  have htop : 0 < V / base ^ (e + 1) := Nat.div_pos hV (base_pow_pos _)
  have hle : A / base ^ (j + e + 2) ≤ V / base ^ (e + 1) := by
    have hquotient : A / base ^ (j + 1) < V := (Nat.div_lt_iff_lt_mul (base_pow_pos _)).mpr hA
    have hpow : base ^ (j + e + 2) = base ^ (j + 1) * base ^ (e + 1) := by
      rw [← pow_add]
      congr 1
      omega
    rw [hpow, ← Nat.div_div_eq_div_mul]
    exact Nat.div_le_div_right hquotient.le
  have htrial : trialDigit a b (j + b.length) = if A / base ^ (j + e + 2) = V / base ^ (e + 1) then
      base - 1 else A / base ^ (j + e + 1) / (V / base ^ (e + 1)) := by
    have hmax : 0xffffffff = base - 1 := by decide
    have hiff : a.data (j + b.length) = b.data (b.length - 1) ↔
        A / base ^ (j + e + 2) = V / base ^ (e + 1) := by
      rw [← UInt32.toNat_inj, h1, h4]
    rw [trialDigit, hmax, if_congr hiff rfl rfl, h2, h4]
  have hword : ¬A / base ^ (j + e + 2) = V / base ^ (e + 1) →
      A / base ^ (j + e + 1) / (V / base ^ (e + 1)) < base := by
    intro hne
    rw [Nat.div_lt_iff_lt_mul htop, div_pow_eq A (j + e + 1)]
    have hdigit := digit_lt A (j + e + 1)
    have hlt : A / base ^ (j + e + 1 + 1) + 1 ≤ V / base ^ (e + 1) := lt_of_le_of_ne hle hne
    calc A / base ^ (j + e + 1 + 1) * base + digit A (j + e + 1)
        < (A / base ^ (j + e + 1 + 1) + 1) * base := by
          rw [Nat.add_mul, Nat.one_mul]
          exact Nat.add_lt_add_left hdigit _
      _ ≤ V / base ^ (e + 1) * base := Nat.mul_le_mul_right _ hlt
      _ = base * (V / base ^ (e + 1)) := Nat.mul_comm _ _
  have hfits : trialDigit a b (j + b.length) < base := by
    rw [htrial]
    split_ifs with h
    · decide
    · exact hword h
  refine ⟨hfits, ?_⟩
  have hb64 : 0 < V / base ^ e :=
    Nat.div_pos ((Nat.pow_le_pow_right base_pos (Nat.le_succ e)).trans hV) (base_pow_pos _)
  have hexp : j + b.length - 2 = j + e := by omega
  have hexp' : b.length - 2 = e := by omega
  rw [estimatedDigit]
  rw [h2, h3, h4, h5, toNat_ofNat, toNat_ofNat, Nat.mod_eq_of_lt hfits, correctDigit_eq _ hb64,
    Nat.mod_eq_of_lt ((Nat.min_le_left _ _).trans_lt hfits), estimate, hexp, hexp', htrial]
  split_ifs with h
  · rfl
  · have hmin : A / base ^ (j + e) / (V / base ^ e) ≤
        A / base ^ (j + e + 1) / (V / base ^ (e + 1)) := by
      have hnext : ∀ x n : ℕ, x / base ^ n / base ^ 1 = x / base ^ (n + 1) := fun x n => by
        rw [Nat.div_div_eq_div_mul, ← pow_add]
      have hestimate := @quotient_le_estimate (A / base ^ (j + e)) (V / base ^ e) 1
        (by rwa [hnext])
      rwa [hnext, hnext] at hestimate
    rw [min_eq_right hmin, min_eq_right (hmin.trans (Nat.le_sub_one_of_lt (hword h)))]

lemma estimate_bounds (he : b.length = e + 2) (hV : base ^ (e + 1) ≤ V)
    (hA : A < V * base ^ (j + 1)) :
    A / (V * base ^ j) ≤ estimate V b.length j A ∧
      estimate V b.length j A ≤ A / (V * base ^ j) + 1 := by
  have hexp : j + b.length - 2 = j + e := by omega
  have hexp' : b.length - 2 = e := by omega
  have htop : V * base ^ j / base ^ (j + e) = V / base ^ e := by
    rw [pow_add, ← Nat.div_div_eq_div_mul, Nat.mul_div_cancel _ (base_pow_pos j)]
  have hpos : 0 < V / base ^ e :=
    Nat.div_pos ((Nat.pow_le_pow_right base_pos (Nat.le_succ e)).trans hV) (base_pow_pos _)
  have hdigit : A / (V * base ^ j) < base := by
    have hposV : 0 < V * base ^ j := Nat.mul_pos ((base_pow_pos _).trans_le hV) (base_pow_pos j)
    rw [Nat.div_lt_iff_lt_mul hposV]
    calc A < V * base ^ (j + 1) := hA
      _ = base * (V * base ^ j) := by
        rw [pow_succ]
        ring
  rw [estimate, hexp, hexp', ← htop]
  rw [← htop] at hpos
  refine ⟨le_min (Nat.le_sub_one_of_lt hdigit) (quotient_le_estimate _ hpos),
    @estimate_le_quotient _ _ (j + e) _ ?_ ?_ ?_⟩
  · exact (Nat.le_div_iff_mul_le hpos).mp (Nat.min_le_right _ _)
  · have hlt : base - 1 < base := by decide
    exact (Nat.min_le_left _ _).trans_lt hlt
  · rw [Nat.add_assoc, pow_add, Nat.mul_comm]
    exact Nat.mul_le_mul_right _ hV

/-- Where the divisor is added back, the sum without carries gives the true remainder. -/
def AddBackRight (b k j a : ℕ) : Prop :=
  a < b * estimate b k j a * base ^ j →
    wrappedDifference (carrylessSum a (b * base ^ j)) (b * estimate b k j a * base ^ j) =
      a % (b * base ^ j)

lemma divide_spec {s : Division} (ha : Represents s.a A) (hb : Represents b V)
    (hlength : b.length = e + 2) (hV : base ^ (e + 1) ≤ V) (hA : A < V * base ^ (j + 1))
    (hj : j ≤ b.length) (hroom : 2 * b.length + 3 ≤ s.a.capacity)
    (hbcap : b.capacity = s.a.capacity) (htmp : s.tmp.capacity = s.a.capacity) :
    ∃ d : UInt32, d.toNat = A / (V * base ^ j) ∧
      (divide b j s).mu = { s.mu with data := update s.mu.data j d } ∧
      (divide b j s).a.capacity = s.a.capacity ∧ (divide b j s).tmp.capacity = s.tmp.capacity ∧
      (AddBackRight V b.length j A → Represents (divide b j s).a (A % (V * base ^ j))) := by
  obtain ⟨-, hestimate⟩ := estimatedDigit_spec ha hb hlength hV hA (by omega)
  obtain ⟨hlow, hhigh⟩ := estimate_bounds hlength hV hA
  have hproduct : Represents (multInt b (estimatedDigit s.a b (j + b.length)) s.tmp j)
      (V * estimate V b.length j A * base ^ j) := by
    rw [← hestimate]
    exact multInt_represents hb _ (by omega)
  have hswap : V * estimate V b.length j A * base ^ j =
      estimate V b.length j A * (V * base ^ j) := by ring
  have hpos : 0 < V * base ^ j := Nat.mul_pos ((base_pow_pos _).trans_le hV) (base_pow_pos j)
  have hless : isLessThan s.a (multInt b (estimatedDigit s.a b (j + b.length)) s.tmp j) = true ↔
      A / (V * base ^ j) < estimate V b.length j A := by
    rw [isLessThan_iff ha hproduct, hswap, Nat.div_lt_iff_lt_mul hpos]
  by_cases hback : A / (V * base ^ j) < estimate V b.length j A
  · have heq : estimate V b.length j A = A / (V * base ^ j) + 1 := le_antisymm hhigh hback
    have hdivide : divide b j s =
        { a := subtract (add s.a b j s.a)
            (multInt b (estimatedDigit s.a b (j + b.length)) s.tmp j) (add s.a b j s.a)
          mu := { s.mu with
            data := update s.mu.data j (estimatedDigit s.a b (j + b.length) - 1) }
          tmp := multInt b (estimatedDigit s.a b (j + b.length)) s.tmp j } := by
      rw [divide]
      simp only [if_pos (hless.mpr hback)]
    have hone : (1 : UInt32) ≤ estimatedDigit s.a b (j + b.length) := by
      rw [UInt32.le_iff_toNat_le, hestimate, heq]
      exact Nat.le_add_left _ _
    refine ⟨estimatedDigit s.a b (j + b.length) - 1, ?_, by rw [hdivide], by rw [hdivide]; rfl,
      by rw [hdivide]; rfl, fun hright => ?_⟩
    · rw [UInt32.toNat_sub_of_le _ _ hone, hestimate, heq]
      rfl
    · have hlength' : s.a.length < s.a.capacity := by
        have hwords : s.a.length ≤ j + b.length + 1 := by
          rw [ha.length_eq, wordLength]
          refine Nat.succ_le_succ (Nat.lt_succ_iff.mp (Nat.log_lt_of_lt_pow' (by omega) ?_))
          calc A < V * base ^ (j + 1) := hA
            _ ≤ base ^ b.length * base ^ (j + 1) := Nat.mul_le_mul_right _ hb.lt.le
            _ = base ^ (j + b.length + 1) := by
              rw [← pow_add]
              congr 1
              omega
        omega
      rw [hdivide, ← hright (by rwa [hswap, ← Nat.div_lt_iff_lt_mul hpos])]
      exact subtract_represents (add_represents ha hb hbcap hlength' j) hproduct htmp
  · have heq : estimate V b.length j A = A / (V * base ^ j) := by omega
    have hdivide : divide b j s =
        { a := subtract s.a (multInt b (estimatedDigit s.a b (j + b.length)) s.tmp j) s.a
          mu := { s.mu with data := update s.mu.data j (estimatedDigit s.a b (j + b.length)) }
          tmp := multInt b (estimatedDigit s.a b (j + b.length)) s.tmp j } := by
      rw [divide]
      simp only [if_neg (mt hless.mp hback)]
    refine ⟨estimatedDigit s.a b (j + b.length), hestimate.trans heq, by rw [hdivide],
      by rw [hdivide]; rfl, by rw [hdivide]; rfl, fun _ => ?_⟩
    have hrest : A % (V * base ^ j) =
        wrappedDifference A (V * estimate V b.length j A * base ^ j) := by
      rw [hswap, heq, wrappedDifference_of_le (Nat.div_mul_le_self A _), Nat.mod_eq_sub_div_mul]
    rw [hdivide, hrest]
    exact subtract_represents ha hproduct htmp

end

/-! ### The divisor -/

/-- A normalised modulus of two words or more, other than the lone power of the base. -/
structure IsModulus (modulus : RsaNumber) (maxNumberLength : ℕ) : Prop where
  two_le : 2 ≤ modulus.length
  top : modulus.data (modulus.length - 1) ≠ 0
  room : 2 * modulus.length + 3 ≤ maxNumberLength
  not_power : modulus.value ≠ base ^ (modulus.length - 1)

lemma clz_spec {w : UInt32} (hw : w ≠ 0) :
    clz w < 32 ∧ 2 ^ 31 ≤ w.toNat * 2 ^ clz w ∧ (w.toNat + 1) * 2 ^ clz w ≤ base := by
  have hne : w.toNat ≠ 0 := fun h => hw (UInt32.toNat_inj.mp h)
  have hlow := Nat.log2_self_le hne
  have hhigh := Nat.lt_log2_self (n := w.toNat)
  have hlog : Nat.log2 w.toNat < 32 := (Nat.log2_lt hne).mpr w.toNat_lt
  have hsum : Nat.log2 w.toNat + clz w = 31 := by
    rw [clz]
    omega
  refine ⟨by omega, ?_, ?_⟩
  · calc 2 ^ 31 = 2 ^ Nat.log2 w.toNat * 2 ^ clz w := by rw [← pow_add, hsum]
      _ ≤ w.toNat * 2 ^ clz w := Nat.mul_le_mul_right _ hlow
  · calc (w.toNat + 1) * 2 ^ clz w ≤ 2 ^ (Nat.log2 w.toNat + 1) * 2 ^ clz w :=
          Nat.mul_le_mul_right _ hhigh
      _ = 2 ^ (Nat.log2 w.toNat + clz w + 1) := by
        rw [← pow_add]
        congr 1
        omega
      _ = base := by rw [hsum, base]

section

variable {modulus : RsaNumber} {maxNumberLength : ℕ}

/-- The value of the divisor. -/
def divisorValue (modulus : RsaNumber) : ℕ := modulus.value * 2 ^ shift modulus

/-- The dividend. -/
def dividend (modulus : RsaNumber) : ℕ := 2 ^ shift modulus * base ^ (2 * modulus.length)

lemma shift_lt (h : IsModulus modulus maxNumberLength) : shift modulus < 32 := (clz_spec h.top).1

lemma pow_le_modulus (h : IsModulus modulus maxNumberLength) :
    base ^ (modulus.length - 1) ≤ modulus.value := by
  have hge := pow_le_value h.top
  have hlength := h.two_le
  rwa [Nat.sub_add_cancel (by omega)] at hge

lemma pow_le_divisorValue (h : IsModulus modulus maxNumberLength) :
    base ^ (modulus.length - 1) ≤ divisorValue modulus :=
  (pow_le_modulus h).trans (Nat.le_mul_of_pos_right _ (Nat.pow_pos (by decide)))

lemma divisorValue_lt (h : IsModulus modulus maxNumberLength) :
    divisorValue modulus < base ^ modulus.length := by
  obtain ⟨n, hn⟩ : ∃ n, modulus.length = n + 1 := ⟨modulus.length - 1, by have := h.two_le; omega⟩
  have htop := (clz_spec h.top).2.2
  have hlt := value_lt modulus.data n
  rw [divisorValue, RsaNumber.value, shift, hn, value_succ] at *
  rw [Nat.add_sub_cancel] at *
  calc (value modulus.data n + (modulus.data n).toNat * base ^ n) * 2 ^ clz (modulus.data n)
      < (base ^ n + (modulus.data n).toNat * base ^ n) * 2 ^ clz (modulus.data n) :=
        Nat.mul_lt_mul_of_pos_right (Nat.add_lt_add_right hlt _) (Nat.pow_pos (by decide))
    _ = ((modulus.data n).toNat + 1) * 2 ^ clz (modulus.data n) * base ^ n := by ring
    _ ≤ base * base ^ n := Nat.mul_le_mul_right _ htop
    _ = base ^ (n + 1) := (pow_succ' base n).symm

lemma divisor_represents (h : IsModulus modulus maxNumberLength) :
    Represents (divisor modulus maxNumberLength) (divisorValue modulus) := by
  obtain ⟨hvalue, -, hrest⟩ :=
    shiftLoop_spec modulus.data (fun _ => 0) (shift_lt h) modulus.length
  have hlength := h.two_le
  have hroom := h.room
  have hcarry : (shiftLoop modulus.data (shift modulus) (fun _ => 0) modulus.length).2 = 0 := by
    rcases Nat.eq_zero_or_pos (shiftLoop modulus.data (shift modulus) (fun _ => 0)
      modulus.length).2 with h0 | hpos
    · exact h0
    · have hge := Nat.mul_le_mul_right (base ^ modulus.length) hpos
      have hlt := divisorValue_lt h
      rw [divisorValue, RsaNumber.value, ← hvalue] at hlt
      omega
  have heq : Words.value (divisor modulus maxNumberLength).data modulus.length =
      divisorValue modulus := by
    rw [hcarry, Nat.zero_mul, Nat.add_zero] at hvalue
    exact hvalue
  refine ⟨heq, ?_, ?_, Or.inr fun h0 => ?_, fun i hi _ => hrest i hi⟩
  · exact Nat.lt_of_lt_of_le (by decide) hlength
  · show modulus.length ≤ maxNumberLength
    omega
  · obtain ⟨n, hn⟩ : ∃ n, modulus.length = n + 1 := ⟨modulus.length - 1, by omega⟩
    have hge := pow_le_divisorValue h
    have hlt := value_lt (divisor modulus maxNumberLength).data n
    have hzero : (divisor modulus maxNumberLength).data n = 0 := by
      rwa [show (divisor modulus maxNumberLength).length - 1 = n from by
        rw [show (divisor modulus maxNumberLength).length = modulus.length from rfl, hn]
        rfl] at h0
    rw [hn, value_succ, hzero] at heq
    rw [hn, Nat.add_sub_cancel, ← heq] at hge
    rw [UInt32.toNat_zero, Nat.zero_mul, Nat.add_zero] at hge
    exact absurd hlt (not_lt.mpr hge)

lemma dividend_lt (h : IsModulus modulus maxNumberLength) :
    dividend modulus < divisorValue modulus * base ^ (modulus.length + 1) := by
  have hlength := h.two_le
  have hlt : base ^ (modulus.length - 1) < modulus.value :=
    lt_of_le_of_ne (pow_le_modulus h) h.not_power.symm
  have hexp : 2 * modulus.length = modulus.length - 1 + (modulus.length + 1) := by omega
  calc dividend modulus
      = base ^ (modulus.length - 1) * (2 ^ shift modulus * base ^ (modulus.length + 1)) := by
        rw [dividend, hexp, pow_add]
        ring
    _ < modulus.value * (2 ^ shift modulus * base ^ (modulus.length + 1)) :=
        Nat.mul_lt_mul_of_pos_right hlt
          (Nat.mul_pos (Nat.pow_pos (by decide)) (base_pow_pos _))
    _ = divisorValue modulus * base ^ (modulus.length + 1) := (Nat.mul_assoc _ _ _).symm

lemma first_represents (h : IsModulus modulus maxNumberLength) :
    Represents (firstDivision modulus maxNumberLength).a (dividend modulus) := by
  have hroom := h.room
  have hshift : 2 ^ shift modulus < base := by
    rw [base]
    exact Nat.pow_lt_pow_right (by decide) (shift_lt h)
  have hword : (UInt32.ofNat (1 <<< shift modulus)).toNat = 2 ^ shift modulus := by
    rw [toNat_ofNat, Nat.one_shiftLeft, Nat.mod_eq_of_lt hshift]
  have htop : (firstDivision modulus maxNumberLength).a.data (modulus.length * 2) =
      UInt32.ofNat (1 <<< shift modulus) := update_self ..
  refine ⟨?_, Nat.succ_pos _, ?_, Or.inr fun h0 => ?_, fun i hi _ => ?_⟩
  · show Words.value (firstDivision modulus maxNumberLength).a.data (modulus.length * 2 + 1) = _
    have hlow :
        Words.value (firstDivision modulus maxNumberLength).a.data (modulus.length * 2) = 0 :=
      value_extend (Nat.zero_le _) fun i _ hi => update_of_ne (Nat.ne_of_lt hi) _ _
    rw [value_succ, hlow, htop, hword, Nat.zero_add, dividend, Nat.mul_comm 2]
  · show modulus.length * 2 + 1 ≤ maxNumberLength
    omega
  · have hzero : UInt32.ofNat (1 <<< shift modulus) = 0 := htop.symm.trans h0
    rw [hzero] at hword
    exact absurd hword.symm (Nat.pow_pos (by decide)).ne'
  · exact update_of_ne (Nat.ne_of_gt hi) _ _

/-! ### The rounds -/

/-- The remainder before round `j`. -/
def remainder (modulus : RsaNumber) (j : ℕ) : ℕ :=
  dividend modulus % (divisorValue modulus * base ^ (j + 1))

/-- In no round but the last one is a remainder lost to the carries. -/
def AddBackExact (modulus : RsaNumber) : Prop :=
  ∀ j, 1 ≤ j → j ≤ modulus.length →
    AddBackRight (divisorValue modulus) modulus.length j (remainder modulus j)

/-- The digits that were found in the first rounds. -/
structure Found (modulus : RsaNumber) (maxNumberLength n : ℕ) (s : Division) : Prop where
  capacity : s.a.capacity = maxNumberLength
  tmpCapacity : s.tmp.capacity = maxNumberLength
  muCapacity : s.mu.capacity = maxNumberLength
  muLength : s.mu.length = modulus.length + 2
  word : ∀ i, (s.mu.data i).toNat = if modulus.length < i + n ∧ i ≤ modulus.length then
    digit (dividend modulus / divisorValue modulus) i else 0

lemma found_first : Found modulus maxNumberLength 0 (firstDivision modulus maxNumberLength) where
  capacity := rfl
  tmpCapacity := rfl
  muCapacity := rfl
  muLength := rfl
  word i := by
    rw [if_neg (by omega)]
    rfl

lemma remainder_lt (h : IsModulus modulus maxNumberLength) (j : ℕ) :
    remainder modulus j < divisorValue modulus * base ^ (j + 1) :=
  Nat.mod_lt _ (Nat.mul_pos ((base_pow_pos _).trans_le (pow_le_divisorValue h)) (base_pow_pos _))

lemma remainder_div (modulus : RsaNumber) (j : ℕ) :
    remainder modulus j / (divisorValue modulus * base ^ j) =
      digit (dividend modulus / divisorValue modulus) j := by
  have hpow : divisorValue modulus * base ^ (j + 1) = divisorValue modulus * base ^ j * base := by
    rw [pow_succ]
    ring
  rw [remainder, hpow, Nat.mod_mul_right_div_self, digit, Nat.div_div_eq_div_mul]

lemma remainder_mod (modulus : RsaNumber) (j : ℕ) :
    remainder modulus (j + 1) % (divisorValue modulus * base ^ (j + 1)) = remainder modulus j := by
  rw [remainder, remainder]
  exact Nat.mod_mod_of_dvd _ (Nat.mul_dvd_mul_left _ (pow_dvd_pow _ (Nat.le_succ _)))

lemma remainder_first (h : IsModulus modulus maxNumberLength) :
    remainder modulus modulus.length = dividend modulus :=
  Nat.mod_eq_of_lt (dividend_lt h)

lemma found_step (h : IsModulus modulus maxNumberLength) {n j : ℕ} {s : Division}
    (hn : n + j = modulus.length) (hs : Found modulus maxNumberLength n s)
    (ha : Represents s.a (remainder modulus j)) :
    Found modulus maxNumberLength (n + 1) (divide (divisor modulus maxNumberLength) j s) ∧
      (AddBackRight (divisorValue modulus) modulus.length j (remainder modulus j) →
        Represents (divide (divisor modulus maxNumberLength) j s).a
          (remainder modulus j % (divisorValue modulus * base ^ j))) := by
  obtain ⟨e, he⟩ : ∃ e, modulus.length = e + 2 := ⟨modulus.length - 2, by have := h.two_le; omega⟩
  have hroom := h.room
  have hpow : base ^ (e + 1) ≤ divisorValue modulus := by
    have hge := pow_le_divisorValue h
    rwa [he] at hge
  obtain ⟨d, hd, hmu, hacap, htmpcap, hright⟩ := divide_spec ha (divisor_represents h) he hpow
    (remainder_lt h j) (by show j ≤ modulus.length; omega)
    (by rw [hs.capacity]; exact hroom) hs.capacity.symm (hs.tmpCapacity.trans hs.capacity.symm)
  refine ⟨⟨hacap.trans hs.capacity, htmpcap.trans hs.tmpCapacity, ?_, ?_, fun i => ?_⟩, hright⟩
  · rw [hmu]
    exact hs.muCapacity
  · rw [hmu]
    exact hs.muLength
  · rw [hmu]
    dsimp only
    by_cases hi : i = j
    · rw [hi, update_self, hd, remainder_div, if_pos (by omega)]
    · have hin : (modulus.length < i + (n + 1) ∧ i ≤ modulus.length) ↔
          (modulus.length < i + n ∧ i ≤ modulus.length) := by omega
      rw [update_of_ne hi, hs.word i, if_congr hin rfl rfl]

lemma found_rounds (h : IsModulus modulus maxNumberLength) (hexact : AddBackExact modulus) (n : ℕ)
    {j : ℕ} (hn : n + j = modulus.length) :
    Found modulus maxNumberLength n (divisions modulus maxNumberLength n) ∧
      Represents (divisions modulus maxNumberLength n).a (remainder modulus j) := by
  induction n generalizing j with
  | zero =>
    obtain rfl : j = modulus.length := by omega
    refine ⟨found_first, ?_⟩
    rw [remainder_first h]
    exact first_represents h
  | succ n ih =>
    obtain ⟨hfound, ha⟩ := ih (j := j + 1) (by omega)
    obtain ⟨hfound', hright⟩ := found_step h (by omega) hfound ha
    have hround : (divisor modulus maxNumberLength).length - n = j + 1 := by
      show modulus.length - n = j + 1
      omega
    rw [divisions, hround]
    refine ⟨hfound', ?_⟩
    rw [← remainder_mod]
    exact hright (hexact (j + 1) (Nat.le_add_left 1 j) (by omega))

/-- The reciprocal is right, and each digit was a word when it was assigned. -/
structure MuExact (modulus : RsaNumber) (maxNumberLength : ℕ) : Prop where
  value_eq : (calculateMu modulus maxNumberLength).value = 2 ^ (64 * modulus.length) / modulus.value
  fits : ∀ n ≤ modulus.length, trialDigit (divisions modulus maxNumberLength n).a
    (divisor modulus maxNumberLength) (modulus.length - n + modulus.length) < 2 ^ 32

lemma quotient_eq (modulus : RsaNumber) :
    dividend modulus / divisorValue modulus = 2 ^ (64 * modulus.length) / modulus.value := by
  have hpow : base ^ (2 * modulus.length) = 2 ^ (64 * modulus.length) := by
    rw [base, ← pow_mul]
    congr 1
    omega
  rw [dividend, divisorValue, Nat.mul_comm modulus.value, hpow,
    Nat.mul_div_mul_left _ _ (Nat.pow_pos (by decide))]

/-- **The reciprocal is exact**, unless a remainder is lost to the carries of an addition. -/
theorem calculateMu_exact (modulus : RsaNumber) (maxNumberLength : ℕ)
    (h : IsModulus modulus maxNumberLength) (hexact : AddBackExact modulus) :
    MuExact modulus maxNumberLength where
  value_eq := by
    obtain ⟨hfound, ha⟩ := found_rounds h hexact modulus.length (j := 0) rfl
    obtain ⟨hlast, -⟩ := found_step h rfl hfound ha
    have hdivisions : divisions modulus maxNumberLength (modulus.length + 1) =
        divide (divisor modulus maxNumberLength) 0 (divisions modulus maxNumberLength
          modulus.length) := by
      rw [divisions]
      congr 1
      exact Nat.sub_self _
    rw [← hdivisions] at hlast
    have hroom := h.room
    have hlt : dividend modulus / divisorValue modulus < base ^ (modulus.length + 1) := by
      have hpos : 0 < divisorValue modulus := (base_pow_pos _).trans_le (pow_le_divisorValue h)
      rw [Nat.div_lt_iff_lt_mul hpos, Nat.mul_comm]
      exact dividend_lt h
    have hvalue : Words.value (divisions modulus maxNumberLength (modulus.length + 1)).mu.data
        (modulus.length + 2) = dividend modulus / divisorValue modulus := by
      rw [value_eq_of_digit (x := dividend modulus / divisorValue modulus) fun i hi => ?_]
      · exact Nat.mod_eq_of_lt (hlt.trans_le (Nat.pow_le_pow_right base_pos (Nat.le_succ _)))
      · rw [hlast.word i]
        split_ifs with hin
        · rfl
        · have hge : modulus.length + 1 ≤ i := by omega
          rw [digit, Nat.div_eq_of_lt (hlt.trans_le (Nat.pow_le_pow_right base_pos hge)),
            Nat.zero_mod]
    have hmu := normalize_represents (a := (divisions modulus maxNumberLength
      (modulus.length + 1)).mu) (by rw [hlast.muLength]; exact Nat.succ_pos _)
      (by rw [hlast.muLength, hlast.muCapacity]; omega)
    rw [calculateMu]
    refine hmu.value_eq.trans ?_
    rw [RsaNumber.value, hlast.muLength, hvalue, quotient_eq]
  fits n hn := by
    obtain ⟨e, he⟩ : ∃ e, modulus.length = e + 2 :=
      ⟨modulus.length - 2, by have := h.two_le; omega⟩
    have hroom := h.room
    have hpow : base ^ (e + 1) ≤ divisorValue modulus := by
      have hge := pow_le_divisorValue h
      rwa [he] at hge
    obtain ⟨hfound, ha⟩ := found_rounds h hexact n (j := modulus.length - n) (by omega)
    refine (estimatedDigit_spec ha (divisor_represents h) he hpow (remainder_lt h _) ?_).1
    rw [hfound.capacity]
    show modulus.length - n + modulus.length < maxNumberLength
    omega

/-- A divisor of two words is never added back. -/
theorem addBackExact_of_two (h : modulus.length = 2) : AddBackExact modulus := by
  intro j _ _ hback
  refine absurd hback (not_lt.mpr ?_)
  have hestimate : estimate (divisorValue modulus) modulus.length j (remainder modulus j) ≤
      remainder modulus j / base ^ j / divisorValue modulus := by
    rw [estimate, h, Nat.add_sub_cancel, Nat.sub_self, pow_zero, Nat.div_one]
    exact Nat.min_le_right _ _
  calc divisorValue modulus * estimate (divisorValue modulus) modulus.length j
        (remainder modulus j) * base ^ j
      ≤ divisorValue modulus * (remainder modulus j / base ^ j / divisorValue modulus) *
          base ^ j := Nat.mul_le_mul_right _ (Nat.mul_le_mul_left _ hestimate)
    _ ≤ remainder modulus j / base ^ j * base ^ j :=
        Nat.mul_le_mul_right _ (Nat.mul_div_le _ _)
    _ ≤ remainder modulus j := Nat.div_mul_le_self _ _

end

/-- The number in a list of words. -/
def ofWords (words : List UInt32) (capacity : ℕ) : RsaNumber :=
  ⟨words.length, capacity, fun i => words.getD i 0⟩

/-- A modulus whose second digit is one too large at first. -/
def addedBack : RsaNumber := ofWords [0xde1196a7, 0x9275db15, 0x820b64f8] 9

example : remainder addedBack 2 <
    divisorValue addedBack * estimate (divisorValue addedBack) 3 2 (remainder addedBack 2) *
      base ^ 2 := by decide +kernel

theorem calculateMu_exact_addedBack : MuExact addedBack 9 := by
  refine calculateMu_exact _ _ ⟨by decide, by decide, by decide, by decide +kernel⟩ ?_
  intro j hpos hle hback
  have hj : j = 1 ∨ j = 2 ∨ j = 3 := by
    have hlength : addedBack.length = 3 := rfl
    omega
  rcases hj with rfl | rfl | rfl <;> revert hback <;> decide +kernel

/-- A modulus of three words whose reciprocal is wrong. -/
theorem calculateMu_fails : IsModulus (ofWords [0xa6cecc1b, 0xe9c6d92f, 0xb09d1c5d] 9) 9 ∧
    ¬MuExact (ofWords [0xa6cecc1b, 0xe9c6d92f, 0xb09d1c5d] 9) 9 := by
  refine ⟨⟨by decide, by decide, by decide, by decide +kernel⟩, fun h => absurd h.value_eq ?_⟩
  decide +kernel

end KernelModel.Rsa
