import KernelModel.RsaProcess
import KernelModel.RsaReciprocal

/-!
The exponentiation of the RSA module computes a power.

Every number of the computation is a residue: it has the right remainder and is at most the
modulus. Behind each bit of the exponent the accumulator is a power whose exponent, with the bits
of the window behind it, is what was read of the exponent.
-/

namespace KernelModel.Rsa

open Function Words

/-! ### Products -/

section

variable {a b out : RsaNumber} {v w : ℕ}

lemma multRow_spec (x : UInt32) (g o : ℕ → UInt32) (i n : ℕ) :
    Words.value (multRow x g i o n).1 (i + n) + (multRow x g i o n).2 * base ^ (i + n) =
        Words.value o (i + n) + x.toNat * Words.value g n * base ^ i ∧
      (multRow x g i o n).2 < base ∧ ∀ k, i + n ≤ k → (multRow x g i o n).1 k = o k := by
  induction n with
  | zero => exact ⟨by simp [multRow], base_pos, fun k _ => rfl⟩
  | succ n ih =>
    obtain ⟨hvalue, hcarry, hrest⟩ := ih
    generalize hrow : multRow x g i o n = r at hvalue hcarry hrest
    obtain ⟨f, c⟩ := r
    dsimp only at hvalue hcarry hrest
    have ho : f (i + n) = o (i + n) := hrest _ le_rfl
    have hx := toNat_lt_base x
    have hg := toNat_lt_base (g n)
    have hw := toNat_lt_base (o (i + n))
    -- the sum of a word, a carry and a product of words fits in two words
    have hsum : c + (o (i + n)).toNat + x.toNat * (g n).toNat < base * base := by
      have hmul : x.toNat * (g n).toNat ≤ (base - 1) * (base - 1) :=
        Nat.mul_le_mul (by omega) (by omega)
      have hb : (base - 1) * (base - 1) + (base - 1) + (base - 1) < base * base := by decide
      omega
    have hmod : (c + (o (i + n)).toNat + x.toNat * (g n).toNat) % 2 ^ 64 =
        c + (o (i + n)).toNat + x.toNat * (g n).toNat := Nat.mod_eq_of_lt hsum
    simp only [multRow, hrow, ho, hmod]
    set t := c + (o (i + n)).toNat + x.toNat * (g n).toNat with ht
    refine ⟨?_, Nat.div_lt_of_lt_mul hsum, fun k hk => ?_⟩
    · have hdiv : t % base + t / base * base = t := by
        rw [Nat.mul_comm]
        exact Nat.mod_add_div t base
      rw [← Nat.add_assoc, value_succ, value_update, update_self, toNat_ofNat, value_succ o,
        value_succ g]
      calc Words.value f (i + n) + t % base * base ^ (i + n) + t / 2 ^ 32 * base ^ (i + n + 1)
          = Words.value f (i + n) + (t % base + t / base * base) * base ^ (i + n) := by
            rw [show (2 : ℕ) ^ 32 = base from rfl, pow_succ base]
            ring
        _ = Words.value f (i + n) + c * base ^ (i + n) +
              ((o (i + n)).toNat + x.toNat * (g n).toNat) * base ^ (i + n) := by
            rw [hdiv, ht]
            ring
        _ = _ := by
            rw [hvalue, pow_add]
            ring
    · rw [update_of_ne (by omega)]
      exact hrest k (by omega)

lemma multLoop_succ (f : ℕ → UInt32) (s : ℕ) (g : ℕ → UInt32) (m : ℕ) (o : ℕ → UInt32) (n : ℕ) :
    multLoop f s g m o (n + 1) =
      update (multRow (f (n + s)) g n (multLoop f s g m o n) m).1 (n + m)
        (UInt32.ofNat (multRow (f (n + s)) g n (multLoop f s g m o n) m).2) := rfl

lemma multLoop_spec (f : ℕ → UInt32) (s : ℕ) (g : ℕ → UInt32) (m : ℕ) {o : ℕ → UInt32}
    (ho : ∀ i < m, o i = 0) (n : ℕ) :
    Words.value (multLoop f s g m o n) (n + m) =
      Words.value (fun i => f (i + s)) n * Words.value g m := by
  induction n with
  | zero =>
    rw [multLoop, Nat.zero_add, value_zero, Nat.zero_mul]
    exact value_extend (Nat.zero_le m) fun i _ hi => ho i hi
  | succ n ih =>
    obtain ⟨hvalue, hcarry, -⟩ := multRow_spec (f (n + s)) g (multLoop f s g m o n) n m
    rw [ih] at hvalue
    rw [multLoop_succ, show n + 1 + m = n + m + 1 by omega, value_succ, value_update, update_self,
      toNat_ofNat, Nat.mod_eq_of_lt hcarry, hvalue, value_succ]
    ring

lemma value_shifted (f : ℕ → UInt32) (s n : ℕ) :
    Words.value (fun i => f (i + s)) n = Words.value f (s + n) / base ^ s := by
  rw [value_div]
  exact value_congr fun i _ => by rw [Nat.add_comm]

lemma clear_data {i : ℕ} (hi : i < out.capacity) : (clear out).data i = 0 := if_pos hi

/-- **`_mult`** multiplies with what the shift leaves of the first number. -/
lemma mult_represents (ha : Represents a v) (hb : Represents b w) (s : ℕ)
    (hroom : a.length - s + b.length ≤ out.capacity) :
    Represents (mult a s b out) (v / base ^ s * w) ∧
      (mult a s b out).capacity = out.capacity := by
  have hbpos := hb.pos
  unfold mult
  dsimp only
  split_ifs with hs
  · have hv : v / base ^ s = 0 :=
      Nat.div_eq_of_lt (ha.lt.trans_le (Nat.pow_le_pow_right base_pos hs))
    rw [hv, Nat.zero_mul]
    refine ⟨⟨?_, Nat.one_pos, by show 1 ≤ out.capacity; omega, .inl rfl, fun i _ hi =>
      clear_data hi⟩, rfl⟩
    show Words.value (clear out).data 1 = 0
    exact value_extend (Nat.zero_le 1) fun i _ hi => clear_data (by omega)
  · have hproduct := multLoop_spec a.data s b.data b.length (o := (clear out).data)
      (fun i hi => clear_data (by omega)) (a.length - s)
    rw [value_shifted, show s + (a.length - s) = a.length by omega] at hproduct
    refine ⟨?_, rfl⟩
    have h := normalize_represents (a := { clear out with
      length := a.length - s + b.length
      data := multLoop a.data s b.data b.length (clear out).data (a.length - s) })
      (by show 0 < a.length - s + b.length; omega) hroom
    have hvalue : Words.value a.data a.length / base ^ s * Words.value b.data b.length =
        v / base ^ s * w := by
      rw [← ha.value_eq, ← hb.value_eq]
      rfl
    rw [← hvalue, ← hproduct]
    exact h

lemma square_eq_mult (a out : RsaNumber) (ha : 0 < a.length) : square a out = mult a 0 a out := by
  unfold square mult
  dsimp only
  rw [if_neg (by omega), Nat.sub_zero, Nat.mul_two]

/-- **`_subtract_fixed_length`** subtracts modulo a power of the base. -/
lemma subtractFixedLength_represents (ha : Represents a v) (hb : Represents b w) {n : ℕ}
    (hn : 0 < n) (hacap : n ≤ a.capacity) (hbcap : n ≤ b.capacity) {x : ℕ} (hx : x < base ^ n)
    (hvw : v % base ^ n = (w + x) % base ^ n) :
    Represents (subtractFixedLength a b n a) x := by
  obtain ⟨hvalue, hcarry⟩ := subtractLoop_spec a.data b.data a.data n
  have hlt := value_lt (subtractLoop a.data b.data a.data n).1 n
  rw [ha.value_data hacap, hb.value_data hbcap, hvw] at hvalue
  have hdifference : Words.value (subtractLoop a.data b.data a.data n).1 n = x := by
    have hmod : (Words.value (subtractLoop a.data b.data a.data n).1 n + w) % base ^ n =
        (x + w) % base ^ n := by
      have h := congrArg (· % base ^ n) hvalue
      simp only [Nat.add_mul_mod_self_right, Nat.mod_mod, Nat.add_mod_mod] at h
      rw [← h, Nat.add_comm]
    have hcancel : Words.value (subtractLoop a.data b.data a.data n).1 n ≡ x [MOD base ^ n] :=
      Nat.ModEq.add_right_cancel' w hmod
    exact Nat.ModEq.eq_of_lt_of_lt hcancel hlt hx
  rw [← hdifference]
  exact normalize_represents (a := { a with
    length := n
    data := (subtractLoop a.data b.data a.data n).1 }) hn hacap

end

/-! ### Residues -/

/-- The state of a modulus, with its exact reciprocal. -/
structure RsaState.Ready (state : RsaState) (m : ℕ) : Prop where
  pos : 0 < m
  modulus : Represents state.modulus m
  capacity : state.modulus.capacity = state.maxNumberLength
  room : 2 * state.modulus.length + 3 ≤ state.maxNumberLength
  mu : Represents state.mu (base ^ (2 * state.modulus.length) / m)

/-- The number has the remainder of the value, and is at most the modulus. -/
structure Residue (state : RsaState) (m : ℕ) (a : RsaNumber) (v : ℕ) : Prop where
  capacity : a.capacity = state.maxNumberLength
  exists_represents : ∃ r, Represents a r ∧ r ≤ m ∧ r ≡ v [MOD m]

section

variable {state : RsaState} {m : ℕ} {a b out : RsaNumber} {v w : ℕ}

lemma wordLength_le {n x : ℕ} (hn : 0 < n) (h : x < base ^ n) : wordLength x ≤ n := by
  have hlog := Nat.log_lt_of_lt_pow' hn.ne' h
  rw [wordLength]
  omega

namespace RsaState.Ready

lemma low (h : state.Ready m) : base ^ (state.modulus.length - 1) ≤ m := by
  have hpos := h.modulus.pos
  rcases h.modulus.top with h1 | htop
  · rw [h1]
    exact h.pos
  · have hge := pow_le_value htop
    rw [Nat.sub_add_cancel hpos] at hge
    exact hge.trans h.modulus.value_eq.le

lemma length_le (h : state.Ready m) (ha : Represents a v) (hv : v ≤ m) :
    a.length ≤ state.modulus.length := by
  rw [ha.length_eq]
  exact wordLength_le h.modulus.pos (hv.trans_lt h.modulus.lt)

end RsaState.Ready

lemma moduloLoop_spec (h : state.Ready m) (n : ℕ) (ha : Represents a v)
    (hcap : a.capacity = state.maxNumberLength) (hn : v ≤ n) :
    Residue state m (state.moduloLoop n a) v := by
  induction n generalizing a v with
  | zero =>
    refine ⟨hcap, v, ha, ?_, Nat.ModEq.refl v⟩
    exact hn.trans (Nat.zero_le m)
  | succ n ih =>
    rw [RsaState.moduloLoop]
    split_ifs with hless
    · have hlt := (isLessThan_iff h.modulus ha).mp hless
      have hpos := h.pos
      have hsub := subtract_represents ha h.modulus (h.capacity.trans hcap.symm)
      rw [wrappedDifference_of_le hlt.le] at hsub
      obtain ⟨hcap', r, hr, hle, hmod⟩ := ih hsub hcap (by omega)
      refine ⟨hcap', r, hr, hle, hmod.trans ?_⟩
      exact ((Nat.modEq_iff_dvd' (Nat.sub_le v m)).mpr (by rw [Nat.sub_sub_self hlt.le]))
    · exact ⟨hcap, v, ha, not_lt.mp fun hlt => hless ((isLessThan_iff h.modulus ha).mpr hlt),
        Nat.ModEq.refl v⟩

/-- **`_modulo`** leaves a residue of every value below the square of the power above the
modulus. -/
theorem modulo_residue (h : state.Ready m) (ha : Represents a v)
    (hcap : a.capacity = state.maxNumberLength)
    (hv : v < base ^ (2 * state.modulus.length)) : Residue state m (state.modulo a) v := by
  unfold RsaState.modulo
  split_ifs with hless
  · exact ⟨hcap, v, ha, ((isLessThan_iff ha h.modulus).mp hless).le, Nat.ModEq.refl v⟩
  dsimp only
  have hroom := h.room
  have hpos := h.modulus.pos
  set k := state.modulus.length with hk
  have hlength : a.length ≤ 2 * k := by
    rw [ha.length_eq]
    exact wordLength_le (by omega) hv
  have hcreate : state.create.capacity = state.maxNumberLength := rfl
  have hmulength : state.mu.length ≤ k + 2 := by
    rw [h.mu.length_eq]
    refine wordLength_le (by omega) (Nat.div_lt_of_lt_mul ?_)
    calc base ^ (2 * k) < base ^ (2 * k + 1) := Nat.pow_lt_pow_right one_lt_base (by omega)
      _ = base ^ (k - 1) * base ^ (k + 2) := by rw [← pow_add]; congr 1; omega
      _ ≤ m * base ^ (k + 2) := Nat.mul_le_mul_right _ h.low
  have h1room : a.length - (k - 1) + state.mu.length ≤ state.create.capacity := by
    rw [hcreate]
    omega
  obtain ⟨h1, h1cap⟩ := mult_represents ha h.mu (k - 1) h1room
  have h1length : (mult a (k - 1) state.mu state.create).length ≤ 2 * k + 3 := by
    rw [h1.length_eq]
    refine wordLength_le (by omega) ?_
    have hx : v / base ^ (k - 1) < base ^ (k + 1) := by
      refine Nat.div_lt_of_lt_mul (hv.trans_eq ?_)
      rw [← pow_add]
      congr 1
      omega
    calc v / base ^ (k - 1) * (base ^ (2 * k) / m)
        ≤ v / base ^ (k - 1) * base ^ (k + 2) :=
          Nat.mul_le_mul_left _ (h.mu.lt.le.trans (Nat.pow_le_pow_right base_pos hmulength))
      _ < base ^ (k + 1) * base ^ (k + 2) := Nat.mul_lt_mul_of_pos_right hx (base_pow_pos _)
      _ = base ^ (2 * k + 3) := by rw [← pow_add]; congr 1; omega
  have h2room : (mult a (k - 1) state.mu state.create).length - (k + 1) + k ≤
      state.create.capacity := by
    rw [hcreate]
    omega
  obtain ⟨h2, h2cap⟩ := mult_represents h1 h.modulus (k + 1) h2room
  obtain ⟨hle, hlt⟩ := reciprocal_estimate hpos h.low base_pos h.pos hv
  set q := v / base ^ (k - 1) * (base ^ (2 * k) / m) / base ^ (k + 1) with hq
  -- the difference is below three times the modulus, and so below the power of the base
  have hsmall : v - q * m < base ^ (k + 1) := by
    have hm : 3 * m < base ^ (k + 1) := by
      calc 3 * m ≤ 3 * base ^ k := Nat.mul_le_mul_left _ h.modulus.lt.le
        _ < base * base ^ k := Nat.mul_lt_mul_of_pos_right (by decide) (base_pow_pos k)
        _ = base ^ (k + 1) := (pow_succ' base k).symm
    have hsplit : (q + 3) * m = q * m + 3 * m := by ring
    omega
  have hsub := subtractFixedLength_represents ha h2 (n := k + 1) (Nat.succ_pos k)
    (by rw [hcap]; omega) (by rw [h2cap, hcreate]; omega) hsmall
    (by rw [Nat.add_sub_cancel' hle])
  obtain ⟨hcap', r, hr, hrle, hmod⟩ := moduloLoop_spec h _ hsub hcap hsub.value_eq.ge
  refine ⟨hcap', r, hr, hrle, hmod.trans ?_⟩
  rw [Nat.modEq_iff_dvd' (Nat.sub_le _ _), Nat.sub_sub_self hle]
  exact Nat.dvd_mul_left m q

lemma mult_residue (h : state.Ready m) (ha : Residue state m a v) (hb : Residue state m b w)
    (hcap : out.capacity = state.maxNumberLength) :
    Residue state m (state.modulo (mult a 0 b out)) (v * w) := by
  obtain ⟨hacap, r, hr, hrle, hrmod⟩ := ha
  obtain ⟨hbcap, t, ht, htle, htmod⟩ := hb
  have hroom := h.room
  have hlengthr := h.length_le hr hrle
  have hlengtht := h.length_le ht htle
  have hproduct : a.length - 0 + b.length ≤ out.capacity := by
    rw [hcap]
    omega
  obtain ⟨hmult, hmultcap⟩ := mult_represents hr ht 0 hproduct
  rw [pow_zero, Nat.div_one] at hmult
  have hlt : r * t < base ^ (2 * state.modulus.length) := by
    rw [Nat.two_mul, pow_add]
    exact Nat.mul_lt_mul'' (hrle.trans_lt h.modulus.lt) (htle.trans_lt h.modulus.lt)
  obtain ⟨hcap', x, hx, hxle, hxmod⟩ := modulo_residue h hmult (hmultcap.trans hcap) hlt
  exact ⟨hcap', x, hx, hxle, hxmod.trans (hrmod.mul htmod)⟩

lemma square_residue (h : state.Ready m) (ha : Residue state m a v)
    (hcap : out.capacity = state.maxNumberLength) :
    Residue state m (state.modulo (square a out)) (v * v) := by
  obtain ⟨r, hr, -⟩ := ha.exists_represents
  rw [square_eq_mult a out hr.pos]
  exact mult_residue h ha ha hcap

/-! ### Steps -/

/-- The accumulator has the value, and the other number can take a product. -/
def PairResidue (state : RsaState) (m : ℕ) (tmp : RsaState.Pair) (v : ℕ) : Prop :=
  Residue state m tmp.1 v ∧ tmp.2.capacity = state.maxNumberLength

variable {tmp : RsaState.Pair}

lemma squareStep_residue (h : state.Ready m) (ht : PairResidue state m tmp v) :
    PairResidue state m (state.squareStep tmp) (v * v) :=
  ⟨square_residue h ht.1 ht.2, ht.1.capacity⟩

lemma multStep_residue (h : state.Ready m) (ht : PairResidue state m tmp v)
    (hb : Residue state m b w) : PairResidue state m (state.multStep tmp b) (v * w) :=
  ⟨mult_residue h ht.1 hb ht.2, ht.1.capacity⟩

lemma squareSteps_residue (h : state.Ready m) (n : ℕ) {e : ℕ}
    (ht : PairResidue state m tmp (v ^ e)) :
    PairResidue state m (state.squareStep^[n] tmp) (v ^ (e * 2 ^ n)) := by
  induction n generalizing tmp e with
  | zero => simpa using ht
  | succ n ih =>
    have hstep := squareStep_residue h ht
    rw [← pow_add, ← Nat.mul_two] at hstep
    have hsteps := ih hstep
    rwa [Function.iterate_succ_apply, pow_succ', ← Nat.mul_assoc]

lemma tableEntry_residue (h : state.Ready m) {valueSq : RsaNumber} (ha : Residue state m a v)
    (hsq : Residue state m valueSq (v * v)) (i : ℕ) :
    Residue state m (state.tableEntry a valueSq i) (v ^ (2 * i + 1)) := by
  induction i with
  | zero => simpa [RsaState.tableEntry] using ha
  | succ i ih =>
    have hstep := mult_residue h ih hsq (rfl : state.create.capacity = state.maxNumberLength)
    have hpow : v ^ (2 * (i + 1) + 1) = v ^ (2 * i + 1) * (v * v) := by ring
    rw [hpow]
    exact hstep

lemma ffs_spec {w : ℕ} (hw : w ≠ 0) (hlt : w < 2 ^ 32) :
    ∃ p odd, ffs w = p + 1 ∧ w = odd * 2 ^ p ∧ odd % 2 = 1 := by
  obtain ⟨p, odd, hodd, rfl⟩ := Nat.exists_eq_two_pow_mul_odd hw
  have hodd' : odd % 2 = 1 := Nat.odd_iff.mp hodd
  have hp : p < 32 := by
    by_contra hp
    have hpow : 2 ^ 32 ≤ 2 ^ p := Nat.pow_le_pow_right (by decide) (by omega)
    have hle : 2 ^ p ≤ 2 ^ p * odd := Nat.le_mul_of_pos_right _ (by omega)
    omega
  refine ⟨p, odd, ?_, Nat.mul_comm _ _, hodd'⟩
  have hfind : (List.range 32).find? (2 ^ p * odd).testBit = some p := by
    rw [List.find?_range_eq_some]
    refine ⟨?_, List.mem_range.mpr hp, fun j hj => ?_⟩
    · simp [Nat.testBit_two_pow_mul, hodd']
    · simp [Nat.testBit_two_pow_mul, Nat.not_le.mpr hj]
  rw [ffs, hfind]
  rfl

/-- **A window is flushed**: the accumulator takes the bits of the window into its exponent. -/
lemma flush_residue (h : state.Ready m) {table : ℕ → RsaNumber}
    (htable : ∀ i, Residue state m (table i) (v ^ (2 * i + 1))) {s : Window} {e : ℕ}
    (hs : PairResidue state m s.tmp (v ^ e)) (hmask : s.mask ≠ 0)
    (hlt : s.mask < 2 ^ s.maskLength) (hlength : s.maskLength ≤ 6) :
    PairResidue state m (state.flush table s).tmp (v ^ (e * 2 ^ s.maskLength + s.mask)) := by
  have h32 : s.mask < 2 ^ 32 :=
    hlt.trans_le (Nat.pow_le_pow_right (by decide) (by omega))
  obtain ⟨p, odd, hffs, hw, hodd⟩ := ffs_spec hmask h32
  have hp : p ≤ s.maskLength := by
    by_contra hp
    have hpow : 2 ^ s.maskLength ≤ 2 ^ p := Nat.pow_le_pow_right (by decide) (by omega)
    have hle : 2 ^ p ≤ odd * 2 ^ p := Nat.le_mul_of_pos_left _ (by omega)
    omega
  have hdiv : s.mask / 2 ^ p = odd := by
    rw [hw, Nat.mul_div_cancel _ (Nat.pow_pos (by decide))]
  have hentry := htable (odd / 2)
  rw [show 2 * (odd / 2) + 1 = odd by omega] at hentry
  have hsquares := squareSteps_residue h (s.maskLength - p) hs
  have hmult := multStep_residue h hsquares hentry
  rw [← pow_add] at hmult
  have hpadding := squareSteps_residue h p hmult
  have hexp : (e * 2 ^ (s.maskLength - p) + odd) * 2 ^ p = e * 2 ^ s.maskLength + s.mask := by
    rw [Nat.add_mul, Nat.mul_assoc, ← pow_add, Nat.sub_add_cancel hp, hw]
  rw [hexp] at hpadding
  simp only [RsaState.flush, hffs, Nat.add_sub_cancel, hdiv]
  exact hpadding

/-- What was read of the exponent is the exponent of the accumulator, followed by the bits of the
window. -/
structure WindowInv (state : RsaState) (m v exponent i : ℕ) (s : Window) : Prop where
  residue : ∃ e, PairResidue state m s.tmp (v ^ e) ∧
    exponent / 2 ^ i = e * 2 ^ s.maskLength + s.mask
  mask_lt : s.mask < 2 ^ s.maskLength
  short : s.maskLength ≤ 5
  mask_ne : s.maskLength ≠ 0 → s.mask ≠ 0
  last : i = 0 → s.maskLength = 0

lemma mod_bit (y : ℕ) {r : ℕ} (hr : r < 32) : y % base / 2 ^ r % 2 = y / 2 ^ r % 2 := by
  have hbit := Nat.testBit_mod_two_pow y 32 r
  rw [decide_eq_true hr, Bool.true_and, Nat.testBit_eq_decide_div_mod_eq,
    Nat.testBit_eq_decide_div_mod_eq, decide_eq_decide] at hbit
  have h1 := Nat.mod_two_eq_zero_or_one (y % base / 2 ^ r)
  have h2 := Nat.mod_two_eq_zero_or_one (y / 2 ^ r)
  rw [show (2 : ℕ) ^ 32 = base from rfl] at hbit
  omega

lemma bit_eq {exponent : RsaNumber} {x : ℕ} (hx : Represents exponent x) {i : ℕ}
    (hi : i < exponent.length * 32) :
    (exponent.data (i / 32)).toNat / 2 ^ (i % 32) % 2 = x / 2 ^ i % 2 := by
  have hfits := hx.fits
  have hsplit : base ^ (i / 32) * 2 ^ (i % 32) = 2 ^ i := by
    rw [base, ← pow_mul, ← pow_add, Nat.div_add_mod]
  rw [hx.word (by omega), digit, mod_bit _ (Nat.mod_lt _ (by decide)), Nat.div_div_eq_div_mul,
    hsplit]

lemma div_pow_bit (x i : ℕ) : x / 2 ^ i = x / 2 ^ (i + 1) * 2 + x / 2 ^ i % 2 := by
  rw [pow_succ, ← Nat.div_div_eq_div_mul, Nat.div_add_mod']

/-- **A bit of the exponent** goes into the window, and the window into the accumulator. -/
lemma bitStep_inv (h : state.Ready m) {table : ℕ → RsaNumber}
    (htable : ∀ i, Residue state m (table i) (v ^ (2 * i + 1))) {exponent : RsaNumber} {x : ℕ}
    (hx : Represents exponent x) {i : ℕ} (hi : i < exponent.length * 32) {s : Window}
    (hs : WindowInv state m v x (i + 1) s) :
    WindowInv state m v x i (state.bitStep table exponent i s) := by
  obtain ⟨⟨e, hresidue, hread⟩, hlt, hshort, hne, -⟩ := hs
  have hpow : 2 ^ s.maskLength ≤ 2 ^ 5 := Nat.pow_le_pow_right (by decide) hshort
  have hbit2 := Nat.mod_lt (x / 2 ^ i) (by decide : 0 < 2)
  have hmask : (s.mask * 2 + x / 2 ^ i % 2) % 2 ^ 32 = s.mask * 2 + x / 2 ^ i % 2 :=
    Nat.mod_eq_of_lt (by omega)
  have hread' : x / 2 ^ i = e * 2 ^ (s.maskLength + 1) + (s.mask * 2 + x / 2 ^ i % 2) := by
    conv_lhs => rw [div_pow_bit x i, hread]
    rw [pow_succ]
    ring
  have hzero : s.mask * 2 + x / 2 ^ i % 2 = 0 → s.maskLength = 0 := fun h0 => by
    by_contra hlength
    exact hne hlength (by omega)
  unfold RsaState.bitStep
  simp only [bit_eq hx hi, hmask]
  set mask := s.mask * 2 + x / 2 ^ i % 2 with hmaskdef
  -- a bit that is zero in front of the window is a square
  have hsquare : mask = 0 →
      ∃ e', PairResidue state m (state.squareStep s.tmp) (v ^ e') ∧ x / 2 ^ i = e' := by
    intro h0
    have hstep := squareStep_residue h hresidue
    rw [← pow_add] at hstep
    refine ⟨e + e, hstep, ?_⟩
    rw [hread', h0, hzero h0]
    omega
  have hflush : mask ≠ 0 → s.maskLength + 1 ≤ 6 →
      WindowInv state m v x i (state.flush table ⟨mask, s.maskLength + 1, s.tmp⟩) := by
    intro h0 h6
    have hmasklt : mask < 2 ^ (s.maskLength + 1) := by
      rw [pow_succ]
      omega
    have hstep := flush_residue h htable (s := ⟨mask, s.maskLength + 1, s.tmp⟩) hresidue h0
      hmasklt h6
    refine ⟨⟨_, hstep, ?_⟩, Nat.one_pos, Nat.zero_le 5, fun h => absurd rfl h, fun _ => rfl⟩
    rw [hread']
    simp [RsaState.flush]
  by_cases h0 : mask = 0
  · obtain ⟨e', hstep, hexp⟩ := hsquare h0
    have hlength := hzero h0
    have hinv : WindowInv state m v x i ⟨0, 0, state.squareStep s.tmp⟩ :=
      ⟨⟨e', hstep, by rw [hexp]; simp⟩, Nat.one_pos, Nat.zero_le 5, fun h => absurd rfl h,
        fun _ => rfl⟩
    simpa [h0, hlength] using hinv
  · simp only [h0, if_false]
    split_ifs with hfirst h6 hlength
    · refine ⟨⟨e, hresidue, hread'⟩, ?_, by show s.maskLength + 1 ≤ 5; omega, fun _ => h0,
        fun hi0 => absurd hi0 hfirst⟩
      show mask < 2 ^ (s.maskLength + 1)
      rw [pow_succ]
      omega
    · exact hflush h0 (by omega)
    · exact hlength.elim
    · exact hflush h0 (by omega)

lemma bitLoop_residue (h : state.Ready m) {table : ℕ → RsaNumber}
    (htable : ∀ i, Residue state m (table i) (v ^ (2 * i + 1))) {exponent : RsaNumber} {x : ℕ}
    (hx : Represents exponent x) (i : ℕ) (hi : i ≤ exponent.length * 32) {s : Window}
    (hs : WindowInv state m v x i s) :
    WindowInv state m v x 0 (state.bitLoop table exponent i s) := by
  induction i generalizing s with
  | zero => exact hs
  | succ i ih => exact ih (by omega) (bitStep_inv h htable hx (by omega) hs)

end

/-! ### The exponentiation -/

lemma one_represents {state : RsaState} (h : 0 < state.maxNumberLength) :
    Represents state.one 1 := by
  refine ⟨?_, Nat.one_pos, h, .inl rfl, fun i hi _ => ?_⟩
  · have hword : state.one.data 0 = 1 := by simp [RsaState.one]
    show Words.value state.one.data 1 = 1
    rw [value_succ, value_zero, hword, pow_zero]
    rfl
  · have hi : 1 ≤ i := hi
    exact update_of_ne (by omega) _ _

lemma copyResult_represents {a out : RsaNumber} {v : ℕ} (ha : Represents a v)
    (hcap : a.capacity = out.capacity) : Represents (copyResult a out) v := by
  have hfits := ha.fits
  have hdata : ∀ i < a.capacity, (copyResult a out).data i = a.data i := fun i hi => if_pos hi
  refine ⟨?_, ha.pos, ?_, ?_, fun i hi hi' => ?_⟩
  · rw [← ha.value_eq]
    exact value_congr fun i hi => hdata i (hi.trans_le hfits)
  · exact hfits.trans hcap.le
  · have hpos := ha.pos
    refine ha.top.imp_right fun htop => ?_
    show (copyResult a out).data (a.length - 1) ≠ 0
    rw [hdata _ (by omega)]
    exact htop
  · have hi' : i < a.capacity := hi'.trans_le hcap.ge
    rw [hdata i hi']
    exact ha.clear i hi hi'

/-- The key of the state. -/
def RsaState.key (state : RsaState) : Key → Option RsaNumber
  | .publicKey => state.publicKey
  | .privateKey => state.privateKey

/-- **`rsa_state_process` is the modular exponentiation**, up to the modulus itself in the place of
zero, when the reciprocal of the state is exact. -/
theorem rsaStateProcess_power {state : RsaState} {m : ℕ} (h : state.Ready m) {value out : RsaNumber}
    (hpos : 0 < value.length) (hfits : value.length ≤ value.capacity)
    (hcap : value.capacity = state.maxNumberLength) (hvalue : value.value < m) (key : Key)
    {exponent : RsaNumber} {x : ℕ} (hkey : state.key key = some exponent)
    (hexponent : Represents exponent x) (hx : x < m)
    (hout : out.capacity = state.maxNumberLength) :
    ∃ result r, rsaStateProcess state value key out = some result ∧ Represents result r ∧ r ≤ m ∧
      r ≡ value.value ^ x [MOD m] := by
  have hnormal := normalize_represents hpos hfits
  have hresidue : Residue state m (normalize value) value.value :=
    ⟨hcap, _, hnormal, hvalue.le, Nat.ModEq.refl _⟩
  have hsq := square_residue h hresidue (rfl : state.create.capacity = state.maxNumberLength)
  have htable := tableEntry_residue h hresidue hsq
  have hroom := h.room
  have hinv : WindowInv state m value.value x (exponent.length * 32)
      ⟨0, 0, (state.one, state.create)⟩ := by
    have hone : PairResidue state m (state.one, state.create) (value.value ^ 0) :=
      ⟨⟨rfl, 1, one_represents (by omega), h.pos, by rw [pow_zero]⟩, rfl⟩
    refine ⟨⟨0, hone, ?_⟩, Nat.one_pos, Nat.zero_le 5, fun h0 => absurd rfl h0, fun _ => rfl⟩
    have hlt := hexponent.lt
    rw [base, ← pow_mul, Nat.mul_comm] at hlt
    simpa using Nat.div_eq_of_lt hlt
  obtain ⟨⟨e, ⟨⟨hcap', r, hr, hrle, hmod⟩, -⟩, hread⟩, hmask, -, -, hlast⟩ :=
    bitLoop_residue h htable hexponent _ le_rfl hinv
  rw [hlast rfl, pow_zero] at hmask
  rw [hlast rfl, Nat.lt_one_iff.mp hmask, pow_zero, Nat.div_one, Nat.mul_one,
    Nat.add_zero] at hread
  subst hread
  have hless := (isLessThan_iff hnormal h.modulus).mpr hvalue
  have hless' := (isLessThan_iff hexponent h.modulus).mpr hx
  refine ⟨_, r, ?_, copyResult_represents hr (hcap'.trans hout.symm), hrle, hmod⟩
  unfold rsaStateProcess
  cases key with
  | publicKey =>
    replace hkey : state.publicKey = some exponent := hkey
    simp only [hcap, hkey, hless, hless', hout, ne_eq, not_true_eq_false, if_false,
      Bool.not_true, Bool.false_eq_true]
  | privateKey =>
    replace hkey : state.privateKey = some exponent := hkey
    simp only [hcap, hkey, hless, hless', hout, ne_eq, not_true_eq_false, if_false,
      Bool.not_true, Bool.false_eq_true]

lemma ofWords_represents {words : List UInt32} {capacity : ℕ} (hpos : 0 < words.length)
    (hfits : words.length ≤ capacity)
    (htop : words.length = 1 ∨ words.getD (words.length - 1) 0 ≠ 0) :
    Represents (ofWords words capacity) (ofWords words capacity).value :=
  ⟨rfl, hpos, hfits, htop, fun _ hi _ =>
    List.getD_eq_getElem?_getD.trans (by rw [List.getElem?_eq_none hi]; rfl)⟩

/-- A modulus of two words, and the exponent 17. -/
def smallState : RsaState where
  maxNumberLength := 7
  modulus := ofWords [0xffffffc5, 0xffffffff] 7
  mu := ofWords [59, 0, 1] 7
  publicKey := some (ofWords [17] 7)
  privateKey := none

theorem rsaStateProcess_power_small :
    ∃ result r, rsaStateProcess smallState (ofWords [3, 5] 7) .publicKey (ofWords [0] 7) =
        some result ∧ Represents result r ∧ r ≤ (ofWords [0xffffffc5, 0xffffffff] 7).value ∧
      r ≡ (ofWords [3, 5] 7).value ^ (ofWords [17] 7).value
        [MOD (ofWords [0xffffffc5, 0xffffffff] 7).value] := by
  have hmodulus : Represents smallState.modulus (ofWords [0xffffffc5, 0xffffffff] 7).value :=
    ofWords_represents (by decide) (by decide) (by decide)
  have hmu : (ofWords [59, 0, 1] 7).value =
      base ^ (2 * smallState.modulus.length) / (ofWords [0xffffffc5, 0xffffffff] 7).value := by
    decide +kernel
  have hready : smallState.Ready (ofWords [0xffffffc5, 0xffffffff] 7).value :=
    ⟨by decide +kernel, hmodulus, rfl, by decide, hmu ▸
      ofWords_represents (by decide) (by decide) (by decide)⟩
  exact rsaStateProcess_power hready (by decide) (by decide) rfl (by decide +kernel) .publicKey
    rfl (ofWords_represents (by decide) (by decide) (by decide)) (by decide +kernel) rfl

end KernelModel.Rsa
