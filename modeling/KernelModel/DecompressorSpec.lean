import KernelModel.CompressorSpec
import KernelModel.Decompressor
import Mathlib.Data.List.GetD
import Mathlib.Data.Nat.Bitwise

/-!
The decompressor undoes the compressor.

A run is copied eight bytes at a time, up to seven bytes too far; what is written too much is
overwritten by the next run or lies behind the output. A match is at least eight bytes away
from its source, so a word that is read for it has been written before.
-/

namespace KernelModel.Decompressor

open Compressor

lemma signed_small {x : ℕ} (hx : x < 2 ^ 63) : signed x = x := if_pos hx

/-! ### Copying a run -/

/-- The memory outside of the `n + 7` bytes from `dst` on is the same. -/
def SameOutside (dst n : ℕ) (m m' : Memory) : Prop :=
  ∀ x < 2 ^ 64, x < dst ∨ dst + n + 7 ≤ x → m' x = m x

/-- The memory after `k` of the `n` bytes `f` have been copied to `dst`. -/
structure Copied (m₀ : Memory) (dst n : ℕ) (f : ℕ → UInt8) (m : Memory) (k : ℕ) : Prop where
  same : SameOutside dst n m₀ m
  bytes : ∀ i < k, i < n → m (dst + i) = f i

/-- The bytes to be copied stand at `src` when their turn comes. -/
def Supplies (m₀ : Memory) (src dst n : ℕ) (f : ℕ → UInt8) : Prop :=
  ∀ m k, Copied m₀ dst n f m k → ∀ i, k ≤ i → i < k + 8 → i < n → m ((src + i) % 2 ^ 64) = f i

section

variable {m₀ m : Memory} {src dst n : ℕ} {f : ℕ → UInt8}

lemma Copied.mono {k k' : ℕ} (h : Copied m₀ dst n f m k) (hk : k' ≤ k) : Copied m₀ dst n f m k' :=
  ⟨h.same, fun i hi hn => h.bytes i (by omega) hn⟩

lemma Copied.qword (hs : Supplies m₀ src dst n f) (hdst : dst + n + 7 ≤ 2 ^ 64) {k a : ℕ}
    (h : Copied m₀ dst n f m k) (hk : k < n) (ha : a % 2 ^ 64 = (src + k) % 2 ^ 64) :
    Copied m₀ dst n f (storeQword m (dst + k) (loadQword m a)) (k + 8) := by
  have hcopy := fun x => storeQword_loadQword m a (by omega : dst + k + 8 ≤ 2 ^ 64)
    (x := x)
  refine ⟨fun x hx hout => ?_, fun i hi hn => ?_⟩
  · rw [hcopy x hx, if_neg (by omega)]
    exact h.same x hx hout
  · rw [hcopy _ (by omega)]
    by_cases hik : i < k
    · rw [if_neg (by omega)]
      exact h.bytes i hik hn
    · rw [if_pos (by omega), ← hs m k h i (by omega) hi hn]
      congr 1
      omega

/-- The state before the last block of a copy. -/
structure Done (m₀ : Memory) (dst n : ℕ) (f : ℕ → UInt8) (s t : Cpu) : Prop where
  label : t.label = .skipCopy
  rdx : t.rdx + t.rcx = dst + n
  rdi : t.rdi = s.rdi
  rsi : t.rsi = s.rsi
  copied : Copied m₀ dst n f t.mem n

/-- The loop over the words of an aligned copy; the first `k` bytes are in place. -/
lemma copyNextQword_done (hs : Supplies m₀ src dst n f) (hdst : dst + n + 7 ≤ 2 ^ 64)
    (hn : n < 2 ^ 62) {k : ℕ} : ∀ {d : ℕ} {s : Cpu}, s.rcx ≤ s.rax + d →
      s.label = .copyNextQword → s.rax < s.rcx → k + s.rcx = n → s.rdx = dst + k →
      s.r8 % 2 ^ 64 = (src + k) % 2 ^ 64 → Copied m₀ dst n f s.mem (k + s.rax) →
      ∃ t, Reaches s t ∧ Done m₀ dst n f s t := by
  intro d
  induction d with
  | zero => intro s hd _ hlt; omega
  | succ d ih =>
    intro s hd hl hlt hk hrdx hr8 hc
    have hadd : add64 s.rdx s.rax = dst + (k + s.rax) := by
      rw [add64, hrdx]
      omega
    have hrax : add64 s.rax 8 = s.rax + 8 := by
      rw [add64]
      omega
    have hc' := hc.qword hs hdst (a := s.r8 + s.rax) (by omega) (by omega)
    have hstep : step s = copyNextQword s := by
      rw [step, hl]
    have hsr := signed_small (by omega : s.rax + 8 < 2 ^ 63)
    have hsc := signed_small (by omega : s.rcx < 2 ^ 63)
    by_cases hmore : s.rax + 8 < s.rcx
    · obtain ⟨t, hreach, ht⟩ := ih (s := step s) (by
          rw [hstep]
          simp only [copyNextQword, hrax]
          omega) (by
          rw [hstep]
          simp only [copyNextQword, hrax, hsr, hsc]
          exact if_pos (by omega)) (by rw [hstep]; simpa only [copyNextQword, hrax] using hmore)
        (by rw [hstep]; exact hk) (by rw [hstep]; exact hrdx) (by rw [hstep]; exact hr8) (by
          rw [hstep]
          simp only [copyNextQword, hrax, hadd]
          exact hc')
      refine ⟨t, (Reaches.single s).trans hreach, ?_⟩
      rw [hstep] at ht
      exact ⟨ht.label, ht.rdx, ht.rdi, ht.rsi, ht.copied⟩
    · refine ⟨step s, Reaches.single s, ?_⟩
      rw [hstep]
      refine ⟨?_, ?_, rfl, rfl, ?_⟩
      · simp only [copyNextQword, hrax, hsr, hsc]
        exact if_neg (by omega)
      · simp only [copyNextQword]
        omega
      · simp only [copyNextQword, hadd]
        exact hc'.mono (by omega)

/-- **Copying a run** of `n` bytes, for every alignment of the output. -/
lemma processChunk_done (hs : Supplies m₀ src dst n f) (hdst : dst + n + 7 ≤ 2 ^ 64)
    (hpos : 0 < n) (hn : n < 2 ^ 62) {s : Cpu} (hl : s.label = .processChunk) (hrdx : s.rdx = dst)
    (hrcx : s.rcx = n) (hr8 : s.r8 % 2 ^ 64 = src % 2 ^ 64) (hm : s.mem = m₀) :
    ∃ t, Reaches s t ∧ Done m₀ dst n f s t := by
  have hstart : Copied m₀ dst n f m₀ 0 := ⟨fun _ _ _ => rfl, fun i hi => by omega⟩
  have hstep : step s = processChunk s := by
    rw [step, hl]
  obtain ⟨a, ha⟩ : ∃ a, sub64 0 dst &&& 7 = a := ⟨_, rfl⟩
  have ha8 : a < 8 := by
    rw [← ha]
    exact lt_of_le_of_lt Nat.and_le_right (by norm_num)
  -- from the aligned place on, the loop does the rest
  have hloop : ∀ u : Cpu, u.label = .alreadyAligned → u.rdi = s.rdi → u.rsi = s.rsi → ∀ k,
      k + u.rcx = n → 0 < u.rcx → u.rdx = dst + k → u.r8 % 2 ^ 64 = (src + k) % 2 ^ 64 →
      Copied m₀ dst n f u.mem k → ∃ t, Reaches u t ∧ Done m₀ dst n f s t := by
    intro u hul hrdi hrsi k hk hupos hurdx hur8 huc
    have hustep : step u = { u with label := .copyNextQword, rax := 0 } := by
      rw [step, hul]
    obtain ⟨t, hreach, ht⟩ := copyNextQword_done hs hdst hn (s := step u) (k := k) (d := u.rcx)
      (by rw [hustep]; simp) (by rw [hustep]) (by rw [hustep]; exact hupos)
      (by rw [hustep]; exact hk) (by rw [hustep]; exact hurdx) (by rw [hustep]; exact hur8)
      (by rw [hustep]; exact huc)
    refine ⟨t, (Reaches.single u).trans hreach, ?_⟩
    rw [hustep] at ht
    exact ⟨ht.label, ht.rdx, ht.rdi.trans hrdi, ht.rsi.trans hrsi, ht.copied⟩
  by_cases ha0 : a = 0
  · have hs' : step s = { s with label := .alreadyAligned, rax := 0 } := by
      rw [hstep, processChunk]
      simp only [hrdx, ha, ha0, if_true]
    obtain ⟨t, hreach, ht⟩ := hloop (step s) (by rw [hs']) (by rw [hs']) (by rw [hs']) 0
      (by rw [hs']; simpa using hrcx) (by rw [hs']; simpa [hrcx] using hpos)
      (by rw [hs']; simpa using hrdx) (by rw [hs']; simpa using hr8)
      (by rw [hs']; simpa [hm] using hstart)
    exact ⟨t, (Reaches.single s).trans hreach, ht⟩
  · have hc := hstart.qword hs hdst (a := s.r8) hpos (by simpa using hr8)
    rw [add_zero, zero_add] at hc
    have hsa := signed_small (by omega : a < 2 ^ 63)
    have hsn := signed_small (by omega : n < 2 ^ 63)
    by_cases hshort : n ≤ a
    · have hs' : step s = ⟨.skipCopy, a, n, dst, s.rdi, s.rsi, s.r8, loadQword m₀ s.r8,
          storeQword m₀ dst (loadQword m₀ s.r8)⟩ := by
        rw [hstep, processChunk]
        simp only [hrdx, ha, if_neg ha0, hrcx, hsa, hsn, hm]
        exact if_pos (by omega)
      refine ⟨step s, Reaches.single s, ?_⟩
      rw [hs']
      exact ⟨rfl, rfl, rfl, rfl, hc.mono (by omega)⟩
    · have hs' : step s = ⟨.alreadyAligned, a, n - a, dst + a, s.rdi, s.rsi, add64 s.r8 a,
          loadQword m₀ s.r8, storeQword m₀ dst (loadQword m₀ s.r8)⟩ := by
        rw [hstep, processChunk]
        simp only [hrdx, ha, if_neg ha0, hrcx, hsa, hsn, hm]
        rw [if_neg (by omega), show sub64 n a = n - a by rw [sub64]; omega,
          show add64 dst a = dst + a by rw [add64]; omega]
      obtain ⟨t, hreach, ht⟩ := hloop (step s) (by rw [hs']) (by rw [hs']) (by rw [hs']) a
        (by rw [hs']; dsimp only; omega) (by rw [hs']; dsimp only; omega) (by rw [hs'])
        (by rw [hs']; simp only [add64]; omega) (by rw [hs']; exact hc.mono (by omega))
      exact ⟨t, (Reaches.single s).trans hreach, ht⟩

end

/-! ### Headers -/

/-- The bytes `bs` stand in memory from address `a` on. -/
def Loaded (m : Memory) (a : ℕ) (bs : List UInt8) : Prop :=
  ∀ i < bs.length, m (a + i) = bs.getD i 0

lemma Loaded.left {m : Memory} {a : ℕ} {b bs : List UInt8} (h : Loaded m a (b ++ bs)) :
    Loaded m a b := by
  intro i hi
  rw [h i (by rw [List.length_append]; omega), List.getD_append _ _ _ _ hi]

lemma Loaded.right {m : Memory} {a : ℕ} {b bs : List UInt8} (h : Loaded m a (b ++ bs)) :
    Loaded m (a + b.length) bs := by
  intro i hi
  rw [add_assoc, h _ (by rw [List.length_append]; omega), List.getD_append_right _ _ _ _ (by omega),
    Nat.add_sub_cancel_left]

lemma Loaded.loadByte_eq {m : Memory} {a i : ℕ} {bs : List UInt8} (h : Loaded m a bs)
    (hi : i < bs.length) (ha : a + bs.length ≤ 2 ^ 64) :
    loadByte m (a + i) = (bs.getD i 0).toNat := by
  rw [loadByte, Nat.mod_eq_of_lt (by omega), h i hi]

lemma encodeNonMatch_small {n : ℕ} (hn : n ≤ 63) : encodeNonMatch n = [UInt8.ofNat (4 * n)] := by
  rw [encodeNonMatch, if_neg (by omega), if_neg (by omega), show 0x3f = 2 ^ 6 - 1 by norm_num,
    Nat.and_two_pow_sub_one_eq_mod, Nat.mod_eq_of_lt (by omega), Nat.shiftLeft_eq]
  simp [mul_comm]

lemma encodeNonMatch_large {n : ℕ} (hn : 63 < n) :
    encodeNonMatch n = [UInt8.ofNat (4 * (n % 64) + 2), UInt8.ofNat (n / 64)] := by
  have hor : ((n % 64) <<< 2) ||| (1 <<< 1) = 4 * (n % 64) + 2 := by
    rw [show (1 : ℕ) <<< 1 = 2 from rfl, ← Nat.shiftLeft_add_eq_or_of_lt (by norm_num : 2 < 2 ^ 2),
      Nat.shiftLeft_eq]
    omega
  rw [encodeNonMatch, if_pos (by omega), if_pos (by omega), show 0x3f = 2 ^ 6 - 1 by norm_num,
    Nat.and_two_pow_sub_one_eq_mod, hor, Nat.shiftRight_eq_div_pow]

lemma encodedMatch_eq {n o : ℕ} (hn : n < 2 ^ 13) :
    encodedMatch n o
      = [UInt8.ofNat (2 * (n % 128) + 1), UInt8.ofNat (64 * (o % 4) + n / 128),
        UInt8.ofNat (o / 4)] := by
  have h1 : ((n % 128) <<< 1) ||| 1 = 2 * (n % 128) + 1 := by
    rw [← Nat.shiftLeft_add_eq_or_of_lt (by norm_num : 1 < 2 ^ 1), Nat.shiftLeft_eq]
    omega
  have h2 : ((o % 4) <<< 6) ||| (n / 128) = 64 * (o % 4) + n / 128 := by
    rw [← Nat.shiftLeft_add_eq_or_of_lt (by omega : n / 128 < 2 ^ 6), Nat.shiftLeft_eq]
    omega
  rw [encodedMatch, show 0x7f = 2 ^ 7 - 1 by norm_num, Nat.and_two_pow_sub_one_eq_mod,
    show 3 = 2 ^ 2 - 1 by norm_num, Nat.and_two_pow_sub_one_eq_mod, Nat.shiftRight_eq_div_pow,
    Nat.shiftRight_eq_div_pow, h1, h2]

lemma toNat_ofNat {x : ℕ} (hx : x < 256) : (UInt8.ofNat x).toNat = x := by
  rw [UInt8.toNat_ofNat', Nat.mod_eq_of_lt hx]

lemma and_one_eq (x : ℕ) : x &&& 1 = x % 2 := Nat.and_one_is_mod x

lemma and_two_eq (x : ℕ) : x &&& 2 = x / 2 % 2 * 2 := by
  have h := Nat.and_two_pow x 1
  rw [Nat.testBit_eq_decide_div_mod_eq, pow_one] at h
  rcases Nat.mod_two_eq_zero_or_one (x / 2) with hx | hx <;> simpa [hx] using h

/-- The state before a run of `n` bytes is copied from `src`, with `next` the rest of the
input. -/
structure AtChunk (s t : Cpu) (n src next : ℕ) : Prop where
  label : t.label = .processChunk
  rcx : t.rcx = n
  rdx : t.rdx = s.rdx
  rdi : t.rdi = next
  rsi : t.rsi = s.rsi
  r8 : t.r8 = src
  mem : t.mem = s.mem

lemma literal_atChunk {s : Cpu} {n : ℕ} (hl : s.label = .processNextHeader)
    (hn : n ≤ maxNonMatchLength) (hload : Loaded s.mem s.rdi (encodeNonMatch n))
    (hend : s.rdi + (encodeNonMatch n).length + n < 2 ^ 64) :
    ∃ t, Reaches s t ∧
      AtChunk s t n (s.rdi + (encodeNonMatch n).length)
        (s.rdi + (encodeNonMatch n).length + n) := by
  have hmax : maxNonMatchLength = 16383 := rfl
  by_cases h63 : n ≤ 63
  · rw [encodeNonMatch_small h63] at hload hend ⊢
    rw [List.length_singleton] at hend ⊢
    have hb := hload.loadByte_eq (i := 0) (by simp) (by rw [List.length_singleton]; omega)
    rw [add_zero, List.getD_cons_zero, toNat_ofNat (by omega)] at hb
    have h1 : step s = { s with label := .readNonMatch, rax := 4 * n } := by
      rw [step, hl]
      simp only [processNextHeader, hb]
      exact if_pos (by rw [and_one_eq]; omega)
    have h2 : step (step s) = { s with label := .smallNonMatch, rax := 4 * n, rcx := n } := by
      rw [h1, step]
      simp only [readNonMatch]
      rw [if_pos (by rw [and_two_eq]; omega), Nat.shiftRight_eq_div_pow,
        show 4 * n / 2 ^ 2 = n by omega]
    refine ⟨step (step (step s)), ⟨3, rfl⟩, ?_⟩
    rw [h2, step]
    refine ⟨rfl, rfl, rfl, ?_, rfl, ?_, rfl⟩ <;> simp only [smallNonMatch, add64] <;> omega
  · rw [encodeNonMatch_large (by omega)] at hload hend ⊢
    rw [show ∀ x y : UInt8, [x, y].length = 2 from fun _ _ => rfl] at hend ⊢
    have hb := fun i hi => hload.loadByte_eq (i := i) hi (by
      rw [show ∀ x y : UInt8, [x, y].length = 2 from fun _ _ => rfl]
      omega)
    have hb0 := hb 0 (by simp)
    have hb1 := hb 1 (by simp)
    rw [add_zero, List.getD_cons_zero, toNat_ofNat (by omega)] at hb0
    rw [List.getD_cons_succ, List.getD_cons_zero, toNat_ofNat (by omega)] at hb1
    have h1 : step s = { s with label := .readNonMatch, rax := 4 * (n % 64) + 2 } := by
      rw [step, hl]
      simp only [processNextHeader, hb0]
      exact if_pos (by rw [and_one_eq]; omega)
    have hor : (4 * (n % 64) + 2) >>> 2 ||| (n / 64) <<< 6 = n := by
      rw [Nat.shiftRight_eq_div_pow, show (4 * (n % 64) + 2) / 2 ^ 2 = n % 64 by omega, Nat.or_comm,
        ← Nat.shiftLeft_add_eq_or_of_lt (by omega : n % 64 < 2 ^ 6), Nat.shiftLeft_eq]
      omega
    refine ⟨step (step s), ⟨2, rfl⟩, ?_⟩
    rw [h1, step]
    simp only [readNonMatch]
    rw [if_neg (by rw [and_two_eq]; omega)]
    refine ⟨rfl, ?_, rfl, ?_, rfl, ?_, rfl⟩ <;> simp only [hb1, hor, add64] <;> omega

lemma copy_atChunk {s : Cpu} {n o : ℕ} (hl : s.label = .processNextHeader)
    (hn : n ≤ maxMatchLength) (ho : o ≤ 1023) (hload : Loaded s.mem s.rdi (encodedMatch n o))
    (hend : s.rdi + (encodedMatch n o).length < 2 ^ 64) :
    ∃ t, Reaches s t ∧
      AtChunk s t n (sub64 s.rdx o) (s.rdi + (encodedMatch n o).length) := by
  have hmax : maxMatchLength = 8191 := rfl
  rw [encodedMatch_eq (by omega)] at hload hend ⊢
  have hlen : ∀ x y z : UInt8, [x, y, z].length = 3 := fun _ _ _ => rfl
  rw [hlen] at hend ⊢
  have hb := fun i hi => hload.loadByte_eq (i := i) hi (by rw [hlen]; omega)
  have hb0 := hb 0 (by simp)
  have hb1 := hb 1 (by simp)
  have hb2 := hb 2 (by simp)
  rw [add_zero, List.getD_cons_zero, toNat_ofNat (by omega)] at hb0
  rw [List.getD_cons_succ, List.getD_cons_zero, toNat_ofNat (by omega)] at hb1
  rw [List.getD_cons_succ, List.getD_cons_succ, List.getD_cons_zero, toNat_ofNat (by omega)] at hb2
  have hlength : ((64 * (o % 4) + n / 128) &&& 63) <<< 7 ||| (2 * (n % 128) + 1) >>> 1 = n := by
    rw [show 63 = 2 ^ 6 - 1 by norm_num, Nat.and_two_pow_sub_one_eq_mod, Nat.shiftRight_eq_div_pow,
      ← Nat.shiftLeft_add_eq_or_of_lt (by omega : (2 * (n % 128) + 1) / 2 ^ 1 < 2 ^ 7),
      Nat.shiftLeft_eq]
    omega
  have hoffset : (64 * (o % 4) + n / 128) >>> 6 ||| (o / 4) <<< 2 = o := by
    rw [Nat.shiftRight_eq_div_pow, Nat.or_comm,
      ← Nat.shiftLeft_add_eq_or_of_lt (by omega : (64 * (o % 4) + n / 128) / 2 ^ 6 < 2 ^ 2),
      Nat.shiftLeft_eq]
    omega
  refine ⟨step s, Reaches.single s, ?_⟩
  rw [step, hl]
  simp only [processNextHeader, hb0]
  rw [if_neg (by rw [and_one_eq]; omega)]
  refine ⟨rfl, ?_, rfl, ?_, rfl, ?_, rfl⟩ <;> simp only [hb1, hb2, hlength, hoffset, add64]
  omega

end KernelModel.Decompressor
