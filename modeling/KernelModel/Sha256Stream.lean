import KernelModel.Sha2
import KernelModel.Sha256
import Mathlib.Analysis.SpecialFunctions.Pow.NthRootLemmas
import Mathlib.Data.List.GetD

/-!
The streaming SHA-256 of the kernel is that of the standard, however a message is cut.

The invariant is about a fixed sequence of bytes, of which the state has absorbed the first `n`:
its words are the hash values after the whole blocks, and the buffer holds the bytes after them.
The padding is one more piece of the padded message.
-/

namespace KernelModel.Sha256

open LittleEndian
open Sha2 hiding padding

/-! ### Words and constants -/

/-- The words of the state, for the standard. -/
def Registers.words (r : Registers) : Words where
  a := r.a
  b := r.b
  c := r.c
  d := r.d
  e := r.e
  f := r.f
  g := r.g
  h := r.h

/-- Below `324` a prime is what no prime below `18` divides properly. -/
lemma prime_iff_of_lt {n : ℕ} (hn : n < 324) :
    n.Prime ↔ 2 ≤ n ∧ ∀ d ∈ [2, 3, 5, 7, 11, 13, 17], n % d = 0 → n = d := by
  constructor
  · intro hprime
    refine ⟨hprime.two_le, fun d hd hmod => ?_⟩
    have hne : d ≠ 1 := by
      rintro rfl
      revert hd
      decide
    exact ((Nat.dvd_prime hprime).mp (Nat.dvd_of_mod_eq_zero hmod)).resolve_left hne |>.symm
  · rintro ⟨hle, hdvd⟩
    by_contra hprime
    have hsq : n.minFac ^ 2 ≤ n := Nat.minFac_sq_le_self (by omega) hprime
    have hlt : n.minFac < 18 := by
      by_contra hge
      have hpow : 18 ^ 2 ≤ n.minFac ^ 2 := Nat.pow_le_pow_left (by omega) 2
      omega
    have hfac : n.minFac.Prime := Nat.minFac_prime (by omega)
    have hmem : n.minFac ∈ [2, 3, 5, 7, 11, 13, 17] := by
      have hsmall : ∀ p < 18, p.Prime → p ∈ [2, 3, 5, 7, 11, 13, 17] := by decide
      exact hsmall _ hlt hfac
    have heq := hdvd _ hmem (Nat.mod_eq_zero_of_dvd n.minFac_dvd)
    exact hprime (heq ▸ hfac)

lemma primes_eq : primes =
    [2, 3, 5, 7, 11, 13, 17, 19, 23, 29, 31, 37, 41, 43, 47, 53, 59, 61, 67, 71, 73, 79, 83, 89, 97,
      101, 103, 107, 109, 113, 127, 131, 137, 139, 149, 151, 157, 163, 167, 173, 179, 181, 191,
      193, 197, 199, 211, 223, 227, 229, 233, 239, 241, 251, 257, 263, 269, 271, 277, 281, 283,
      293, 307, 311] := by
  have hfilter : primes = (List.range 312).filter fun n =>
      2 ≤ n ∧ ∀ d ∈ [2, 3, 5, 7, 11, 13, 17], n % d = 0 → n = d := by
    refine List.filter_congr fun n hn => decide_eq_decide.mpr (prime_iff_of_lt ?_)
    have := List.mem_range.mp hn
    omega
  rw [hfilter]
  decide +kernel

lemma cubeRootBits_of_bounds {n a c : ℕ}
    (h : (a * 2 ^ 32 + c) ^ 3 ≤ n * 2 ^ 96 ∧ n * 2 ^ 96 < (a * 2 ^ 32 + c + 1) ^ 3) :
    cubeRootBits n = BitVec.ofNat 32 c := by
  have hle := (Nat.le_nthRoot_iff (n := 3) (by norm_num)).mpr h.1
  have hlt : Nat.nthRoot 3 (n * 2 ^ 96) < a * 2 ^ 32 + c + 1 := by
    rw [← not_le, Nat.le_nthRoot_iff (by norm_num), not_le]
    exact h.2
  have hroot : Nat.nthRoot 3 (n * 2 ^ 96) = a * 2 ^ 32 + c := by omega
  rw [cubeRootBits, hroot, BitVec.ofNat_add, BitVec.ofNat_mul]
  simp

lemma cubeRoots : List.Forall₂ (fun n c => ∃ a < 7,
    (a * 2 ^ 32 + c) ^ 3 ≤ n * 2 ^ 96 ∧ n * 2 ^ 96 < (a * 2 ^ 32 + c + 1) ^ 3)
    primes stepConstants := by
  rw [primes_eq]
  decide +kernel

lemma stepConstant_eq (t : ℕ) (ht : t < 64) : stepConstant t = constant t := by
  have hlen : primes.length = 64 := by
    rw [primes_eq]
    rfl
  have hlen' := cubeRoots.length_eq
  obtain ⟨a, -, hbounds⟩ := cubeRoots.get (show t < primes.length by omega) (by omega)
  rw [List.get_eq_getElem, List.get_eq_getElem] at hbounds
  rw [stepConstant, constant, List.getD_eq_getElem _ _ (by omega),
    List.getD_eq_getElem _ _ (by omega)]
  exact (cubeRootBits_of_bounds hbounds).symm

/-! ### One block -/

lemma ch_eq (x y z : Word) : z ^^^ (x &&& (y ^^^ z)) = ch x y z := by
  unfold ch
  ext i
  simp only [BitVec.getElem_xor, BitVec.getElem_and, BitVec.getElem_not]
  cases x[i] <;> cases y[i] <;> cases z[i] <;> rfl

lemma maj_eq (x y z : Word) : (x &&& y) ||| ((x ||| y) &&& z) = maj x y z := by
  unfold maj
  ext i
  simp only [BitVec.getElem_xor, BitVec.getElem_and, BitVec.getElem_or]
  cases x[i] <;> cases y[i] <;> cases z[i] <;> rfl

lemma round_eq (a b c d e f g h w k : Word) :
    round ⟨a, b, c, d, e, f, g, h⟩ k w =
      ⟨(sha256Step a b c d e f g h (w + k)).2, a, b, c, (sha256Step a b c d e f g h (w + k)).1, e,
        f, g⟩ := by
  have ht : (rotateBitsRight e 6 ^^^ rotateBitsRight e 11 ^^^ rotateBitsRight e 25) +
      (g ^^^ (e &&& (f ^^^ g))) + h + (w + k) = h + bigSigma1 e + ch e f g + k + w := by
    rw [ch_eq]
    simp only [rotateBitsRight, bigSigma1]
    ac_rfl
  simp only [Sha2.round, sha256Step, ht, maj_eq]
  simp only [rotateBitsRight, bigSigma0, BitVec.add_assoc]

lemma eightSteps_eq (w : ℕ → Word) (j : ℕ) (r : Registers) :
    (eightSteps w j r).words =
      (List.range 8).foldl (fun r i => round r (stepConstant (j + i)) (w (j + i))) r.words := by
  obtain ⟨a, b, c, d, e, f, g, h⟩ := r
  have hrange : List.range 8 = [0, 1, 2, 3, 4, 5, 6, 7] := rfl
  simp only [hrange, List.foldl_cons, List.foldl_nil, eightSteps, Registers.words, round_eq,
    Nat.add_zero]

lemma allSteps_eq (w : ℕ → Word) (r : Registers) : (allSteps w r).words =
    (List.range 64).foldl (fun r i => round r (stepConstant i) (w i)) r.words := by
  have hsplit : List.range 64 =
      (List.range 8).flatMap fun n => (List.range 8).map fun i => 8 * n + i := by decide
  have hstep : ∀ (l : List ℕ) (r : Registers),
      (l.foldl (fun r n => eightSteps w (8 * n) r) r).words =
        (l.flatMap fun n => (List.range 8).map fun i => 8 * n + i).foldl
          (fun r i => round r (stepConstant i) (w i)) r.words := by
    intro l
    induction l with
    | nil => exact fun r => rfl
    | cons n l ih =>
      intro r
      rw [List.foldl_cons, ih, eightSteps_eq, List.flatMap_cons, List.foldl_append,
        List.foldl_map]
  rw [allSteps, hstep, ← hsplit]

lemma fillWords_eq (chunk : ℕ → UInt8) (n : ℕ) :
    ∀ t < 16 + n, fillWords chunk n t = schedule (chunkWord chunk) t := by
  induction n with
  | zero =>
    intro t ht
    have h16 : t < 16 := ht
    rw [schedule_of_lt h16]
    simp only [fillWords, if_pos h16]
  | succ n ih =>
    intro t ht
    rw [fillWords]
    rcases Nat.lt_or_ge t (16 + n) with hlt | hge
    · rw [Function.update_of_ne (by omega), ih t hlt]
    · obtain rfl : t = 16 + n := by omega
      rw [Function.update_self, schedule_of_ge (by omega), ih _ (by omega), ih _ (by omega),
        ih _ (by omega), ih _ (by omega)]
      rfl

lemma processChunk_words (state : State) (chunk : ℕ → UInt8) :
    (processChunk state chunk).words = compress state.words (chunkWord chunk) := by
  have hrounds : (allSteps (fillWords chunk 48) state.toRegisters).words =
      rounds (chunkWord chunk) state.words 64 := by
    rw [allSteps_eq, rounds]
    refine List.foldl_ext _ _ _ fun r t ht => ?_
    rw [List.mem_range] at ht
    rw [stepConstant_eq t ht, fillWords_eq chunk 48 t (by omega)]
  rw [compress, ← hrounds]
  simp only [processChunk, Registers.words, BitVec.add_comm]

lemma processChunk_length (state : State) (chunk : ℕ → UInt8) :
    (processChunk state chunk).length = state.length := by
  rw [processChunk]

/-! ### What the state has absorbed -/

/-- The state after the first `n` bytes of a message. -/
structure Absorbed (message : ℕ → UInt8) (n : ℕ) (state : State) : Prop where
  length : state.length = n % 2 ^ 64
  words : state.words = Sha2.hash message (n / 64)
  buffer : ∀ i < n % 64, state.buffer i = message (64 * (n / 64) + i)

section

variable {message chunk : ℕ → UInt8} {state : State}

lemma processChunk_hash {q : ℕ} (hwords : state.words = Sha2.hash message q)
    (hchunk : ∀ i < 64, chunk i = message (64 * q + i)) :
    (processChunk state chunk).words = Sha2.hash message (q + 1) := by
  have hblock : ∀ j < 16, chunkWord chunk j = blockWord message q j := by
    intro j hj
    rw [chunkWord, blockWord, bswap_get]
    refine congrArg (BitVec.ofNat 32) (getBig_congr fun i hi => ?_)
    rw [hchunk _ (by omega), Nat.add_assoc]
  rw [processChunk_words, hwords, Sha2.hash, compress_congr hblock]

lemma processWhole_spec {q length : ℕ} (hwords : state.words = Sha2.hash message q)
    (hchunk : ∀ i < length, chunk i = message (64 * q + i)) :
    ∃ state' chunk', processWhole state chunk length = (state', chunk', length % 64) ∧
      state'.length = state.length ∧ state'.words = Sha2.hash message (q + length / 64) ∧
      ∀ i < length % 64, chunk' i = message (64 * (q + length / 64) + i) := by
  induction length using Nat.strong_induction_on generalizing state chunk q with
  | _ length ih =>
    by_cases h64 : length ≥ 64
    · rw [processWhole_of_ge h64]
      have hnext : (processChunk state chunk).words = Sha2.hash message (q + 1) :=
        processChunk_hash hwords fun i hi => hchunk i (by omega)
      have hchunk' : ∀ i < length - 64, chunk (64 + i) = message (64 * (q + 1) + i) := by
        intro i hi
        rw [hchunk _ (by omega), show 64 * q + (64 + i) = 64 * (q + 1) + i by omega]
      obtain ⟨state', chunk', heq, hlen, hw, hrest⟩ := ih (length - 64) (by omega) hnext hchunk'
      have hmod : (length - 64) % 64 = length % 64 := by omega
      have hdiv : q + 1 + (length - 64) / 64 = q + length / 64 := by omega
      rw [hmod] at heq hrest
      rw [hdiv] at hw hrest
      exact ⟨state', chunk', heq, hlen.trans (processChunk_length state chunk), hw, hrest⟩
    · have hdiv : length / 64 = 0 := by omega
      have hmod : length % 64 = length := by omega
      rw [processWhole_of_lt h64, hdiv, hmod, Nat.add_zero]
      exact ⟨state, chunk, rfl, rfl, hwords, hchunk⟩

lemma processRest_absorbed {n length : ℕ} (h : Absorbed message n state) (hn : n % 64 = 0)
    (hchunk : ∀ i < length, chunk i = message (n + i)) :
    Absorbed message (n + length) (processRest state chunk length) := by
  obtain ⟨q, rfl⟩ : ∃ q, n = 64 * q := ⟨n / 64, by omega⟩
  have hwords := h.words
  rw [Nat.mul_div_cancel_left _ (by omega)] at hwords
  obtain ⟨state', chunk', heq, hlen, hw, hrest⟩ := @processWhole_spec message chunk
    { state with length := (state.length + length) % 2 ^ 64 } q length hwords hchunk
  have hdiv : (64 * q + length) / 64 = q + length / 64 := by omega
  have hmod : (64 * q + length) % 64 = length % 64 := by omega
  simp only [processRest, heq]
  constructor
  · rw [hlen, h.length, Nat.mod_add_mod]
  · rw [hdiv]
    exact hw
  · intro i hi
    rw [hmod] at hi
    rw [hdiv, ← hrest i hi]
    exact if_pos (by omega)

lemma mask_eq (n : ℕ) : n &&& 63 = n % 64 := Nat.and_two_pow_sub_one_eq_mod n 6

lemma processChunk_absorbed {n length : ℕ} (h : Absorbed message n state)
    (hchunk : ∀ i < length, chunk i = message (n + i)) :
    Absorbed message (n + length) (hashSha256ProcessChunk state chunk length) := by
  have hpad : state.length &&& 63 = n % 64 := by
    rw [mask_eq, h.length]
    omega
  simp only [hashSha256ProcessChunk, hpad]
  by_cases h0 : length = 0
  · rw [if_pos h0, h0, Nat.add_zero]
    exact h
  rw [if_neg h0]
  by_cases hn : n % 64 = 0
  · rw [if_neg (not_not.mpr hn)]
    exact processRest_absorbed h hn hchunk
  rw [if_pos hn]
  -- the buffer after the fragment
  have hbuffer : ∀ fragment ≤ length, ∀ i < n % 64 + fragment,
      copyInto state.buffer (n % 64) chunk fragment i = message (64 * (n / 64) + i) := by
    intro fragment hle i hi
    rw [copyInto]
    split_ifs with hin
    · rw [hchunk _ (by omega)]
      congr 1
      omega
    · exact h.buffer i (by omega)
  by_cases hlong : length > 64 - n % 64
  · -- the block is completed
    simp only [if_pos hlong]
    rw [if_neg (by omega)]
    have hdiv : n + (64 - n % 64) = 64 * (n / 64 + 1) := by omega
    have hfull : Absorbed message (n + (64 - n % 64))
        (processChunk { state with
          buffer := copyInto state.buffer (n % 64) chunk (64 - n % 64)
          length := (state.length + (64 - n % 64)) % 2 ^ 64 }
          (copyInto state.buffer (n % 64) chunk (64 - n % 64))) := by
      constructor
      · rw [processChunk_length, h.length, Nat.mod_add_mod]
      · rw [hdiv, Nat.mul_div_cancel_left _ (by omega)]
        exact processChunk_hash h.words fun i hi => hbuffer _ (by omega) i (by omega)
      · intro i hi
        omega
    have hrest := @processRest_absorbed message (fun i => chunk (64 - n % 64 + i)) _ _
      (length - (64 - n % 64)) hfull (by omega)
      fun i hi => by rw [hchunk _ (by omega), Nat.add_assoc]
    rwa [Nat.add_assoc, Nat.add_sub_cancel' (by omega)] at hrest
  · simp only [if_neg hlong]
    by_cases hfill : n % 64 + length = 64
    · -- the block is completed and nothing is left
      rw [if_neg (not_not.mpr hfill), Nat.sub_self]
      have hdiv : n + length = 64 * (n / 64 + 1) := by omega
      have hfull : Absorbed message (n + length)
          (processChunk { state with
            buffer := copyInto state.buffer (n % 64) chunk length
            length := (state.length + length) % 2 ^ 64 }
            (copyInto state.buffer (n % 64) chunk length)) := by
        constructor
        · rw [processChunk_length, h.length, Nat.mod_add_mod]
        · rw [hdiv, Nat.mul_div_cancel_left _ (by omega)]
          exact processChunk_hash h.words fun i hi => hbuffer _ le_rfl i (by omega)
        · intro i hi
          omega
      have hrest := @processRest_absorbed message (fun i => chunk (length + i)) _ _ 0 hfull
        (by omega) fun i hi => absurd hi (Nat.not_lt_zero i)
      rwa [Nat.add_zero] at hrest
    · -- the block stays incomplete
      rw [if_pos hfill]
      have hdiv : (n + length) / 64 = n / 64 := by omega
      have hmod : (n + length) % 64 = n % 64 + length := by omega
      constructor
      · rw [h.length, Nat.mod_add_mod]
      · rw [hdiv]
        exact h.words
      · intro i hi
        rw [hmod] at hi
        rw [hdiv]
        exact hbuffer length le_rfl i hi

lemma pieces_absorbed (pieces : List (List UInt8)) {n : ℕ} (h : Absorbed message n state)
    (hpieces : ∀ i < pieces.flatten.length, message (n + i) = pieces.flatten.getD i 0) :
    Absorbed message (n + pieces.flatten.length)
      (pieces.foldl (fun s p => hashSha256ProcessChunk s (fun i => p.getD i 0) p.length)
        state) := by
  induction pieces generalizing n state with
  | nil => exact h
  | cons p pieces ih =>
    rw [List.flatten_cons, List.length_append] at hpieces
    have hfirst : ∀ i < p.length, p.getD i 0 = message (n + i) := by
      intro i hi
      rw [hpieces i (by omega), List.getD_append _ _ _ _ hi]
    have hrest : ∀ i < pieces.flatten.length,
        message (n + p.length + i) = pieces.flatten.getD i 0 := by
      intro i hi
      rw [Nat.add_assoc, hpieces _ (by omega), List.getD_append_right _ _ _ _ (by omega),
        Nat.add_sub_cancel_left]
    have hall := ih (processChunk_absorbed h hfirst) hrest
    rwa [Nat.add_assoc, ← List.length_append, ← List.flatten_cons] at hall

end

/-! ### The end of a message -/

lemma finalPadding_eq (n : ℕ) : finalPadding (n % 2 ^ 64) = zeroBytes n := by
  rw [finalPadding, mask_eq, zeroBytes_eq]
  omega

lemma finalLength_byte (n : ℕ) {k : ℕ} (hk : k < 8) :
    byte (bswap 8 ((n % 2 ^ 64) <<< 3 % 2 ^ 64)) k = byte (8 * n) (7 - k) := by
  have hmod : (n % 2 ^ 64) <<< 3 % 2 ^ 64 = 8 * n % 256 ^ 8 := by
    rw [Nat.shiftLeft_eq]
    omega
  rw [byte_bswap hk, hmod, byte_mod (by omega)]

lemma finalBuffer_eq (buffer : ℕ → UInt8) (n i : ℕ) (hi : i < zeroBytes n + 9) :
    finalBuffer buffer (n % 2 ^ 64) i = (Sha2.padding n).getD i 0 := by
  simp only [finalBuffer, finalPadding_eq]
  rw [Sha2.padding]
  cases i with
  | zero =>
    rw [put_of_lt (by omega), copyInto, if_neg (by omega), Function.update_self]
    rfl
  | succ i =>
    rw [List.getD_cons_succ]
    rcases Nat.lt_or_ge i (zeroBytes n) with hlt | hge
    · rw [put_of_lt (by omega), copyInto, if_pos (by omega),
        List.getD_append _ _ _ _ (by rwa [List.length_replicate]),
        List.getD_replicate _ hlt]
    · have hk : i - zeroBytes n < 8 := by omega
      rw [List.getD_append_right _ _ _ _ (by rwa [List.length_replicate]), List.length_replicate,
        put, if_pos (by omega), show i + 1 - (1 + zeroBytes n) = i - zeroBytes n by omega,
        bytesOf, List.getD_eq_getElem _ _ (by rwa [List.length_map, List.length_range]),
        List.getElem_map, List.getElem_range]
      exact finalLength_byte n hk

lemma bswap32_bytes (w : BitVec 32) :
    ((List.range 4).map fun i => byte (bswap32 w).toNat i) = bytesOf 4 w.toNat := by
  have hval : (bswap32 w).toNat = bswap 4 w.toNat :=
    Nat.mod_eq_of_lt (get_lt 4 _ 0)
  rw [hval, bytesOf]
  refine List.map_congr_left fun i hi => ?_
  exact byte_bswap (List.mem_range.mp hi)

lemma init_absorbed (buffer message : ℕ → UInt8) :
    Absorbed message 0 (hashSha256Init buffer) where
  length := rfl
  words := by
    have hwords : (hashSha256Init fun _ => 0).words = initial := by decide +kernel
    rw [Nat.zero_div, Sha2.hash, ← hwords]
    rfl
  buffer := fun i hi => absurd hi (Nat.not_lt_zero i)

lemma finalize_absorbed (l : List UInt8) (localBuffer : ℕ → UInt8) {state : State}
    (h : Absorbed (fun i => (pad l).getD i 0) l.length state) :
    (hashSha256Finalize state localBuffer).result = digest l := by
  have hlen : (pad l).length = l.length + (zeroBytes l.length + 9) := by
    rw [pad, List.length_append, length_padding]
  have hlast : ∀ i < zeroBytes l.length + 9,
      finalBuffer localBuffer state.length i = (pad l).getD (l.length + i) 0 := by
    intro i hi
    rw [h.length, finalBuffer_eq _ _ _ hi, pad, List.getD_append_right _ _ _ _ (by omega),
      Nat.add_sub_cancel_left]
  have hall := processChunk_absorbed h hlast
  have hwords := hall.words
  rw [← hlen] at hwords
  have hpadding : finalPadding state.length = zeroBytes l.length := by
    rw [h.length, finalPadding_eq]
  rw [digest, ← hwords]
  simp only [hashSha256Finalize, State.result, Words.bytes, Registers.words, hpadding,
    List.flatMap_cons, List.flatMap_nil, bswap32_bytes]

lemma pieces_absorbed_init (pieces : List (List UInt8)) (buffer : ℕ → UInt8) :
    Absorbed (fun i => (pad pieces.flatten).getD i 0) pieces.flatten.length
      (pieces.foldl (fun s p => hashSha256ProcessChunk s (fun i => p.getD i 0) p.length)
        (hashSha256Init buffer)) := by
  have hpieces := pieces_absorbed pieces
    (init_absorbed buffer fun i => (pad pieces.flatten).getD i 0) fun i hi => by
      rw [Nat.zero_add, pad, List.getD_append _ _ _ _ hi]
  rwa [Nat.zero_add] at hpieces

/-- **SHA-256 of the standard**, for every message and every way of cutting it into pieces; the
buffers may hold anything before. -/
theorem sha256_stream (pieces : List (List UInt8)) (buffer localBuffer : ℕ → UInt8) :
    (hashSha256Finalize
      (pieces.foldl (fun s p => hashSha256ProcessChunk s (fun i => p.getD i 0) p.length)
        (hashSha256Init buffer)) localBuffer).result = digest pieces.flatten :=
  finalize_absorbed _ _ (pieces_absorbed_init pieces buffer)

end KernelModel.Sha256
