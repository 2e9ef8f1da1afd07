import KernelModel.Amm
import KernelModel.Hmac

/-!
Keys from passwords.

One buffer holds the salt with the number of a block, and then each output of the function in
turn, which is also its next input. Its size is a number of 32 bits.
-/

namespace KernelModel.Pbkdf2

open LittleEndian Hmac

/-! ### The standard -/

section

variable (prf : List UInt8 → List UInt8 → List UInt8) (password salt : List UInt8)

/-- The outputs of the function for one block, each one the next input. -/
def output (block : ℕ) : ℕ → List UInt8
  | 0 => prf password (salt ++ Sha2.bytesOf 4 block)
  | j + 1 => prf password (output block j)

/-- The exclusive or of the first `j + 1` outputs. -/
def xorOutputs (block : ℕ) : ℕ → List UInt8
  | 0 => output prf password salt block 0
  | j + 1 => (xorOutputs block j).zipWith (· ^^^ ·) (output prf password salt block (j + 1))

/-- The derived key: the blocks from number one on, as many as its length needs. -/
def derivedKey (outputSize iterations length : ℕ) : List UInt8 :=
  ((List.range ((length + outputSize - 1) / outputSize)).flatMap fun i =>
    xorOutputs prf password salt (i + 1) (iterations - 1)).take length

end

/-! ### The code -/

/-- `prf_t`, a function with an output that is not empty. -/
structure Prf where
  callback : List UInt8 → List UInt8 → Option (List UInt8)
  outputSize : ℕ
  outputSize_pos : 0 < outputSize

/-- `pbkdf2_prf_hmac_sha256`; `stack` is what is on the stack before. -/
def pbkdf2PrfHmacSha256 (stack : ℕ → UInt8) : Prf where
  callback := hmacCompute (hmacSha256Function stack) stack
  outputSize := 32
  outputSize_pos := by decide

/-- `j` rounds of the inner loop: the output, and the buffer. -/
def rounds (prf : Prf) (password : List UInt8) (saltLength offset chunkLength : ℕ)
    (out buffer : Block UInt8) : ℕ → Option (Block UInt8 × Block UInt8)
  | 0 => some (out, buffer)
  | j + 1 => do
    let (out, buffer) ← rounds prf password saltLength offset chunkLength out buffer j
    let data ← buffer.read (if j ≠ 0 then prf.outputSize else (saltLength + 4) % 2 ^ 32)
    let result ← prf.callback password data
    let buffer ← buffer.copyInto 0 result
    let out ← out.modify offset (fun k x => x ^^^ buffer.data k) chunkLength
    some (out, buffer)

/-- The loop over the blocks, from number `i` at `outOffset` on. -/
def blocks (prf : Prf) (password salt : List UInt8) (iterations outLength : ℕ)
    (out buffer : Block UInt8) (i outOffset : ℕ) : Option (Block UInt8) :=
  if outOffset < outLength then
    let chunkLength := min (outLength - outOffset) prf.outputSize
    (do
      let buffer ← buffer.copyInto 0 salt
      let buffer ← buffer.copyInto salt.length ((List.range 4).map fun k => byte (bswap 4 i) k)
      rounds prf password salt.length outOffset chunkLength out buffer iterations).bind
    fun (out, buffer) =>
      blocks prf password salt iterations outLength out buffer ((i + 1) % 2 ^ 32)
        (outOffset + chunkLength)
  else some out
termination_by outLength - outOffset
decreasing_by
  have := prf.outputSize_pos
  omega

/-- `pbkdf2_compute`: the `outLength` bytes of the output; `memory` is what they hold before. -/
def pbkdf2Compute (prf : Prf) (password salt : List UInt8) (iterations outLength : ℕ)
    (memory : ℕ → UInt8) : Option (List UInt8) := do
  let length := (salt.length + 4) % 2 ^ 32
  let bufferLength := if prf.outputSize > length then prf.outputSize else length
  let allocation ← (Amm.alloc (fun _ => 0) bufferLength).join
  let buffer : Block UInt8 := ⟨bufferLength, allocation.data⟩
  let out ← (Block.mk outLength memory).copyInto 0 (List.replicate outLength 0)
  let out ← blocks prf password salt iterations outLength out buffer 1 0
  some (out.text outLength)

/-! ### They agree -/

/-- What a function computes, with outputs of its size. -/
structure Prf.Computes (prf : Prf) (f : List UInt8 → List UInt8 → List UInt8) : Prop where
  callback : ∀ password data, prf.callback password data = some (f password data)
  length : ∀ password data, (f password data).length = prf.outputSize

section

variable {prf : Prf} {f : List UInt8 → List UInt8 → List UInt8} {password salt : List UInt8}
variable {out buffer : Block UInt8} {block offset chunkLength : ℕ}

lemma length_output (h : prf.Computes f) (j : ℕ) :
    (output f password salt block j).length = prf.outputSize := by
  cases j <;> exact h.length _ _

lemma length_xorOutputs (h : prf.Computes f) (j : ℕ) :
    (xorOutputs f password salt block j).length = prf.outputSize := by
  induction j with
  | zero => exact length_output h 0
  | succ j ih => rw [xorOutputs, List.length_zipWith, ih, length_output h, Nat.min_self]

lemma stored_block (i : ℕ) :
    ((List.range 4).map fun k => byte (bswap 4 i) k) = Sha2.bytesOf 4 i :=
  List.map_congr_left fun _ hk => byte_bswap (List.mem_range.mp hk)

lemma getD_zipWith (l l' : List UInt8) (hlen : l.length = l'.length) (k : ℕ) :
    (l.zipWith (· ^^^ ·) l').getD k 0 = l.getD k 0 ^^^ l'.getD k 0 := by
  rcases Nat.lt_or_ge k l.length with hk | hk
  · rw [List.getD_eq_getElem _ _ (by rw [List.length_zipWith]; omega),
      List.getD_eq_getElem _ _ hk, List.getD_eq_getElem _ _ (by omega), List.getElem_zipWith]
  · rw [List.getD_eq_default _ _ (by rw [List.length_zipWith]; omega),
      List.getD_eq_default _ _ hk, List.getD_eq_default _ _ (by omega)]
    rfl

lemma take_eq_map {l : List UInt8} {n : ℕ} (hn : n ≤ l.length) :
    ((List.range n).map fun k => l.getD k 0) = l.take n := by
  refine List.ext_getElem (by simp [hn]) fun i h1 h2 => ?_
  rw [List.length_take] at h2
  rw [List.getElem_map, List.getElem_range, List.getD_eq_getElem _ _ (by omega),
    List.getElem_take]

/-- The output and the buffer after rounds of the inner loop: the sizes are the same, the buffer
holds the last output, and the sum stands in its place. -/
structure Summed (out buffer out' buffer' : Block UInt8) (offset chunkLength : ℕ)
    (last sum : List UInt8) : Prop where
  out_size : out'.size = out.size
  buffer_size : buffer'.size = buffer.size
  last : buffer'.text last.length = last
  sum : ∀ k, out'.data k =
    if offset ≤ k ∧ k < offset + chunkLength then sum.getD (k - offset) 0 else out.data k

/-- One round: an input of the function is read, its output is stored and added. -/
lemma round_eq (h : prf.Computes f) {n : ℕ} (hn : n ≤ buffer.size)
    (houtput : prf.outputSize ≤ buffer.size) (hchunk : chunkLength ≤ prf.outputSize)
    (hout : offset + chunkLength ≤ out.size) :
    ∃ out' buffer', (do
      let data ← buffer.read n
      let result ← prf.callback password data
      let buffer ← buffer.copyInto 0 result
      let out ← out.modify offset (fun k x => x ^^^ buffer.data k) chunkLength
      some (out, buffer)) = some (out', buffer') ∧ out'.size = out.size ∧
      buffer'.size = buffer.size ∧ buffer'.text prf.outputSize = f password (buffer.text n) ∧
      ∀ k, out'.data k = if offset ≤ k ∧ k < offset + chunkLength
        then out.data k ^^^ (f password (buffer.text n)).getD (k - offset) 0 else out.data k := by
  have hlen := h.length password (buffer.text n)
  obtain ⟨b, hb, hsize, htext⟩ := copyInto_start (hlen.trans_le houtput)
  rw [hlen] at htext
  refine ⟨⟨out.size, fun k => if offset ≤ k ∧ k < offset + chunkLength
    then out.data k ^^^ b.data (k - offset) else out.data k⟩, b, ?_, rfl, hsize, htext,
    fun k => ?_⟩
  · rw [Block.read_eq hn]
    simp only [Option.bind_eq_bind, Option.bind_some, h.callback, hb, Block.modify_eq _ hout]
  · dsimp only
    split_ifs with hk
    · rw [Block.data_eq_getD htext (by omega) 0]
    · rfl

lemma rounds_eq (h : prf.Computes f) (hsalt : salt.length + 4 < 2 ^ 32)
    (hbuffer : salt.length + 4 ≤ buffer.size) (houtput : prf.outputSize ≤ buffer.size)
    (hchunk : chunkLength ≤ prf.outputSize) (hout : offset + chunkLength ≤ out.size)
    (htext : buffer.text (salt.length + 4) = salt ++ Sha2.bytesOf 4 block)
    (hzero : ∀ k, offset ≤ k → k < offset + chunkLength → out.data k = 0) (j : ℕ) :
    ∃ out' buffer', rounds prf password salt.length offset chunkLength out buffer (j + 1) =
        some (out', buffer') ∧
      Summed out buffer out' buffer' offset chunkLength
        (output f password salt block j) (xorOutputs f password salt block j) := by
  induction j with
  | zero =>
    obtain ⟨out', buffer', heq, hsize, hsize', hlast, hsum⟩ :=
      @round_eq prf f password out buffer offset chunkLength h _ hbuffer houtput hchunk hout
    rw [htext] at hlast hsum
    refine ⟨out', buffer', ?_, hsize, hsize', ?_, fun k => ?_⟩
    · rw [rounds, rounds, ← heq, if_neg (by simp), Nat.mod_eq_of_lt hsalt]
      rfl
    · rw [length_output h, hlast]
      rfl
    · rw [hsum k]
      split_ifs with hk
      · rw [hzero k hk.1 hk.2, UInt8.zero_xor]
        rfl
      · rfl
  | succ j ih =>
    obtain ⟨out1, buffer1, heq1, hs⟩ := ih
    have hlast1 := hs.last
    rw [length_output h] at hlast1
    obtain ⟨out', buffer', heq, hsize, hsize', hlast, hsum⟩ :=
      @round_eq prf f password out1 buffer1 offset chunkLength h _
        (houtput.trans_eq hs.buffer_size.symm)
        (houtput.trans_eq hs.buffer_size.symm) hchunk (hout.trans_eq hs.out_size.symm)
    rw [hlast1] at hlast hsum
    refine ⟨out', buffer', ?_, hsize.trans hs.out_size, hsize'.trans hs.buffer_size, ?_,
      fun k => ?_⟩
    · rw [rounds, heq1, ← heq, if_pos (Nat.succ_ne_zero j)]
      rfl
    · rw [length_output h, hlast]
      rfl
    · rw [hsum k, hs.sum k]
      split_ifs with hk
      · rw [xorOutputs, getD_zipWith _ _ (by rw [length_xorOutputs h, length_output h])]
        rfl
      · rfl

lemma salted (hbuffer : salt.length + 4 ≤ buffer.size) :
    ∃ b : Block UInt8, ((buffer.copyInto 0 salt).bind fun b =>
        b.copyInto salt.length ((List.range 4).map fun k => byte (bswap 4 block) k)) = some b ∧
      b.size = buffer.size ∧ b.text (salt.length + 4) = salt ++ Sha2.bytesOf 4 block := by
  obtain ⟨b1, h1, hsize1, htext1⟩ := @copyInto_start buffer salt (by omega)
  obtain ⟨b2, h2, hsize2, htext2⟩ := @Block.copyInto_text _ b1 (Sha2.bytesOf 4 block) salt.length
    (by rw [Sha2.length_bytesOf]; omega)
  rw [Sha2.length_bytesOf, htext1] at htext2
  exact ⟨b2, by rw [h1, Option.bind_some, stored_block, h2], by omega, htext2⟩

/-- **The loop over the blocks** appends what is left of the key. -/
lemma blocks_eq (h : prf.Computes f) (hsalt : salt.length + 4 < 2 ^ 32)
    (hbuffer : salt.length + 4 ≤ buffer.size) (houtput : prf.outputSize ≤ buffer.size) (j : ℕ)
    {outLength i n : ℕ} (hout : out.size = outLength) (hle : offset ≤ outLength)
    (hzero : ∀ k, offset ≤ k → k < outLength → out.data k = 0)
    (hi : i + n ≤ 2 ^ 32) (hmany : outLength - offset ≤ n * prf.outputSize)
    (hfew : n * prf.outputSize < outLength - offset + prf.outputSize) :
    ∃ out', blocks prf password salt (j + 1) outLength out buffer i offset = some out' ∧
      out'.text outLength = out.text offset ++ ((List.range n).flatMap fun k =>
        xorOutputs f password salt (i + k) j).take (outLength - offset) := by
  induction n generalizing out buffer i offset with
  | zero =>
    have hend : offset = outLength := by omega
    refine ⟨out, by rw [blocks, if_neg (by omega)], ?_⟩
    rw [hend, Nat.sub_self, List.take_zero, List.append_nil]
  | succ n ih =>
    have hsize := prf.outputSize_pos
    rw [Nat.succ_mul] at hmany hfew
    have hmore : offset < outLength := by omega
    obtain ⟨b, hb, hbsize, hbtext⟩ := @salted salt buffer i hbuffer
    obtain ⟨out1, buffer1, hrounds, hs⟩ :=
      @rounds_eq prf f password salt out b i offset (min (outLength - offset) prf.outputSize) h
        hsalt (by omega) (by omega) (Nat.min_le_right _ _) (by omega) hbtext
        (fun k h1 h2 => hzero k h1 (by omega)) j
    have hnext : i + (n + 1) ≤ 2 ^ 32 → n ≠ 0 → (i + 1) % 2 ^ 32 = i + 1 :=
      fun hi hn => Nat.mod_eq_of_lt (by omega)
    have hchunk : out1.text (offset + min (outLength - offset) prf.outputSize) =
        out.text offset ++ (xorOutputs f password salt i j).take
          (min (outLength - offset) prf.outputSize) := by
      rw [Block.text_add, ← take_eq_map (by rw [length_xorOutputs h]; exact Nat.min_le_right _ _)]
      congr 1
      · exact Block.text_congr fun k hk => by rw [hs.sum k, if_neg (by omega)]
      · refine List.map_congr_left fun k hk => ?_
        have hlt := List.mem_range.mp hk
        rw [hs.sum, if_pos (by omega), Nat.add_sub_cancel_left]
    obtain ⟨out', hout', htext'⟩ := @ih out1 buffer1
      (offset + min (outLength - offset) prf.outputSize)
      (by rw [hs.buffer_size]; omega) (by rw [hs.buffer_size]; omega) ((i + 1) % 2 ^ 32)
      (hs.out_size.trans hout)
      (by omega) (fun k h1 h2 => by rw [hs.sum, if_neg (by omega), hzero k (by omega) h2])
      (by omega) (by omega) (by omega)
    refine ⟨out', ?_, ?_⟩
    · rw [blocks, if_pos hmore]
      simp only [Option.bind_eq_bind] at hb ⊢
      rw [← Option.bind_assoc, hb, Option.bind_some, hrounds, Option.bind_some]
      exact hout'
    · rw [htext', hchunk, List.append_assoc]
      congr 1
      have hrange : ((List.range (n + 1)).flatMap fun k => xorOutputs f password salt (i + k) j) =
          xorOutputs f password salt i j ++ (List.range n).flatMap fun k =>
            xorOutputs f password salt ((i + 1) % 2 ^ 32 + k) j := by
        rw [List.range_succ_eq_map, List.flatMap_cons, List.flatMap_map, Nat.add_zero]
        congr 1
        refine List.flatMap_congr fun k hk => ?_
        have hlt := List.mem_range.mp hk
        rw [hnext hi (by omega), Nat.add_right_comm]
        rfl
      have hlen := @length_xorOutputs prf f password salt i h j
      rw [hrange, List.take_append, hlen]
      congr 1
      · rw [← hlen, ← List.take_eq_take_min]
      · congr 1
        omega

lemma alloc_zero {length : ℕ} (hpos : 0 < length) (h : Amm.Fits length) :
    (Amm.alloc (fun _ => 0) length).join =
      some ⟨Amm.sizeToIndex (length + Amm.headerSize), fun _ => 0⟩ := by
  rw [Amm.alloc_eq _ hpos h, Option.join_some]
  simp only [ite_self]

lemma pbkdf2Compute_eq (h : prf.Computes f) (houtput : prf.outputSize + Amm.headerSize ≤ 2 ^ 27)
    (hsalt : salt.length + 4 + Amm.headerSize ≤ 2 ^ 27) (j : ℕ) {outLength : ℕ}
    (hlength : outLength < 2 ^ 32) (memory : ℕ → UInt8) :
    pbkdf2Compute prf password salt (j + 1) outLength memory =
      some (derivedKey f password salt prf.outputSize (j + 1) outLength) := by
  have hpos := prf.outputSize_pos
  have hheader : Amm.headerSize = 8 := rfl
  have hmod : (salt.length + 4) % 2 ^ 32 = salt.length + 4 := Nat.mod_eq_of_lt (by omega)
  obtain ⟨size, hsize⟩ : ∃ size, (if prf.outputSize > salt.length + 4 then prf.outputSize
      else salt.length + 4) = size := ⟨_, rfl⟩
  have hbounds : prf.outputSize ≤ size ∧ salt.length + 4 ≤ size ∧
      size + Amm.headerSize ≤ 2 ^ 27 := by
    split_ifs at hsize <;> omega
  have hbuffer := @alloc_zero size (by omega) hbounds.2.2
  obtain ⟨out, hfill, hout, htext⟩ := @copyInto_start ⟨outLength, memory⟩
    (List.replicate outLength 0) (le_of_eq List.length_replicate)
  rw [List.length_replicate] at htext
  have hzero : ∀ k, 0 ≤ k → k < outLength → out.data k = 0 := fun k _ hk => by
    rw [Block.data_eq_getD htext hk 0, List.getD_replicate _ hk]
  have hdiv := Nat.div_add_mod (outLength + prf.outputSize - 1) prf.outputSize
  have hrest := Nat.mod_lt (outLength + prf.outputSize - 1) hpos
  have hcount : (outLength + prf.outputSize - 1) / prf.outputSize ≤ outLength := by
    rcases Nat.eq_zero_or_pos outLength with hzero | hone
    · rw [hzero, Nat.zero_add, Nat.div_eq_of_lt (Nat.sub_lt hpos one_pos)]
    · refine Nat.div_le_of_le_mul ?_
      have : prf.outputSize + outLength ≤ prf.outputSize * outLength + 1 := by nlinarith
      omega
  rw [Nat.mul_comm] at hdiv
  obtain ⟨out', hblocks, htext'⟩ := @blocks_eq prf f password salt out ⟨size, fun _ => 0⟩ 0 h
    (by omega) hbounds.2.1 hbounds.1 j outLength 1
    ((outLength + prf.outputSize - 1) / prf.outputSize) hout (Nat.zero_le _) hzero (by omega)
    (by omega) (by omega)
  rw [pbkdf2Compute]
  simp only [hmod, hsize, hbuffer, Option.bind_eq_bind, Option.bind_some, hfill, hblocks, htext',
    derivedKey, Nat.add_sub_cancel, Nat.sub_zero]
  simp [Block.text, Nat.add_comm 1]

end

/-! ### Requests -/

/-- What the calls get: buffers with lengths of 32 bits, and at least one iteration. -/
structure Request where
  key : List UInt8
  message : List UInt8
  password : List UInt8
  salt : List UInt8
  iterations : ℕ
  outLength : ℕ
  key_lt : key.length < 2 ^ 32
  message_lt : message.length < 2 ^ 32
  password_lt : password.length < 2 ^ 32
  salt_lt : salt.length < 2 ^ 32
  iterations_pos : 1 ≤ iterations
  outLength_lt : outLength < 2 ^ 32

variable (r : Request) (stack memory : ℕ → UInt8)

def HmacAgrees : Prop :=
  hmacCompute (hmacSha256Function stack) stack r.key r.message =
    some (hmac Sha2.digest 64 r.key r.message)

def Pbkdf2Agrees : Prop :=
  pbkdf2Compute (pbkdf2PrfHmacSha256 stack) r.password r.salt r.iterations r.outLength memory =
    some (derivedKey (hmac Sha2.digest 64) r.password r.salt 32 r.iterations r.outLength)

/-- There is a buffer for the salt, or it is not used. -/
def Request.Fits (r : Request) : Prop :=
  r.salt.length + 12 ≤ 2 ^ 27 ∨ r.outLength = 0 ∧ 2 ^ 32 ≤ r.salt.length + 4

lemma prf_computes : (pbkdf2PrfHmacSha256 stack).Computes (hmac Sha2.digest 64) where
  callback := hmacCompute_eq (hmacSha256_computes stack) stack
  length _ _ := length_digest _

/-- A salt whose length with the number does not fit in 32 bits is written behind the buffer. -/
lemma pbkdf2Compute_wrapped {prf : Prf} (hprf : prf.outputSize = 32) {password salt : List UInt8}
    (hsalt : salt.length < 2 ^ 32) (hwrap : 2 ^ 32 ≤ salt.length + 4) (iterations outLength : ℕ) :
    pbkdf2Compute prf password salt iterations outLength memory =
      if outLength = 0 then some [] else none := by
  have hmod : (salt.length + 4) % 2 ^ 32 = salt.length + 4 - 2 ^ 32 := by omega
  obtain ⟨out, hfill, -, -⟩ := @copyInto_start ⟨outLength, memory⟩
    (List.replicate outLength 0) (le_of_eq List.length_replicate)
  rw [pbkdf2Compute]
  simp only [hmod, hprf, if_pos (show 32 > salt.length + 4 - 2 ^ 32 by omega),
    alloc_zero (show 0 < 32 by decide) (by decide), Option.bind_eq_bind, Option.bind_some,
    hfill]
  rw [blocks]
  split_ifs with hlt hzero
  · omega
  · rw [Option.bind_eq_bind, Block.copyInto_none (fun hnil => ?_) (by dsimp only; omega)]
    · rfl
    · rw [hnil, List.length_nil] at hwrap
      omega
  · rw [Option.bind_some, show outLength = 0 by assumption]
    rfl
  · omega

lemma pbkdf2Compute_large {prf : Prf} (hprf : prf.outputSize = 32) {password salt : List UInt8}
    (hsalt : salt.length + 4 < 2 ^ 32) (hlarge : 2 ^ 27 < salt.length + 12)
    (iterations outLength : ℕ) :
    pbkdf2Compute prf password salt iterations outLength memory = none := by
  have hnone : Amm.alloc (fun _ => 0) (salt.length + 4) = none :=
    Amm.alloc_large _ (Nat.not_le_of_lt hlarge) hsalt
  rw [pbkdf2Compute]
  simp only [Nat.mod_eq_of_lt hsalt, hprf, if_neg (show ¬32 > salt.length + 4 by omega), hnone,
    Option.join_none, Option.bind_eq_bind, Option.bind_none]

/-- **Both standards** for every request: HMAC always, and keys from passwords just when there is
a buffer for the salt, or no use for it. -/
theorem agree_iff : HmacAgrees r stack ∧ (Pbkdf2Agrees r stack memory ↔ r.Fits) := by
  refine ⟨hmacCompute_eq (hmacSha256_computes stack) stack r.key r.message, ?_⟩
  have hsalt := r.salt_lt
  rw [Pbkdf2Agrees, Request.Fits]
  rcases Nat.lt_or_ge (r.salt.length + 4) (2 ^ 32) with hlt | hwrap
  · rcases Nat.lt_or_ge (2 ^ 27) (r.salt.length + 12) with hlarge | hsmall
    · rw [pbkdf2Compute_large memory rfl hlt hlarge]
      refine iff_of_false (fun h => by cases h) ?_
      rintro (hle | ⟨-, hle⟩) <;> omega
    · obtain ⟨j, hj⟩ : ∃ j, r.iterations = j + 1 := ⟨r.iterations - 1, by
        have := r.iterations_pos
        omega⟩
      rw [hj, pbkdf2Compute_eq (prf_computes stack) (show 32 + 8 ≤ 2 ^ 27 by decide) hsmall j
        r.outLength_lt memory]
      exact iff_of_true rfl (.inl hsmall)
  · rw [pbkdf2Compute_wrapped memory rfl hsalt hwrap]
    split_ifs with hzero
    · refine iff_of_true ?_ (.inr ⟨hzero, hwrap⟩)
      rw [hzero]
      rfl
    · refine iff_of_false (fun h => by cases h) ?_
      rintro (hle | ⟨h0, -⟩)
      · omega
      · exact hzero h0

lemma one_lt_word : 1 < 2 ^ 32 := by decide

/-- A salt of `2 ^ 32 - 4` bytes, and one byte of a key. -/
def longSalt : Request where
  key := []
  message := []
  password := []
  salt := List.replicate (2 ^ 32 - 4) 0
  iterations := 1
  outLength := 1
  key_lt := by decide
  message_lt := by decide
  password_lt := by decide
  salt_lt := by rw [List.length_replicate]; decide
  iterations_pos := le_rfl
  outLength_lt := one_lt_word

theorem longSalt_not_agrees : ¬Pbkdf2Agrees longSalt (fun _ => 0) (fun _ => 0) := by
  have hlen : longSalt.salt.length = 2 ^ 32 - 4 := List.length_replicate
  rw [Pbkdf2Agrees, pbkdf2Compute_wrapped _ rfl longSalt.salt_lt (by omega)]
  exact fun h => by cases h

end KernelModel.Pbkdf2
