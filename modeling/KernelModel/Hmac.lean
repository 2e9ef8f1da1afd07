import KernelModel.Blocks
import KernelModel.Sha256Stream

/-!
Keyed hashes.

A hash function of the kernel gets two pieces of data, and everything else happens in one buffer
on the stack: the key is changed in place to the inner key, and then to the outer one.
-/

namespace KernelModel.Hmac

open Sha256

/-! ### The standard -/

section

variable (hash : List UInt8 → List UInt8) (blockSize : ℕ)

/-- The key of one block: a longer one is hashed, and zeros are put behind. -/
def blockKey (key : List UInt8) : List UInt8 :=
  let key := if key.length > blockSize then hash key else key
  key ++ List.replicate (blockSize - key.length) 0

/-- HMAC of a text. -/
def hmac (key text : List UInt8) : List UInt8 :=
  hash ((blockKey hash blockSize key).map (· ^^^ 0x5c) ++
    hash ((blockKey hash blockSize key).map (· ^^^ 0x36) ++ text))

end

/-! ### The code -/

/-- `hmac_hash_function_t` -/
structure HashFunction where
  callback : List UInt8 → List UInt8 → List UInt8
  blockSize : ℕ
  outputSize : ℕ

/-- `_hmac_sha256_callback`; `stack` is what the buffers on the stack hold before. -/
def hmacSha256Callback (stack : ℕ → UInt8) (data1 data2 : List UInt8) : List UInt8 :=
  let state := hashSha256Init stack
  let state := hashSha256ProcessChunk state (fun i => data1.getD i 0) data1.length
  let state := hashSha256ProcessChunk state (fun i => data2.getD i 0) data2.length
  (hashSha256Finalize state stack).result

def hmacSha256Function (stack : ℕ → UInt8) : HashFunction := ⟨hmacSha256Callback stack, 64, 32⟩

def bufferSize : ℕ := 265

/-- The part of `hmac_compute` that writes the inner key into the buffer. -/
def innerKey (func : HashFunction) (buffer : Block UInt8) (key : List UInt8) :
    Option (Block UInt8) := do
  let (buffer, keyLength) ←
    if key.length > func.blockSize then
      (buffer.copyInto 0 (func.callback key [])).map (·, func.outputSize)
    else (buffer.copyInto 0 key).map (·, key.length)
  let buffer ← buffer.modify 0 (fun _ x => x ^^^ 0x36) keyLength
  buffer.copyInto keyLength (List.replicate (func.blockSize - keyLength) 0x36)

/-- `hmac_compute`; there is no result if it panics or leaves its buffer. -/
def hmacCompute (func : HashFunction) (stack : ℕ → UInt8) (key message : List UInt8) :
    Option (List UInt8) :=
  if func.blockSize + func.outputSize > bufferSize then none
  else do
    let buffer ← innerKey func ⟨bufferSize, stack⟩ key
    let data ← buffer.read func.blockSize
    let buffer ← buffer.copyInto func.blockSize (func.callback data message)
    let buffer ← buffer.modify 0 (fun _ x => x ^^^ 0x6a) func.blockSize
    let data ← buffer.read (func.blockSize + func.outputSize)
    some (func.callback data [])

/-! ### They agree -/

lemma hmacSha256Callback_eq (stack : ℕ → UInt8) (data1 data2 : List UInt8) :
    hmacSha256Callback stack data1 data2 = Sha2.digest (data1 ++ data2) := by
  have habsorbed := pieces_absorbed_init [data1, data2] stack
  rw [List.flatten_cons, List.flatten_cons, List.flatten_nil, List.append_nil] at habsorbed
  exact finalize_absorbed _ _ habsorbed

lemma length_digest (message : List UInt8) : (Sha2.digest message).length = 32 := by
  simp [Sha2.digest, Sha2.Words.bytes, Sha2.length_bytesOf]

lemma xor_xor (x : UInt8) : x ^^^ 0x36 ^^^ 0x6a = x ^^^ 0x5c := by
  rw [UInt8.xor_assoc]
  rfl

section

variable {func : HashFunction} {hash : List UInt8 → List UInt8}

/-- What a hash function of the kernel computes, and that its sizes fit. -/
structure HashFunction.Computes (func : HashFunction) (hash : List UInt8 → List UInt8) : Prop where
  callback : ∀ l l', func.callback l l' = hash (l ++ l')
  length : ∀ l, (hash l).length = func.outputSize
  output_le : func.outputSize ≤ func.blockSize
  fits : func.blockSize + func.outputSize ≤ bufferSize

lemma map_pad (key : List UInt8) (n : ℕ) :
    (key ++ List.replicate n 0).map (· ^^^ (0x36 : UInt8)) =
      key.map (· ^^^ (0x36 : UInt8)) ++ List.replicate n 0x36 := by
  rw [List.map_append, List.map_replicate]
  rfl

lemma copyInto_start {buffer : Block UInt8} {key : List UInt8} (h : key.length ≤ buffer.size) :
    ∃ b : Block UInt8, buffer.copyInto 0 key = some b ∧ b.size = buffer.size ∧
      b.text key.length = key := by
  obtain ⟨b, hb, hsize, htext⟩ := @Block.copyInto_text _ buffer key 0 (by omega)
  rw [Nat.zero_add] at htext
  exact ⟨b, hb, hsize, htext⟩

lemma xor_pad {b : Block UInt8} {key : List UInt8} {blockSize : ℕ} (hle : key.length ≤ blockSize)
    (hsize : blockSize ≤ b.size) (htext : b.text key.length = key) :
    ∃ b' : Block UInt8, ((b.modify 0 (fun _ x => x ^^^ 0x36) key.length).bind fun b =>
        b.copyInto key.length (List.replicate (blockSize - key.length) 0x36)) = some b' ∧
      b'.size = b.size ∧ b'.text blockSize =
        (key ++ List.replicate (blockSize - key.length) 0).map (· ^^^ (0x36 : UInt8)) := by
  obtain ⟨b1, h1, hsize1, htext1, -⟩ :=
    b.modify_text (n := key.length) (· ^^^ (0x36 : UInt8)) (by omega)
  obtain ⟨b2, h2, hsize2, htext2⟩ := @Block.copyInto_text _ b1
    (List.replicate (blockSize - key.length) 0x36) key.length (by
      rw [List.length_replicate]
      omega)
  rw [List.length_replicate, Nat.add_sub_cancel' hle, htext1, htext, ← map_pad] at htext2
  exact ⟨b2, by rw [h1, Option.bind_some, h2], by omega, htext2⟩

lemma innerKey_eq (h : func.Computes hash) (key : List UInt8) {buffer : Block UInt8}
    (hbuffer : func.blockSize ≤ buffer.size) :
    ∃ b, innerKey func buffer key = some b ∧ b.size = buffer.size ∧
      b.text func.blockSize = (blockKey hash func.blockSize key).map (· ^^^ (0x36 : UInt8)) := by
  rw [innerKey, blockKey]
  split_ifs with hlong
  · have hle : (hash key).length ≤ func.blockSize := (h.length key).trans_le h.output_le
    obtain ⟨b, hb, hsize, htext⟩ := copyInto_start (hle.trans hbuffer)
    rw [h.callback, List.append_nil, hb, ← h.length key, ← hsize]
    exact xor_pad hle (hbuffer.trans_eq hsize.symm) htext
  · have hle : key.length ≤ func.blockSize := Nat.le_of_not_lt hlong
    obtain ⟨b, hb, hsize, htext⟩ := copyInto_start (hle.trans hbuffer)
    rw [hb, ← hsize]
    exact xor_pad hle (hbuffer.trans_eq hsize.symm) htext

lemma hmacCompute_eq (h : func.Computes hash) (stack : ℕ → UInt8) (key message : List UInt8) :
    hmacCompute func stack key message = some (hmac hash func.blockSize key message) := by
  have hfits := h.fits
  obtain ⟨b, hb, hsize, htext⟩ :=
    @innerKey_eq func hash h key ⟨bufferSize, stack⟩ ((Nat.le_add_right _ _).trans hfits)
  change b.size = bufferSize at hsize
  obtain ⟨b1, h1, hsize1, htext1⟩ := @Block.copyInto_text _ b
    (hash (b.text func.blockSize ++ message)) func.blockSize (by rw [h.length]; omega)
  rw [h.length] at htext1
  obtain ⟨b2, h2, hsize2, htext2, hrest⟩ :=
    b1.modify_text (n := func.blockSize) (· ^^^ (0x6a : UInt8)) (by omega)
  have hinner : b1.text func.blockSize = b.text func.blockSize := by
    have htake := congrArg (List.take func.blockSize) htext1
    rwa [Block.text_add, List.take_left' (Block.length_text _),
      List.take_left' (Block.length_text _)] at htake
  have houter : b2.text func.blockSize =
      (blockKey hash func.blockSize key).map (· ^^^ (0x5c : UInt8)) := by
    rw [htext2, hinner, htext, List.map_map]
    exact List.map_congr_left fun x _ => xor_xor x
  have hall : b2.text (func.blockSize + func.outputSize) =
      (blockKey hash func.blockSize key).map (· ^^^ (0x5c : UInt8)) ++
        hash (b.text func.blockSize ++ message) := by
    rw [Block.text_add, houter]
    congr 1
    have hdrop := congrArg (List.drop func.blockSize) htext1
    rw [Block.text_add, List.drop_left' (Block.length_text _),
      List.drop_left' (Block.length_text _)] at hdrop
    rw [← hdrop]
    exact List.map_congr_left fun i _ => hrest _ (by omega)
  rw [htext] at h1 hall
  rw [hmacCompute, if_neg (by omega), hb]
  simp only [Option.bind_eq_bind, Option.bind_some,
    Block.read_eq (show func.blockSize ≤ b.size by omega),
    h.callback, h1, h2, Block.read_eq (show func.blockSize + func.outputSize ≤ b2.size by omega),
    List.append_nil, hall, hmac, htext]

end

lemma hmacSha256_computes (stack : ℕ → UInt8) :
    (hmacSha256Function stack).Computes Sha2.digest where
  callback := hmacSha256Callback_eq stack
  length := length_digest
  output_le := show 32 ≤ 64 by decide
  fits := show 64 + 32 ≤ bufferSize by decide

end KernelModel.Hmac
