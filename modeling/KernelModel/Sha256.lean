import KernelModel.LittleEndian
import Mathlib.Tactic

/-!
The streaming SHA-256 of the kernel: messages come in pieces of any length, and a block that is
not complete yet stays in a buffer of the state.

A pointer to bytes is a function from offsets. Words are read from memory with the low byte
first and then turned around.
-/

namespace KernelModel.Sha256

open LittleEndian

/-- The words `a` to `h` of the state, which are also `result32`. -/
structure Registers where
  a : BitVec 32
  b : BitVec 32
  c : BitVec 32
  d : BitVec 32
  e : BitVec 32
  f : BitVec 32
  g : BitVec 32
  h : BitVec 32

/-- `hash_sha256_state_t` -/
structure State extends Registers where
  length : ℕ
  buffer : ℕ → UInt8

def rotateBitsRight (a : BitVec 32) (b : ℕ) : BitVec 32 := a.rotateRight b

/-- The constants of the sixty-four steps. -/
def stepConstants : List ℕ := [
  0x428a2f98, 0x71374491, 0xb5c0fbcf, 0xe9b5dba5, 0x3956c25b, 0x59f111f1, 0x923f82a4, 0xab1c5ed5,
  0xd807aa98, 0x12835b01, 0x243185be, 0x550c7dc3, 0x72be5d74, 0x80deb1fe, 0x9bdc06a7, 0xc19bf174,
  0xe49b69c1, 0xefbe4786, 0x0fc19dc6, 0x240ca1cc, 0x2de92c6f, 0x4a7484aa, 0x5cb0a9dc, 0x76f988da,
  0x983e5152, 0xa831c66d, 0xb00327c8, 0xbf597fc7, 0xc6e00bf3, 0xd5a79147, 0x06ca6351, 0x14292967,
  0x27b70a85, 0x2e1b2138, 0x4d2c6dfc, 0x53380d13, 0x650a7354, 0x766a0abb, 0x81c2c92e, 0x92722c85,
  0xa2bfe8a1, 0xa81a664b, 0xc24b8b70, 0xc76c51a3, 0xd192e819, 0xd6990624, 0xf40e3585, 0x106aa070,
  0x19a4c116, 0x1e376c08, 0x2748774c, 0x34b0bcb5, 0x391c0cb3, 0x4ed8aa4a, 0x5b9cca4f, 0x682e6ff3,
  0x748f82ee, 0x78a5636f, 0x84c87814, 0x8cc70208, 0x90befffa, 0xa4506ceb, 0xbef9a3f7, 0xc67178f2
]

def stepConstant (j : ℕ) : BitVec 32 := BitVec.ofNat 32 (stepConstants.getD j 0)

/-- `SHA256_STEP`: the new values of `d` and `h`. -/
def sha256Step (a b c d e f g h v : BitVec 32) : BitVec 32 × BitVec 32 :=
  let t := (rotateBitsRight e 6 ^^^ rotateBitsRight e 11 ^^^ rotateBitsRight e 25) +
    (g ^^^ (e &&& (f ^^^ g))) + h + v
  (d + t, t + (rotateBitsRight a 2 ^^^ rotateBitsRight a 13 ^^^ rotateBitsRight a 22) +
    ((a &&& b) ||| ((a ||| b) &&& c)))

/-- Word `j` of a chunk, turned around. -/
def chunkWord (chunk : ℕ → UInt8) (j : ℕ) : BitVec 32 :=
  BitVec.ofNat 32 (bswap 4 (get 4 chunk (4 * j)))

/-- The array `w` after the first loop and the rounds `16` to `15 + n` of the second one. -/
def fillWords (chunk : ℕ → UInt8) : ℕ → ℕ → BitVec 32
  | 0 => fun j => if j < 16 then chunkWord chunk j else 0
  | n + 1 =>
    let w := fillWords chunk n
    let j := 16 + n
    Function.update w j
      ((rotateBitsRight (w (j - 2)) 17 ^^^ rotateBitsRight (w (j - 2)) 19 ^^^ (w (j - 2) >>> 10)) +
        w (j - 7) +
        (rotateBitsRight (w (j - 15)) 7 ^^^ rotateBitsRight (w (j - 15)) 18 ^^^
          (w (j - 15) >>> 3)) +
        w (j - 16))

/-- Eight steps from step `j` on, after which every variable is back in its place. -/
def eightSteps (w : ℕ → BitVec 32) (j : ℕ) (r : Registers) : Registers :=
  let ⟨a, b, c, d, e, f, g, h⟩ := r
  let (d, h) := sha256Step a b c d e f g h (w j + stepConstant j)
  let (c, g) := sha256Step h a b c d e f g (w (j + 1) + stepConstant (j + 1))
  let (b, f) := sha256Step g h a b c d e f (w (j + 2) + stepConstant (j + 2))
  let (a, e) := sha256Step f g h a b c d e (w (j + 3) + stepConstant (j + 3))
  let (h, d) := sha256Step e f g h a b c d (w (j + 4) + stepConstant (j + 4))
  let (g, c) := sha256Step d e f g h a b c (w (j + 5) + stepConstant (j + 5))
  let (f, b) := sha256Step c d e f g h a b (w (j + 6) + stepConstant (j + 6))
  let (e, a) := sha256Step b c d e f g h a (w (j + 7) + stepConstant (j + 7))
  ⟨a, b, c, d, e, f, g, h⟩

/-- All sixty-four steps: the same eight lines eight times. -/
def allSteps (w : ℕ → BitVec 32) (r : Registers) : Registers :=
  (List.range 8).foldl (fun r n => eightSteps w (8 * n) r) r

/-- `_process_chunk` -/
def processChunk (state : State) (chunk : ℕ → UInt8) : State :=
  let r := allSteps (fillWords chunk 48) state.toRegisters
  { state with
    a := state.a + r.a
    b := state.b + r.b
    c := state.c + r.c
    d := state.d + r.d
    e := state.e + r.e
    f := state.f + r.f
    g := state.g + r.g
    h := state.h + r.h }

/-- `hash_sha256_init`; the buffer keeps what is in it. -/
def hashSha256Init (buffer : ℕ → UInt8) : State where
  a := 0x6a09e667
  b := 0xbb67ae85
  c := 0x3c6ef372
  d := 0xa54ff53a
  e := 0x510e527f
  f := 0x9b05688c
  g := 0x1f83d9ab
  h := 0x5be0cd19
  length := 0
  buffer := buffer

/-- `n` bytes of the chunk stored into the buffer from `off` on. -/
def copyInto (buffer : ℕ → UInt8) (off : ℕ) (chunk : ℕ → UInt8) (n : ℕ) : ℕ → UInt8 :=
  fun i => if off ≤ i ∧ i < off + n then chunk (i - off) else buffer i

/-- The loop over the whole blocks of a chunk: the state, and the rest of the chunk. -/
def processWhole (state : State) (chunk : ℕ → UInt8) (length : ℕ) : State × (ℕ → UInt8) × ℕ :=
  if length ≥ 64 then
    processWhole (processChunk state chunk) (fun i => chunk (64 + i)) (length - 64)
  else (state, chunk, length)
termination_by length

lemma processWhole_of_ge {state : State} {chunk : ℕ → UInt8} {length : ℕ} (h : length ≥ 64) :
    processWhole state chunk length =
      processWhole (processChunk state chunk) (fun i => chunk (64 + i)) (length - 64) := by
  rw [processWhole, if_pos h]

lemma processWhole_of_lt {state : State} {chunk : ℕ → UInt8} {length : ℕ} (h : ¬length ≥ 64) :
    processWhole state chunk length = (state, chunk, length) := by
  rw [processWhole, if_neg h]

/-- The part of `hash_sha256_process_chunk` after the buffer is empty. -/
def processRest (state : State) (chunk : ℕ → UInt8) (length : ℕ) : State :=
  let state := { state with length := (state.length + length) % 2 ^ 64 }
  let (state, chunk, length) := processWhole state chunk length
  { state with buffer := copyInto state.buffer 0 chunk length }

/-- `hash_sha256_process_chunk` -/
def hashSha256ProcessChunk (state : State) (chunk : ℕ → UInt8) (length : ℕ) : State :=
  if length = 0 then state
  else
    let padding := state.length &&& 63
    if padding ≠ 0 then
      let fragment := if length > 64 - padding then 64 - padding else length
      let state := { state with
        buffer := copyInto state.buffer padding chunk fragment
        length := (state.length + fragment) % 2 ^ 64 }
      if padding + fragment ≠ 64 then state
      else
        processRest (processChunk state state.buffer) (fun i => chunk (fragment + i))
          (length - fragment)
    else processRest state chunk length

/-- `(-state->length-9)&63` -/
def finalPadding (length : ℕ) : ℕ := (2 ^ 64 - length + (2 ^ 64 - 9)) % 2 ^ 64 &&& 63

/-- The local buffer of `hash_sha256_finalize` when it is processed. -/
def finalBuffer (buffer : ℕ → UInt8) (length : ℕ) : ℕ → UInt8 :=
  let buffer := Function.update buffer 0 0x80
  let buffer := copyInto buffer 1 (fun _ => 0) (finalPadding length)
  put 8 buffer (1 + finalPadding length) (bswap 8 (length <<< 3 % 2 ^ 64))

def bswap32 (w : BitVec 32) : BitVec 32 := BitVec.ofNat 32 (bswap 4 w.toNat)

/-- `hash_sha256_finalize`; `buffer` is what is in its local buffer before. -/
def hashSha256Finalize (state : State) (buffer : ℕ → UInt8) : State :=
  let state := hashSha256ProcessChunk state (finalBuffer buffer state.length)
    (finalPadding state.length + 9)
  { state with
    a := bswap32 state.a
    b := bswap32 state.b
    c := bswap32 state.c
    d := bswap32 state.d
    e := bswap32 state.e
    f := bswap32 state.f
    g := bswap32 state.g
    h := bswap32 state.h }

/-- `result`: the bytes of the words as they lie in memory. -/
def State.result (state : State) : List UInt8 :=
  [state.a, state.b, state.c, state.d, state.e, state.f, state.g, state.h].flatMap fun w =>
    (List.range 4).map fun i => byte w.toNat i

end KernelModel.Sha256
