import KernelModel.AesTables
import KernelModel.GaloisByte

/-!
The AES module.

A block is four words with the first byte on top. The rounds go through tables that hold a
substituted byte times a column of the mixing matrix, and write from one half of a buffer of eight
words to the other.
-/

namespace KernelModel.Aes

open GaloisByte Function

abbrev Word : Type := BitVec 32

/-- Four words, or the four columns of a block. -/
abbrev Words : Type := Fin 4 → Word

abbrev Block : Type := Fin 16 → Byte

/-- A byte of a word, the highest first: `(w>>(24-(k<<3)))&0xff`. -/
def byte (k : Fin 4) (w : Word) : Byte := w.extractLsb' (24 - 8 * k) 8

/-- `_aes_encryption_table[x+(k<<8)]` -/
def encryptionEntry (k : Fin 4) (x : Byte) : Word :=
  BitVec.ofNat 32 (aesEncryptionTable.getD (x.toNat + k.1 <<< 8) 0)

/-- `_aes_decryption_table[x+(k<<8)]` -/
def decryptionEntry (k : Fin 4) (x : Byte) : Word :=
  BitVec.ofNat 32 (aesDecryptionTable.getD (x.toNat + k.1 <<< 8) 0)

/-- `_aes_encryption_table[x+0x100]&0xff` -/
def substitute (x : Byte) : Byte := (encryptionEntry 1 x).setWidth 8

/-- `_aes_single_decryption_table[x]` -/
def substituteBack (x : Byte) : Byte :=
  BitVec.ofNat 8 (aesSingleDecryptionTable.getD x.toNat 0)

/-- The bytes of a word, put together again. -/
def ofBytes (b0 b1 b2 b3 : Byte) : Word := b0 ++ b1 ++ b2 ++ b3

def Block.index (i k : Fin 4) : Fin 16 := ⟨4 * i + k, by omega⟩

/-- `__builtin_bswap32(*((const u32*)(data+(i<<2))))` -/
def Block.word (data : Block) (i : Fin 4) : Word :=
  ofBytes (data (index i 0)) (data (index i 1)) (data (index i 2)) (data (index i 3))

/-- The words that are written back. -/
def ofWords (words : Words) : Block := fun x =>
  byte ⟨x % 4, by omega⟩ (words ⟨x / 4, by omega⟩)

/-! ### Keys -/

/-- `aes_state_t` -/
structure AesState where
  rounds : ℕ
  encryptionKey : ℕ → Word
  decryptionKey : ℕ → Word

/-- A word of the second loop of `_generate_encryption_key`. -/
def nextKeyWord (width : ℕ) (key : ℕ → Word) (i j : ℕ) : Word :=
  let last := key (i - 1)
  if j = 0 then
    key (i - width) ^^^ BitVec.ofNat 32 (aesRcon.getD (i / width - 1) 0) ^^^
      ofBytes (substitute (byte 1 last)) (substitute (byte 2 last)) (substitute (byte 3 last))
        (substitute (byte 0 last))
  else if width = 8 ∧ j = 4 then
    key (i - width) ^^^
      ofBytes (substitute (byte 0 last)) (substitute (byte 1 last)) (substitute (byte 2 last))
        (substitute (byte 3 last))
  else key (i - width) ^^^ last

/-- The second loop of `_generate_encryption_key`, with `j`. -/
def expandKey (width : ℕ) (key : ℕ → Word) : ℕ → (ℕ → Word) × ℕ
  | 0 => (key, 0)
  | n + 1 =>
    let (key, j) := expandKey width key n
    (update key (width + n) (nextKeyWord width key (width + n) j),
      if j + 1 = width then 0 else j + 1)

/-- `_generate_encryption_key` -/
def generateEncryptionKey (rounds : ℕ) (key : List Byte) : ℕ → Word :=
  let start i := ofBytes (key.getD (4 * i) 0) (key.getD (4 * i + 1) 0) (key.getD (4 * i + 2) 0)
    (key.getD (4 * i + 3) 0)
  let width := rounds - 6
  (expandKey width start ((rounds + 1) * 4 - width)).1

/-- The second loop of `_generate_decryption_key`, for one word. -/
def unmixKeyWord (w : Word) : Word :=
  decryptionEntry 0 (substitute (byte 0 w)) ^^^ decryptionEntry 1 (substitute (byte 1 w)) ^^^
    decryptionEntry 2 (substitute (byte 2 w)) ^^^ decryptionEntry 3 (substitute (byte 3 w))

/-- `_generate_decryption_key` -/
def generateDecryptionKey (rounds : ℕ) (encryptionKey : ℕ → Word) : ℕ → Word := fun i =>
  let w := encryptionKey (rounds * 4 - i / 4 * 4 + i % 4)
  if 4 ≤ i ∧ i < rounds * 4 then unmixKeyWord w else w

/-- `AES_FLAG_ENCRYPTION` and `AES_FLAG_DECRYPTION` -/
structure Flags where
  encryption : Bool
  decryption : Bool

/-- `aes_init`; nothing is returned where it panics. Flags without a name are not modelled. -/
def aesInit (key : List Byte) (flags : Flags) : Option AesState :=
  if !flags.encryption && !flags.decryption then none
  else if key.length ≠ 16 ∧ key.length ≠ 24 ∧ key.length ≠ 32 then none
  else
    let rounds := 6 + key.length / 4
    let encryptionKey := generateEncryptionKey rounds key
    some {
      rounds
      encryptionKey := if flags.encryption then encryptionKey else fun _ => 0
      decryptionKey :=
        if flags.decryption then generateDecryptionKey rounds encryptionKey else fun _ => 0 }

/-! ### Blocks -/

/-- The two halves of `s`. -/
structure Buffer where
  low : Words
  high : Words

/-- A round of `aes_encrypt_block`, from one half. -/
def encryptWords (key : ℕ → Word) (i : ℕ) (s : Words) : Words := fun j =>
  key (j + i * 4) ^^^ encryptionEntry 0 (byte 0 (s j)) ^^^
    encryptionEntry 1 (byte 1 (s (j + 1))) ^^^
    encryptionEntry 2 (byte 2 (s (j + 2))) ^^^ encryptionEntry 3 (byte 3 (s (j + 3)))

/-- A round of `aes_decrypt_block`, from one half. -/
def decryptWords (key : ℕ → Word) (i : ℕ) (s : Words) : Words := fun j =>
  key (j + i * 4) ^^^ decryptionEntry 0 (byte 0 (s j)) ^^^
    decryptionEntry 1 (byte 1 (s (j - 1))) ^^^
    decryptionEntry 2 (byte 2 (s (j - 2))) ^^^ decryptionEntry 3 (byte 3 (s (j - 3)))

/-- The rounds in the middle of a block: an odd one goes to the high half. -/
def middleRounds (round : ℕ → Words → Words) (start : Words) : ℕ → Buffer
  | 0 => ⟨start, fun _ => 0⟩
  | i + 1 =>
    let s := middleRounds round start i
    if (i + 1) % 2 = 1 then { s with high := round (i + 1) s.low }
    else { s with low := round (i + 1) s.high }

/-- `aes_encrypt_block` -/
def aesEncryptBlock (state : AesState) (data : Block) : Block :=
  let key := state.encryptionKey
  let s := (middleRounds (encryptWords key) (fun i => key i ^^^ data.word i)
    (state.rounds - 1)).high
  ofWords fun i => key (i + state.rounds * 4) ^^^
    ofBytes (substitute (byte 0 (s i))) (substitute (byte 1 (s (i + 1))))
      (substitute (byte 2 (s (i + 2)))) (substitute (byte 3 (s (i + 3))))

/-- `aes_decrypt_block` -/
def aesDecryptBlock (state : AesState) (data : Block) : Block :=
  let key := state.decryptionKey
  let s := (middleRounds (decryptWords key) (fun i => key i ^^^ data.word i)
    (state.rounds - 1)).high
  ofWords fun i => key (i + state.rounds * 4) ^^^
    ofBytes (substituteBack (byte 0 (s i))) (substituteBack (byte 1 (s (i - 1))))
      (substituteBack (byte 2 (s (i - 2)))) (substituteBack (byte 3 (s (i - 3))))

/-! ### Cipher block chaining -/

/-- `_xor_cbc_block` -/
def xorCbcBlock (a b : Block) : Block := fun i => a i ^^^ b i

/-- The block at an offset of sixteen bytes times `i`. -/
def blockAt (data : List Byte) (i : ℕ) : Block := fun k => data.getD (16 * i + k) 0

def blocks (data : List Byte) : List Block := (List.range (data.length / 16)).map (blockAt data)

def bytes (blocks : List Block) : List Byte := blocks.flatMap List.ofFn

/-- The loop that encrypts. The second argument is the initial vector or the block that was
written last. A block of the input is read before its place is written, so that the output may be
the input. -/
def cbcEncrypt (state : AesState) : Block → List Block → List Block
  | _, [] => []
  | previous, data :: rest =>
    let out := aesEncryptBlock state (xorCbcBlock data previous)
    out :: cbcEncrypt state out rest

/-- The loop that decrypts. The second argument is the initial vector or the block that was read
last. -/
def cbcDecrypt (state : AesState) : Block → List Block → List Block
  | _, [] => []
  | previous, data :: rest =>
    xorCbcBlock (aesDecryptBlock state data) previous :: cbcDecrypt state data rest

/-- `aes_cbc_process`; nothing is returned where it panics. -/
def aesCbcProcess (key iv : List Byte) (flags : Flags) (data : List Byte) (inPlace : Bool) :
    Option (List Byte) :=
  if data.length = 0 then some []
  else if iv.length ≠ 16 then none
  else if flags.encryption = flags.decryption then none
  else if data.length % 16 ≠ 0 then none
  else if flags.decryption && inPlace then none
  else do
    let state ← aesInit key flags
    if flags.encryption then some (bytes (cbcEncrypt state (blockAt iv 0) (blocks data)))
    else some (bytes (cbcDecrypt state (blockAt iv 0) (blocks data)))

end KernelModel.Aes
