import KernelModel.Aes
import Mathlib.Data.List.GetD

/-!
Decryption undoes encryption.

An entry of the tables is a column of the mixing matrix times a substituted byte, so that a round
is a substitution, a shift of the rows and a product with the matrix. The key for decryption goes
through the inverse matrix beforehand. After every round of a decryption the words are those that
encryption had, substituted and shifted.
-/

namespace KernelModel.Aes

open GaloisByte Function

/-! ### Words and their bytes -/

def column (w : Word) : Column := fun k => byte k w

def ofColumn (c : Column) : Word := ofBytes (c 0) (c 1) (c 2) (c 3)

@[simp] lemma byte_ofColumn (k : Fin 4) (c : Column) : byte k (ofColumn c) = c k := by
  ext i hi
  fin_cases k <;> simp [byte, ofColumn, ofBytes]
  all_goals grind

lemma word_ext {v w : Word} (h : ∀ k, byte k v = byte k w) : v = w := by
  ext i hi
  have hk := congrArg (fun b : Byte => b.getLsbD (i % 8)) (h ⟨3 - i / 8, by omega⟩)
  simp only [byte, BitVec.getLsbD_extractLsb', Nat.mod_lt i (by norm_num : 0 < 8), decide_true,
    Bool.true_and] at hk
  rwa [show 24 - 8 * (3 - i / 8) + i % 8 = i by omega] at hk

@[simp] lemma byte_xor (k : Fin 4) (v w : Word) : byte k (v ^^^ w) = byte k v ^^^ byte k w := by
  ext i hi
  simp [byte]

@[simp] lemma column_ofColumn (c : Column) : column (ofColumn c) = c :=
  funext fun k => byte_ofColumn k c

@[simp] lemma ofColumn_column (w : Word) : ofColumn (column w) = w :=
  word_ext fun k => byte_ofColumn k _

lemma column_xor (v w : Word) : column (v ^^^ w) = (column v).xor (column w) :=
  funext fun k => byte_xor k v w

lemma ofColumn_xor (a b : Column) : ofColumn (a.xor b) = ofColumn a ^^^ ofColumn b :=
  word_ext fun k => by simp [Column.xor]

/-! ### Tables -/

/-- The first column of the matrix that encryption mixes with. -/
def mixing : Column := ![2, 1, 1, 3]

def unmixing : Column := ![14, 9, 13, 11]

/-- One of the four parts of a table. -/
def segment (table : List ℕ) (t : Fin 4) : List ℕ := (table.drop (t.1 <<< 8)).take 256

/-- The bytes that `_aes_encryption_table` substitutes. -/
def sbox : List ℕ := (segment aesEncryptionTable 1).map (· % 256)

/-- The first column of the matrix, times a byte. -/
def spread (c : Column) (s : ℕ) : ℕ := (ofColumn fun r => mul (c r) (BitVec.ofNat 8 s)).toNat

/-- A word with its bytes moved down. -/
def rotated (t : Fin 4) (n : ℕ) : ℕ := ((BitVec.ofNat 32 n).rotateRight (8 * t)).toNat

/-- A table, known by the first of its parts. -/
structure IsTable (table start : List ℕ) (c : Column) : Prop where
  first : segment table 0 = start.map (spread c)
  others : ∀ t, segment table t = (segment table 0).map (rotated t)

instance (table start : List ℕ) (c : Column) : Decidable (IsTable table start c) :=
  decidable_of_iff (segment table 0 = start.map (spread c) ∧
      ∀ t, segment table t = (segment table 0).map (rotated t))
    ⟨fun h => ⟨h.1, h.2⟩, fun h => ⟨h.first, h.others⟩⟩

/-- A list of bytes as a number, with the first byte at the lowest place. -/
def packed (l : List ℕ) : ℕ := l.foldr (fun b n => b + 256 * n) 0

lemma getD_packed {l : List ℕ} (hl : ∀ b ∈ l, b < 256) (i : ℕ) :
    l.getD i 0 = packed l / 256 ^ i % 256 := by
  induction l generalizing i with
  | nil => simp [packed]
  | cons b l ih =>
    have hb := hl b (by simp)
    have hcons : packed (b :: l) = b + 256 * packed l := rfl
    cases i with
    | zero =>
      simp only [List.getD_cons_zero, hcons]
      omega
    | succ i =>
      have hdiv : (b + 256 * packed l) / 256 = packed l := by omega
      rw [List.getD_cons_succ, ih (fun c hc => hl c (by simp [hc])), hcons, Nat.pow_succ',
        ← Nat.div_div_eq_div_mul, hdiv]

/-- The tables are those of two inverse matrices and two inverse substitutions. -/
lemma tables : Inverse unmixing mixing ∧ IsTable aesEncryptionTable sbox mixing ∧
    IsTable aesDecryptionTable aesSingleDecryptionTable unmixing ∧
    aesSingleDecryptionTable.length = 256 ∧ (∀ b ∈ aesSingleDecryptionTable, b < 256) ∧
    sbox.map (packed aesSingleDecryptionTable / 256 ^ · % 256) = List.range 256 := by
  decide +kernel

lemma inverse_mixing : Inverse unmixing mixing := tables.1

lemma isTable_encryption : IsTable aesEncryptionTable sbox mixing := tables.2.1

lemma isTable_decryption : IsTable aesDecryptionTable aesSingleDecryptionTable unmixing :=
  tables.2.2.1

lemma single_length : aesSingleDecryptionTable.length = 256 := tables.2.2.2.1

lemma single_sbox : sbox.map (aesSingleDecryptionTable.getD · 0) = List.range 256 := by
  rw [← tables.2.2.2.2.2]
  exact List.map_congr_left fun s _ => getD_packed tables.2.2.2.2.1 s

lemma sbox_length : sbox.length = 256 := by
  have h := congrArg List.length single_sbox
  rwa [List.length_map, List.length_range] at h

/-! ### Keys -/

/-- A word times a matrix. -/
def mixWord (c : Column) (w : Word) : Word := ofColumn (mix c (column w))

/-- The key for decryption belongs to the one for encryption. -/
structure Matches (rounds : ℕ) (encryptionKey decryptionKey : ℕ → Word) : Prop where
  even : Even rounds
  pos : 0 < rounds
  first : ∀ j : Fin 4, decryptionKey j = encryptionKey (j + rounds * 4)
  last : ∀ j : Fin 4, decryptionKey (j + rounds * 4) = encryptionKey j
  middle : ∀ i, 0 < i → i < rounds → ∀ j : Fin 4,
    decryptionKey (j + i * 4) = mixWord unmixing (encryptionKey (j + (rounds - i) * 4))

/-! ### Entries of the tables -/

lemma getD_segment (table : List ℕ) (t : Fin 4) (x : Byte) :
    (segment table t).getD x.toNat 0 = table.getD (x.toNat + t.1 <<< 8) 0 := by
  rw [segment, List.getD_eq_getElem?_getD, List.getD_eq_getElem?_getD, List.getElem?_take,
    if_pos x.isLt, List.getElem?_drop, Nat.add_comm]

lemma getD_map {l : List ℕ} (hl : l.length = 256) (f : ℕ → ℕ) (x : Byte) :
    (l.map f).getD x.toNat 0 = f (l.getD x.toNat 0) := by
  have hx : x.toNat < l.length := hl ▸ x.isLt
  rw [List.getD_eq_getElem _ _ (by rwa [List.length_map]), List.getD_eq_getElem _ _ hx,
    List.getElem_map]

lemma byte_rotateRight (r t : Fin 4) (w : Word) :
    byte r (w.rotateRight (8 * t)) = byte (r - t) w := by
  ext i hi
  have hsub : (r - t).1 = (4 - t.1 + r.1) % 4 := rfl
  have hmod : 8 * t.1 % 32 = 8 * t := by omega
  have hlt : 24 - 8 * r.1 + i < 32 := by omega
  simp only [byte, BitVec.getLsbD_rotateRight, BitVec.getElem_extractLsb', hsub, hmod, hlt,
    decide_true, Bool.true_and, cond_eq_ite, decide_eq_true_eq]
  split_ifs <;> congr 1 <;> omega

lemma IsTable.byte_entry {table start : List ℕ} {c : Column} (h : IsTable table start c)
    (hlength : start.length = 256) (r t : Fin 4) (x : Byte) :
    byte r (BitVec.ofNat 32 (table.getD (x.toNat + t.1 <<< 8) 0)) =
      mul (c (r - t)) (BitVec.ofNat 8 (start.getD x.toNat 0)) := by
  rw [← getD_segment, h.others, h.first, getD_map (by rw [List.length_map, hlength]),
    getD_map hlength, rotated, spread, BitVec.ofNat_toNat, BitVec.setWidth_eq, BitVec.ofNat_toNat,
    BitVec.setWidth_eq, byte_rotateRight, byte_ofColumn]

lemma substitute_eq (x : Byte) : substitute x = BitVec.ofNat 8 (sbox.getD x.toNat 0) := by
  have hlow : ∀ w : Word, w.setWidth 8 = byte 3 w := by
    intro w
    ext i hi
    simp [byte]
  rw [substitute, hlow, encryptionEntry, isTable_encryption.byte_entry sbox_length]
  exact GaloisByte.one_mul _

@[simp] lemma byte_encryptionEntry (r t : Fin 4) (x : Byte) :
    byte r (encryptionEntry t x) = mul (mixing (r - t)) (substitute x) := by
  rw [encryptionEntry, isTable_encryption.byte_entry sbox_length, substitute_eq]

@[simp] lemma byte_decryptionEntry (r t : Fin 4) (x : Byte) :
    byte r (decryptionEntry t x) = mul (unmixing (r - t)) (substituteBack x) := by
  rw [decryptionEntry, isTable_decryption.byte_entry single_length, substituteBack]

@[simp] lemma substituteBack_substitute (x : Byte) : substituteBack (substitute x) = x := by
  have hlt : sbox.getD x.toNat 0 < 2 ^ 8 := by
    have hx : x.toNat < sbox.length := sbox_length ▸ x.isLt
    rw [List.getD_eq_getElem _ _ hx]
    have hmem := List.getElem_mem hx
    obtain ⟨n, -, hn⟩ := List.mem_map.mp hmem
    rw [← hn]
    exact Nat.mod_lt n (by norm_num)
  have hback : aesSingleDecryptionTable.getD (sbox.getD x.toNat 0) 0 = x.toNat := by
    rw [← getD_map sbox_length (aesSingleDecryptionTable.getD · 0), single_sbox,
      List.getD_eq_getElem _ _ (by rw [List.length_range]; exact x.isLt), List.getElem_range]
  rw [substituteBack, substitute_eq, BitVec.toNat_ofNat, Nat.mod_eq_of_lt hlt, hback,
    BitVec.ofNat_toNat, BitVec.setWidth_eq]

/-! ### Rounds -/

/-- The words with their bytes substituted and their rows shifted. -/
def shifted (s : Words) : Words := fun j => ofColumn fun t => substitute (byte t (s (j + t)))

def shiftedBack (s : Words) : Words :=
  fun j => ofColumn fun t => substituteBack (byte t (s (j - t)))

lemma shiftedBack_shifted (s : Words) : shiftedBack (shifted s) = s := by
  funext j
  refine word_ext fun t => ?_
  rw [shiftedBack, byte_ofColumn, shifted, byte_ofColumn, substituteBack_substitute,
    sub_add_cancel]

lemma mixWord_xor (c : Column) (v w : Word) :
    mixWord c (v ^^^ w) = mixWord c v ^^^ mixWord c w := by
  rw [mixWord, column_xor, mix_xor, ofColumn_xor, mixWord, mixWord]

lemma mixWord_unmixing (w : Word) : mixWord unmixing (mixWord mixing w) = w := by
  rw [mixWord, mixWord, column_ofColumn, mix_of_inverse inverse_mixing, ofColumn_column]

lemma encryptWords_eq (key : ℕ → Word) (i : ℕ) (s : Words) (j : Fin 4) :
    encryptWords key i s j = key (j + i * 4) ^^^ mixWord mixing (shifted s j) := by
  refine word_ext fun r => ?_
  simp only [encryptWords, mixWord, shifted, byte_xor, byte_encryptionEntry, byte_ofColumn, mix,
    GaloisByte.sum, column, add_zero, BitVec.xor_assoc]

lemma decryptWords_eq (key : ℕ → Word) (i : ℕ) (s : Words) (j : Fin 4) :
    decryptWords key i s j = key (j + i * 4) ^^^ mixWord unmixing (shiftedBack s j) := by
  refine word_ext fun r => ?_
  simp only [decryptWords, mixWord, shiftedBack, byte_xor, byte_decryptionEntry, byte_ofColumn,
    mix, GaloisByte.sum, column, sub_zero, BitVec.xor_assoc]

lemma unmixKeyWord_eq (w : Word) : unmixKeyWord w = mixWord unmixing w := by
  refine word_ext fun r => ?_
  simp only [unmixKeyWord, mixWord, byte_xor, byte_decryptionEntry, substituteBack_substitute,
    byte_ofColumn, mix, GaloisByte.sum, column]

/-- The words after `n` rounds. -/
def afterRounds (round : ℕ → Words → Words) (start : Words) : ℕ → Words
  | 0 => start
  | n + 1 => round (n + 1) (afterRounds round start n)

lemma middleRounds_eq (round : ℕ → Words → Words) (start : Words) (n : ℕ) :
    (if n % 2 = 1 then (middleRounds round start n).high else (middleRounds round start n).low) =
      afterRounds round start n := by
  induction n with
  | zero => rfl
  | succ n ih =>
    rw [afterRounds, ← ih, middleRounds]
    rcases Nat.mod_two_eq_zero_or_one n with h | h
    · have hodd : (n + 1) % 2 = 1 := by omega
      simp [h, hodd]
    · have heven : ¬ (n + 1) % 2 = 1 := by omega
      simp [h, heven]

lemma middleRounds_high {rounds : ℕ} (heven : Even rounds) (hpos : 0 < rounds)
    (round : ℕ → Words → Words) (start : Words) :
    (middleRounds round start (rounds - 1)).high = afterRounds round start (rounds - 1) := by
  have hodd : (rounds - 1) % 2 = 1 := by
    obtain ⟨n, rfl⟩ := heven
    omega
  rw [← middleRounds_eq, if_pos hodd]

/-! ### Blocks -/

lemma word_ofWords (words : Words) (i : Fin 4) : (ofWords words).word i = words i := by
  have hbyte : ∀ k : Fin 4, ofWords words (Block.index i k) = byte k (words i) := by
    intro k
    have hmod : (4 * i.1 + k) % 4 = k := by omega
    have hdiv : (4 * i.1 + k) / 4 = i := by omega
    simp only [ofWords, Block.index, hmod, hdiv]
  refine word_ext fun k => ?_
  rw [Block.word, hbyte, hbyte, hbyte, hbyte]
  exact byte_ofColumn k fun k => byte k (words i)

lemma ofWords_word (data : Block) : ofWords data.word = data := by
  funext x
  have hword : ∀ i k : Fin 4, byte k (data.word i) = data (Block.index i k) := fun i k =>
    byte_ofColumn k fun k => data (Block.index i k)
  rw [ofWords, hword]
  congr 1
  exact Fin.ext (Nat.div_add_mod x.1 4)

lemma lastRound_eq (s : Words) (i : Fin 4) :
    ofBytes (substitute (byte 0 (s i))) (substitute (byte 1 (s (i + 1))))
      (substitute (byte 2 (s (i + 2)))) (substitute (byte 3 (s (i + 3)))) = shifted s i := by
  rw [shifted, ofColumn, add_zero]

lemma lastRoundBack_eq (s : Words) (i : Fin 4) :
    ofBytes (substituteBack (byte 0 (s i))) (substituteBack (byte 1 (s (i - 1))))
      (substituteBack (byte 2 (s (i - 2)))) (substituteBack (byte 3 (s (i - 3)))) =
        shiftedBack s i := by
  rw [shiftedBack, ofColumn, sub_zero]

lemma generateDecryptionKey_matches {rounds : ℕ} (heven : Even rounds) (hpos : 0 < rounds)
    (key : ℕ → Word) : Matches rounds key (generateDecryptionKey rounds key) where
  even := heven
  pos := hpos
  first j := by
    have hindex : rounds * 4 - j / 4 * 4 + j % 4 = j + rounds * 4 := by omega
    have hborder : ¬ (4 ≤ j.1 ∧ j.1 < rounds * 4) := by omega
    rw [generateDecryptionKey, hindex, if_neg hborder]
  last j := by
    have hindex : rounds * 4 - (j + rounds * 4) / 4 * 4 + (j + rounds * 4) % 4 = j := by omega
    have hborder : ¬ (4 ≤ j + rounds * 4 ∧ j + rounds * 4 < rounds * 4) := by omega
    rw [generateDecryptionKey, hindex, if_neg hborder]
  middle i h0 hi j := by
    have hindex : rounds * 4 - (j + i * 4) / 4 * 4 + (j + i * 4) % 4 = j + (rounds - i) * 4 := by
      omega
    have hborder : 4 ≤ j + i * 4 ∧ j + i * 4 < rounds * 4 := by omega
    rw [generateDecryptionKey, hindex, if_pos hborder, unmixKeyWord_eq]

/-- **What decryption has after a round.** It is what encryption had before the round that it
undoes next, substituted and shifted. -/
lemma afterRounds_decrypt {rounds : ℕ} {encryptionKey decryptionKey : ℕ → Word}
    (h : Matches rounds encryptionKey decryptionKey) (start : Words) {i : ℕ} (hi : i < rounds) :
    afterRounds (decryptWords decryptionKey)
        (shifted (afterRounds (encryptWords encryptionKey) start (rounds - 1))) i =
      shifted (afterRounds (encryptWords encryptionKey) start (rounds - 1 - i)) := by
  induction i with
  | zero => rfl
  | succ i ih =>
    have hround : rounds - 1 - i = rounds - 1 - (i + 1) + 1 := by omega
    have hkey : rounds - 1 - (i + 1) + 1 = rounds - (i + 1) := by omega
    funext j
    rw [afterRounds, ih (by omega), decryptWords_eq, shiftedBack_shifted, hround, afterRounds,
      encryptWords_eq, mixWord_xor, mixWord_unmixing, hkey, h.middle _ (by omega) hi,
      ← BitVec.xor_assoc, BitVec.xor_self, BitVec.zero_xor]

theorem aesDecryptBlock_aesEncryptBlock {state state' : AesState}
    (h : Matches state.rounds state.encryptionKey state'.decryptionKey)
    (hrounds : state'.rounds = state.rounds) (data : Block) :
    aesDecryptBlock state' (aesEncryptBlock state data) = data := by
  have hpos := h.pos
  simp only [aesDecryptBlock, aesEncryptBlock, hrounds, word_ofWords, lastRound_eq,
    lastRoundBack_eq, middleRounds_high h.even h.pos]
  set start : Words := fun i => state.encryptionKey i ^^^ data.word i with hstart
  have hfirst : (fun i : Fin 4 => state'.decryptionKey i ^^^ (state.encryptionKey
      (i + state.rounds * 4) ^^^ shifted (afterRounds (encryptWords state.encryptionKey) start
        (state.rounds - 1)) i)) = shifted (afterRounds (encryptWords state.encryptionKey) start
          (state.rounds - 1)) := by
    funext i
    rw [h.first, ← BitVec.xor_assoc, BitVec.xor_self, BitVec.zero_xor]
  rw [hfirst, afterRounds_decrypt h start (by omega), Nat.sub_self, shiftedBack_shifted,
    afterRounds]
  conv_rhs => rw [← ofWords_word data]
  congr 1
  funext i
  rw [h.last, hstart, ← BitVec.xor_assoc, BitVec.xor_self, BitVec.zero_xor]

/-! ### Cipher block chaining -/

lemma xorCbcBlock_cancel (a b : Block) : xorCbcBlock (xorCbcBlock a b) b = a := by
  funext i
  rw [xorCbcBlock, xorCbcBlock, BitVec.xor_assoc, BitVec.xor_self, BitVec.xor_zero]

lemma cbcDecrypt_cbcEncrypt {state state' : AesState}
    (h : Matches state.rounds state.encryptionKey state'.decryptionKey)
    (hrounds : state'.rounds = state.rounds) (previous : Block) (blocks : List Block) :
    cbcDecrypt state' previous (cbcEncrypt state previous blocks) = blocks := by
  induction blocks generalizing previous with
  | nil => rfl
  | cons data rest ih =>
    rw [cbcEncrypt, cbcDecrypt, aesDecryptBlock_aesEncryptBlock h hrounds, xorCbcBlock_cancel, ih]

@[simp] lemma cbcEncrypt_length (state : AesState) (previous : Block) (blocks : List Block) :
    (cbcEncrypt state previous blocks).length = blocks.length := by
  induction blocks generalizing previous with
  | nil => rfl
  | cons data rest ih => rw [cbcEncrypt, List.length_cons, List.length_cons, ih]

@[simp] lemma cbcDecrypt_length (state : AesState) (previous : Block) (blocks : List Block) :
    (cbcDecrypt state previous blocks).length = blocks.length := by
  induction blocks generalizing previous with
  | nil => rfl
  | cons data rest ih => rw [cbcDecrypt, List.length_cons, List.length_cons, ih]

@[simp] lemma blocks_length (data : List Byte) : (blocks data).length = data.length / 16 := by
  rw [blocks, List.length_map, List.length_range]

lemma bytes_cons (data : Block) (rest : List Block) :
    bytes (data :: rest) = List.ofFn data ++ bytes rest := by
  rw [bytes, List.flatMap_cons, bytes]

@[simp] lemma bytes_length (blocks : List Block) : (bytes blocks).length = 16 * blocks.length := by
  induction blocks with
  | nil => rfl
  | cons data rest ih =>
    rw [bytes_cons, List.length_append, List.length_ofFn, ih, List.length_cons]
    omega

lemma blockAt_zero (data : Block) (rest : List Byte) :
    blockAt (List.ofFn data ++ rest) 0 = data := by
  funext k
  rw [blockAt, List.getD_append _ _ _ _ (by rw [List.length_ofFn]; omega),
    List.getD_eq_getElem _ _ (by rw [List.length_ofFn]; omega), List.getElem_ofFn]
  congr 1
  exact Fin.ext (by simp)

lemma blockAt_succ (data : Block) (rest : List Byte) (i : ℕ) :
    blockAt (List.ofFn data ++ rest) (i + 1) = blockAt rest i := by
  funext k
  rw [blockAt, blockAt, List.getD_append_right _ _ _ _ (by rw [List.length_ofFn]; omega),
    List.length_ofFn]
  congr 1
  omega

lemma blocks_append (data : Block) (rest : List Byte) :
    blocks (List.ofFn data ++ rest) = data :: blocks rest := by
  have hlength : (List.ofFn data ++ rest).length / 16 = rest.length / 16 + 1 := by
    rw [List.length_append, List.length_ofFn]
    omega
  rw [blocks, hlength, List.range_succ_eq_map, List.map_cons, blockAt_zero, List.map_map, blocks]
  congr 1
  exact List.map_congr_left fun i _ => blockAt_succ data rest i

lemma blocks_bytes (l : List Block) : blocks (bytes l) = l := by
  induction l with
  | nil => rfl
  | cons data rest ih => rw [bytes_cons, blocks_append, ih]

lemma bytes_blocks {data : List Byte} (h : data.length % 16 = 0) : bytes (blocks data) = data := by
  obtain ⟨n, hn⟩ : ∃ n, data.length = 16 * n := ⟨data.length / 16, by omega⟩
  clear h
  induction n generalizing data with
  | zero =>
    obtain rfl := List.length_eq_zero_iff.mp hn
    rfl
  | succ n ih =>
    have hfirst : List.ofFn (fun k : Fin 16 => data.getD k 0) = data.take 16 := by
      refine List.ext_getElem (by simp; omega) fun i h1 h2 => ?_
      rw [List.length_ofFn] at h1
      rw [List.getElem_ofFn, List.getElem_take, List.getD_eq_getElem]
    have hsplit : data = List.ofFn (fun k : Fin 16 => data.getD k 0) ++ data.drop 16 := by
      rw [hfirst, List.take_append_drop]
    rw [hsplit, blocks_append, bytes_cons, ih (by rw [List.length_drop]; omega)]

lemma aesInit_matches {key : List Byte} {state : AesState}
    (h : aesInit key ⟨true, false⟩ = some state) :
    ∃ state', aesInit key ⟨false, true⟩ = some state' ∧ state'.rounds = state.rounds ∧
      Matches state.rounds state.encryptionKey state'.decryptionKey := by
  simp only [aesInit, Bool.not_true, Bool.not_false, Bool.and_true, Bool.and_false,
    Bool.false_eq_true, if_false, if_true] at h ⊢
  by_cases hkey : key.length ≠ 16 ∧ key.length ≠ 24 ∧ key.length ≠ 32
  · rw [if_pos hkey] at h
    cases h
  · rw [if_neg hkey] at h ⊢
    obtain rfl := Option.some.inj h
    have heven : Even (6 + key.length / 4) := by
      have hlength : key.length = 16 ∨ key.length = 24 ∨ key.length = 32 := by omega
      rcases hlength with hlength | hlength | hlength <;> rw [hlength] <;> decide
    exact ⟨_, rfl, rfl, generateDecryptionKey_matches heven (Nat.add_pos_left (by norm_num) _) _⟩

section

variable {key iv data out : List Byte} {inPlace : Bool} {state : AesState}

lemma aesCbcProcess_length {flags : Flags}
    (h : aesCbcProcess key iv flags data inPlace = some out) :
    out.length = data.length := by
  rw [aesCbcProcess] at h
  by_cases hzero : data.length = 0
  · rw [if_pos hzero] at h
    rw [← Option.some.inj h, hzero]
    rfl
  by_cases hiv : iv.length ≠ 16
  · rw [if_neg hzero, if_pos hiv] at h
    cases h
  by_cases hflags : flags.encryption = flags.decryption
  · rw [if_neg hzero, if_neg hiv, if_pos hflags] at h
    cases h
  by_cases hdata : data.length % 16 ≠ 0
  · rw [if_neg hzero, if_neg hiv, if_neg hflags, if_pos hdata] at h
    cases h
  rw [if_neg hzero, if_neg hiv, if_neg hflags, if_neg hdata] at h
  have hout : ∀ l : List Block, l.length = (blocks data).length →
      (bytes l).length = data.length := by
    intro l hl
    rw [bytes_length, hl, blocks_length]
    omega
  split_ifs at h
  · obtain ⟨state, -, h⟩ := Option.bind_eq_some_iff.mp h
    rw [← Option.some.inj h]
    exact hout _ (cbcEncrypt_length _ _ _)
  · obtain ⟨state, -, h⟩ := Option.bind_eq_some_iff.mp h
    rw [← Option.some.inj h]
    exact hout _ (cbcDecrypt_length _ _ _)

lemma aesInit_isSome (flags : Flags) (hkey : key.length = 16 ∨ key.length = 24 ∨ key.length = 32)
    (h : flags.encryption || flags.decryption) : ∃ state, aesInit key flags = some state := by
  have hflags : ¬(!flags.encryption && !flags.decryption) = true := by
    cases hflag : flags.encryption <;> simp_all
  rw [aesInit, if_neg hflags, if_neg (by omega)]
  exact ⟨_, rfl⟩

lemma aesCbcProcess_encrypt (inPlace : Bool) (hiv : iv.length = 16) (hdata : data.length % 16 = 0)
    (hstate : aesInit key ⟨true, false⟩ = some state) :
    aesCbcProcess key iv ⟨true, false⟩ data inPlace =
      some (bytes (cbcEncrypt state (blockAt iv 0) (blocks data))) := by
  by_cases hzero : data.length = 0
  · rw [List.length_eq_zero_iff.mp hzero]
    rfl
  · rw [aesCbcProcess, if_neg hzero, if_neg (not_not.mpr hiv), if_neg (by simp),
      if_neg (not_not.mpr hdata), if_neg (by simp), hstate]
    rfl

lemma aesCbcProcess_decrypt (hiv : iv.length = 16) (hdata : data.length % 16 = 0)
    (hstate : aesInit key ⟨false, true⟩ = some state) :
    aesCbcProcess key iv ⟨false, true⟩ data false =
      some (bytes (cbcDecrypt state (blockAt iv 0) (blocks data))) := by
  by_cases hzero : data.length = 0
  · rw [List.length_eq_zero_iff.mp hzero]
    rfl
  · rw [aesCbcProcess, if_neg hzero, if_neg (not_not.mpr hiv), if_neg (by simp),
      if_neg (not_not.mpr hdata), if_neg (by simp), hstate]
    rfl

lemma aesCbcProcess_encrypted (hne : data.length ≠ 0)
    (h : aesCbcProcess key iv ⟨true, false⟩ data inPlace = some out) :
    iv.length = 16 ∧ data.length % 16 = 0 ∧ ∃ state, aesInit key ⟨true, false⟩ = some state ∧
      out = bytes (cbcEncrypt state (blockAt iv 0) (blocks data)) := by
  rw [aesCbcProcess, if_neg hne] at h
  by_cases hiv : iv.length ≠ 16
  · rw [if_pos hiv] at h
    cases h
  rw [if_neg hiv, if_neg (by simp)] at h
  by_cases hdata : data.length % 16 ≠ 0
  · rw [if_pos hdata] at h
    cases h
  rw [if_neg hdata, if_neg (by simp)] at h
  obtain ⟨state, hstate, hout⟩ := Option.bind_eq_some_iff.mp h
  exact ⟨not_not.mp hiv, not_not.mp hdata, state, hstate, (Option.some.inj hout).symm⟩

lemma aesCbcProcess_decrypts_all (h : aesCbcProcess key iv ⟨true, false⟩ data inPlace = some out) :
    aesCbcProcess key iv ⟨false, true⟩ out false = some data := by
  by_cases hzero : data.length = 0
  · rw [aesCbcProcess, if_pos hzero] at h
    obtain rfl := Option.some.inj h
    rw [List.length_eq_zero_iff.mp hzero]
    rfl
  obtain ⟨hiv, hdata, state, hstate, rfl⟩ := aesCbcProcess_encrypted hzero h
  obtain ⟨state', hstate', hrounds, hmatches⟩ := aesInit_matches hstate
  rw [aesCbcProcess_decrypt hiv (by rw [bytes_length]; omega) hstate', blocks_bytes,
    cbcDecrypt_cbcEncrypt hmatches hrounds, bytes_blocks hdata]

lemma aesCbcProcess_decrypts_behind {iv' : List Byte} (hiv' : iv'.length = 16)
    (h : aesCbcProcess key iv ⟨true, false⟩ data inPlace = some out) :
    ∃ data', aesCbcProcess key iv' ⟨false, true⟩ out false = some data' ∧
      data'.length = data.length ∧ data'.drop 16 = data.drop 16 := by
  by_cases hzero : data.length = 0
  · rw [aesCbcProcess, if_pos hzero] at h
    obtain rfl := Option.some.inj h
    rw [List.length_eq_zero_iff.mp hzero]
    exact ⟨[], rfl, rfl, rfl⟩
  obtain ⟨hiv, hdata, state, hstate, rfl⟩ := aesCbcProcess_encrypted hzero h
  obtain ⟨state', hstate', hrounds, hmatches⟩ := aesInit_matches hstate
  refine ⟨_, aesCbcProcess_decrypt hiv' (by rw [bytes_length]; omega) hstate', ?_⟩
  have hback := cbcDecrypt_cbcEncrypt hmatches hrounds (blockAt iv 0) (blocks data)
  have hbytes := bytes_blocks hdata
  rw [blocks_bytes]
  cases hblocks : blocks data with
  | nil =>
    rw [hblocks] at hbytes
    exact absurd (congrArg List.length hbytes).symm hzero
  | cons first rest =>
    rw [hblocks] at hback hbytes
    rw [cbcEncrypt, cbcDecrypt] at hback ⊢
    rw [← hbytes, bytes_cons, bytes_cons, (List.cons.inj hback).2]
    simp

/-- **Decryption undoes encryption.** What `aes_cbc_process` has encrypted, in place or not, it
decrypts with the same key and vector to the same bytes, and with another vector to bytes that
agree behind the first block. -/
theorem aesCbcProcess_decrypts (h : aesCbcProcess key iv ⟨true, false⟩ data inPlace = some out) :
    aesCbcProcess key iv ⟨false, true⟩ out false = some data ∧
      ∀ iv', iv'.length = 16 → ∃ data', aesCbcProcess key iv' ⟨false, true⟩ out false = some data' ∧
        data'.length = data.length ∧ data'.drop 16 = data.drop 16 :=
  ⟨aesCbcProcess_decrypts_all h, fun _ hiv' => aesCbcProcess_decrypts_behind hiv' h⟩

end

/-- Two blocks, encrypted in place. -/
theorem aesCbcProcess_decrypts_twoBlocks : ∃ out,
    aesCbcProcess (List.replicate 32 7) (List.replicate 16 1) ⟨true, false⟩ (List.replicate 32 5)
      true = some out ∧
    aesCbcProcess (List.replicate 32 7) (List.replicate 16 1) ⟨false, true⟩ out false =
      some (List.replicate 32 5) := by
  obtain ⟨out, h⟩ : ∃ out, aesCbcProcess (List.replicate 32 7) (List.replicate 16 1) ⟨true, false⟩
      (List.replicate 32 5) true = some out := ⟨_, rfl⟩
  exact ⟨out, h, (aesCbcProcess_decrypts h).1⟩

end KernelModel.Aes
