import KernelModel.AesInverse

/-!
The cipher that the tables compute.

Bytes are substituted by an affine map of the inverse in the field, the rows of a block are
shifted, its columns are multiplied with a matrix and the words of a key schedule are added. A
key schedule is known by its recurrence.
-/

namespace KernelModel.Aes

open GaloisByte Function

namespace Standard

def affine (b : Byte) : Byte :=
  b ^^^ b.rotateLeft 1 ^^^ b.rotateLeft 2 ^^^ b.rotateLeft 3 ^^^ b.rotateLeft 4 ^^^ 0x63

noncomputable def subByte (a : Byte) : Byte := affine (inverse a)

/-! ### Key schedules -/

noncomputable def subWord (w : Word) : Word := ofColumn fun k => subByte (byte k w)

def rotWord (w : Word) : Word := ofColumn fun k => byte (k + 1) w

/-- The power of `x` to `n - 1`, in the first byte of a word. -/
def roundConstant (n : ℕ) : Word := ofColumn ![xtime^[n - 1] 1, 0, 0, 0]

/-- What is added to the word `width` places before. -/
noncomputable def keyStep (width i : ℕ) (last : Word) : Word :=
  if i % width = 0 then subWord (rotWord last) ^^^ roundConstant (i / width)
  else if 6 < width ∧ i % width = 4 then subWord last
  else last

structure IsSchedule (key : List Byte) (w : ℕ → Word) : Prop where
  start : ∀ i < key.length / 4, ∀ k : Fin 4, byte k (w i) = key.getD (4 * i + k) 0
  step : ∀ i, key.length / 4 ≤ i → i < (key.length / 4 + 7) * 4 →
    w i = w (i - key.length / 4) ^^^ keyStep (key.length / 4) i (w (i - 1))

/-! ### Rounds -/

/-- The columns of a block. -/
abbrev State : Type := Fin 4 → Column

noncomputable def subBytes (s : State) : State := fun j r => subByte (s j r)

def shiftRows (s : State) : State := fun j r => s (j + r) r

def mixColumns (s : State) : State := fun j r =>
  mul 2 (s j r) ^^^ mul 3 (s j (r + 1)) ^^^ s j (r + 2) ^^^ s j (r + 3)

def addRoundKey (w : ℕ → Word) (round : ℕ) (s : State) : State := fun j r =>
  s j r ^^^ byte r (w (round * 4 + j))

/-- The first addition of the key, and the rounds in the middle. -/
noncomputable def rounds (w : ℕ → Word) (s : State) : ℕ → State
  | 0 => addRoundKey w 0 s
  | n + 1 => addRoundKey w (n + 1) (mixColumns (shiftRows (subBytes (rounds w s n))))

noncomputable def cipher (count : ℕ) (w : ℕ → Word) (s : State) : State :=
  addRoundKey w count (shiftRows (subBytes (rounds w s (count - 1))))

end Standard

open Standard

/-! ### Substitution -/

/-- What an affine map takes to `s`. -/
def affineBack (s : Byte) : Byte := s.rotateLeft 1 ^^^ s.rotateLeft 3 ^^^ s.rotateLeft 6 ^^^ 0x05

lemma affine_affineBack : ∀ s, affine (affineBack s) = s := by decide +kernel

lemma sbox_inverse : ∀ p ∈ (List.range 256).zip sbox, p.1 = 0 ∧ p.2 = 0x63 ∨
    mul (BitVec.ofNat 8 p.1) (affineBack (BitVec.ofNat 8 p.2)) = 1 := by
  decide +kernel

lemma substitute_subByte (x : Byte) : substitute x = subByte x := by
  have hx : x.toNat < sbox.length := sbox_length ▸ x.isLt
  have hmem : (x.toNat, sbox.getD x.toNat 0) ∈ (List.range 256).zip sbox := by
    refine List.mem_iff_getElem.mpr ⟨x.toNat, ?_, ?_⟩
    · rw [List.length_zip, List.length_range, sbox_length]
      exact x.isLt
    · rw [List.getElem_zip, List.getElem_range, List.getD_eq_getElem _ _ hx]
  rw [substitute_eq, subByte]
  rcases sbox_inverse _ hmem with ⟨hzero, hs⟩ | hmul
  · obtain rfl : x = 0 := BitVec.eq_of_toNat_eq hzero
    dsimp only at hs
    rw [hs, inverse_zero]
    decide
  · rw [BitVec.ofNat_toNat, BitVec.setWidth_eq] at hmul
    rw [inverse_eq hmul, affine_affineBack]

/-! ### The schedule of `aes_init` -/

variable {width : ℕ} {start : ℕ → Word}

lemma expandKey_snd (hwidth : 0 < width) (n : ℕ) : (expandKey width start n).2 = n % width := by
  induction n with
  | zero => rw [expandKey, Nat.zero_mod]
  | succ n ih =>
    have hlt := Nat.mod_lt n hwidth
    have hstep : (expandKey width start (n + 1)).2 =
        if n % width + 1 = width then 0 else n % width + 1 := by
      rw [← ih]
      rfl
    rw [hstep, ← Nat.mod_add_mod]
    split_ifs with hend
    · rw [hend, Nat.mod_self]
    · exact (Nat.mod_eq_of_lt (by omega)).symm

lemma expandKey_stable {n m i : ℕ} (hle : n ≤ m) (hi : i < width + n) :
    (expandKey width start m).1 i = (expandKey width start n).1 i := by
  induction m, hle using Nat.le_induction with
  | base => rfl
  | succ m hle ih =>
    rw [← ih]
    exact update_of_ne (by omega) _ _

lemma nextKeyWord_congr {key key' : ℕ → Word} {i j : ℕ} (hlast : key (i - 1) = key' (i - 1))
    (hback : key (i - width) = key' (i - width)) :
    nextKeyWord width key i j = nextKeyWord width key' i j := by
  simp only [nextKeyWord, hlast, hback]

lemma expandKey_eq (hwidth : 0 < width) {n m : ℕ} (hn : n < m) :
    (expandKey width start m).1 (width + n) =
      nextKeyWord width (expandKey width start m).1 (width + n) (n % width) := by
  have hword : (expandKey width start (n + 1)).1 (width + n) =
      nextKeyWord width (expandKey width start n).1 (width + n) (n % width) := by
    rw [← expandKey_snd hwidth n]
    exact update_self _ _ _
  rw [expandKey_stable hn (by omega), hword]
  exact nextKeyWord_congr (expandKey_stable hn.le (by omega)).symm
    (expandKey_stable hn.le (by omega)).symm

lemma rcon_eq {n : ℕ} (hpos : 0 < n) (hle : n ≤ 10) :
    BitVec.ofNat 32 (aesRcon.getD (n - 1) 0) = roundConstant n := by
  have hall : ∀ n : Fin 10, BitVec.ofNat 32 (aesRcon.getD n 0) = roundConstant (n + 1) := by
    decide
  obtain ⟨k, rfl⟩ : ∃ k, n = k + 1 := ⟨n - 1, by omega⟩
  exact hall ⟨k, by omega⟩

/-- The words that a key of `4 * width` bytes is expanded to. -/
lemma nextKeyWord_eq {key : ℕ → Word} {i : ℕ} (hwidth : width = 4 ∨ width = 6 ∨ width = 8)
    (hle : width ≤ i) (hlt : i < (width + 7) * 4) :
    nextKeyWord width key i (i % width) = key (i - width) ^^^ keyStep width i (key (i - 1)) := by
  have hpos : 0 < width := by omega
  have hdiv : 0 < i / width := Nat.div_pos hle hpos
  have hrcon : i / width ≤ 10 := by
    rcases hwidth with rfl | rfl | rfl <;> omega
  have hsub : ∀ w : Word, ofBytes (substitute (byte 0 w)) (substitute (byte 1 w))
      (substitute (byte 2 w)) (substitute (byte 3 w)) = subWord w := by
    intro w
    simp only [substitute_subByte]
    rfl
  have hrot : ∀ w : Word, ofBytes (substitute (byte 1 w)) (substitute (byte 2 w))
      (substitute (byte 3 w)) (substitute (byte 0 w)) = subWord (rotWord w) := by
    intro w
    rw [← hsub]
    simp only [rotWord, byte_ofColumn]
    rfl
  rw [nextKeyWord, keyStep]
  by_cases hzero : i % width = 0
  · rw [if_pos hzero, if_pos hzero, rcon_eq hdiv hrcon, hrot, BitVec.xor_assoc,
      BitVec.xor_comm (roundConstant _)]
  · have hwide : (width = 8 ∧ i % width = 4) ↔ (6 < width ∧ i % width = 4) := by omega
    rw [if_neg hzero, if_neg hzero, hsub]
    by_cases hfour : width = 8 ∧ i % width = 4
    · rw [if_pos hfour, if_pos (hwide.mp hfour)]
    · rw [if_neg hfour, if_neg (mt hwide.mpr hfour)]

lemma generateEncryptionKey_isSchedule {key : List Byte}
    (hwidth : key.length / 4 = 4 ∨ key.length / 4 = 6 ∨ key.length / 4 = 8) :
    IsSchedule key (generateEncryptionKey (6 + key.length / 4) key) where
  start i hi k := by
    rw [generateEncryptionKey, Nat.add_sub_cancel_left, expandKey_stable (Nat.zero_le _) (by omega),
      expandKey]
    exact byte_ofColumn k fun k => key.getD (4 * i + k) 0
  step i hle hlt := by
    obtain ⟨n, rfl⟩ := Nat.exists_eq_add_of_le hle
    rw [generateEncryptionKey, Nat.add_sub_cancel_left, expandKey_eq (by omega) (by omega),
      ← Nat.add_mod_left (key.length / 4) n, nextKeyWord_eq hwidth hle hlt]

/-! ### Blocks -/

def Block.columns (data : Block) : State := fun j r => data (Block.index j r)

lemma column_word (data : Block) (j : Fin 4) : column (data.word j) = data.columns j :=
  column_ofColumn (data.columns j)

lemma columns_ofWords (words : Words) (j : Fin 4) :
    (ofWords words).columns j = column (words j) := by
  rw [← column_word, word_ofWords]

lemma column_shifted (s : Words) (j : Fin 4) :
    column (shifted s j) = shiftRows (subBytes fun j => column (s j)) j := by
  funext r
  rw [column, shifted, byte_ofColumn, substitute_subByte]
  rfl

lemma mixColumns_eq (s : Standard.State) (j : Fin 4) : mixColumns s j = mix mixing (s j) := by
  funext r
  have hone : ∀ x, mul 1#8 x = x := GaloisByte.one_mul
  fin_cases r <;> simp [mixColumns, mix, mixing, GaloisByte.sum, hone] <;> ac_rfl

lemma column_encryptWords (key : ℕ → Word) (n : ℕ) (s : Words) :
    (fun j => column (encryptWords key n s j)) =
      addRoundKey key n (mixColumns (shiftRows (subBytes fun j => column (s j)))) := by
  funext j r
  rw [encryptWords_eq, column, byte_xor, mixWord, byte_ofColumn, column_shifted, addRoundKey,
    mixColumns_eq, BitVec.xor_comm, Nat.add_comm (j : ℕ)]

lemma column_afterRounds (key : ℕ → Word) (data : Block) (n : ℕ) :
    (fun j => column (afterRounds (encryptWords key) (fun i => key i ^^^ data.word i) n j)) =
      rounds key data.columns n := by
  induction n with
  | zero =>
    funext j r
    rw [afterRounds, rounds, addRoundKey, column, byte_xor, Nat.zero_mul, Nat.zero_add,
      BitVec.xor_comm]
    exact congrArg (· ^^^ _) (congrFun (column_word data j) r)
  | succ n ih => rw [afterRounds, column_encryptWords, ih, rounds]

lemma aesEncryptBlock_eq {state : AesState} (heven : Even state.rounds) (hpos : 0 < state.rounds)
    (data : Block) : (aesEncryptBlock state data).columns =
      cipher state.rounds state.encryptionKey data.columns := by
  funext j r
  rw [aesEncryptBlock, columns_ofWords, middleRounds_high heven hpos, lastRound_eq, column,
    byte_xor,
    cipher, addRoundKey, ← column_afterRounds, ← column_shifted, BitVec.xor_comm,
    Nat.add_comm (j : ℕ)]
  rfl

lemma Standard.IsSchedule.eq {key : List Byte} {w w' : ℕ → Word} (hpos : 0 < key.length / 4)
    (h : IsSchedule key w) (h' : IsSchedule key w') :
    ∀ i, i < (key.length / 4 + 7) * 4 → w i = w' i := by
  intro i
  induction i using Nat.strong_induction_on with
  | _ i ih =>
    intro hi
    by_cases hstart : i < key.length / 4
    · exact word_ext fun k => (h.start i hstart k).trans (h'.start i hstart k).symm
    · rw [h.step i (by omega) hi, h'.step i (by omega) hi, ih (i - 1) (by omega) (by omega),
        ih (i - key.length / 4) (by omega) (by omega)]

lemma rounds_congr {w w' : ℕ → Word} (s : Standard.State) {n : ℕ}
    (h : ∀ i < (n + 1) * 4, w i = w' i) : rounds w s n = rounds w' s n := by
  have hadd : ∀ (s : Standard.State) {m : ℕ}, m ≤ n → addRoundKey w m s = addRoundKey w' m s := by
    intro s m hm
    funext j r
    rw [addRoundKey, h _ (by omega), addRoundKey]
  suffices ∀ m ≤ n, rounds w s m = rounds w' s m from this n le_rfl
  intro m hm
  induction m with
  | zero => exact hadd s hm
  | succ m ih => rw [rounds, rounds, ih (by omega), hadd _ hm]

lemma cipher_congr {w w' : ℕ → Word} (s : Standard.State) {n : ℕ} (hpos : 0 < n)
    (h : ∀ i < (n + 1) * 4, w i = w' i) : cipher n w s = cipher n w' s := by
  rw [cipher, cipher, rounds_congr s fun i hi => h i (by omega)]
  funext j r
  rw [addRoundKey, h _ (by omega), addRoundKey]

/-- Encryption with the words of the encryption key is the inverse of decryption. -/
lemma aesEncryptBlock_aesDecryptBlock {state state' : AesState}
    (h : Matches state.rounds state.encryptionKey state'.decryptionKey)
    (hrounds : state'.rounds = state.rounds) (data : Block) :
    aesEncryptBlock state (aesDecryptBlock state' data) = data := by
  have hleft : LeftInverse (aesDecryptBlock state') (aesEncryptBlock state) :=
    aesDecryptBlock_aesEncryptBlock h hrounds
  have : Finite Byte := Finite.of_equiv _ BitVec.equivFin.symm.toEquiv
  exact hleft.rightInverse_of_surjective (Finite.injective_iff_surjective.mp hleft.injective) data

/-- **The tables compute the cipher.** For a key that `aes_init` takes and its schedule, a block is
encrypted as the cipher says, and what it is decrypted to is what the cipher makes it of. -/
theorem aesInit_standard {key : List Byte} {flags : Flags} {state : AesState}
    (h : aesInit key flags = some state) :
    (∃ w, IsSchedule key w) ∧ ∀ w, IsSchedule key w →
      (flags.encryption → ∀ data, (aesEncryptBlock state data).columns =
        cipher (6 + key.length / 4) w data.columns) ∧
      (flags.decryption → ∀ data,
        cipher (6 + key.length / 4) w (aesDecryptBlock state data).columns = data.columns) := by
  rw [aesInit] at h
  by_cases hflags : (!flags.encryption && !flags.decryption) = true
  · rw [if_pos hflags] at h
    cases h
  by_cases hkey : key.length ≠ 16 ∧ key.length ≠ 24 ∧ key.length ≠ 32
  · rw [if_neg hflags, if_pos hkey] at h
    cases h
  rw [if_neg hflags, if_neg hkey] at h
  have hwidth : key.length / 4 = 4 ∨ key.length / 4 = 6 ∨ key.length / 4 = 8 := by omega
  have hschedule := generateEncryptionKey_isSchedule hwidth
  have heven : Even (6 + key.length / 4) := by
    rcases hwidth with hw | hw | hw <;> rw [hw] <;> decide
  have hpos : 0 < 6 + key.length / 4 := by omega
  have hrounds : state.rounds = 6 + key.length / 4 := by
    rw [← Option.some.inj h]
  refine ⟨⟨_, hschedule⟩, fun w hw => ?_⟩
  have hcongr := fun s => cipher_congr s hpos fun i hi =>
    hschedule.eq (by omega) hw i (by omega)
  constructor
  · intro henc data
    have hkeys : state.encryptionKey = generateEncryptionKey (6 + key.length / 4) key := by
      rw [← Option.some.inj h]
      exact if_pos henc
    rw [← hcongr, ← hrounds, aesEncryptBlock_eq (hrounds ▸ heven) (hrounds ▸ hpos), hkeys, hrounds]
  · intro hdec data
    have hkeys : state.decryptionKey = generateDecryptionKey (6 + key.length / 4)
        (generateEncryptionKey (6 + key.length / 4) key) := by
      rw [← Option.some.inj h]
      exact if_pos hdec
    have hmatches := generateDecryptionKey_matches heven hpos
      (generateEncryptionKey (6 + key.length / 4) key)
    rw [← hkeys] at hmatches
    let encrypting : AesState :=
      ⟨6 + key.length / 4, generateEncryptionKey (6 + key.length / 4) key, fun _ => 0⟩
    have hinverse : aesEncryptBlock encrypting (aesDecryptBlock state data) = data :=
      aesEncryptBlock_aesDecryptBlock hmatches hrounds data
    have hstandard : (aesEncryptBlock encrypting (aesDecryptBlock state data)).columns =
        cipher _ _ _ := aesEncryptBlock_eq heven hpos _
    rw [hinverse] at hstandard
    rw [← hcongr]
    exact hstandard.symm

/-- A key of zeros. -/
theorem aesInit_standard_zeros : ∃ state, aesInit (List.replicate 16 0) ⟨true, true⟩ = some state ∧
    ∀ w, IsSchedule (List.replicate 16 0) w → ∀ data, (aesEncryptBlock state data).columns =
      cipher 10 w data.columns := by
  obtain ⟨state, h⟩ : ∃ state, aesInit (List.replicate 16 0) ⟨true, true⟩ = some state := ⟨_, rfl⟩
  exact ⟨state, h, fun w hw => ((aesInit_standard h).2 w hw).1 rfl⟩

end KernelModel.Aes
