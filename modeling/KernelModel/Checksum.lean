import KernelModel.OnesComplement

/-!
The internet checksum of the network stack.

The loops read two bytes at a time, with a 16-bit counter. Memory is a function that has no byte
where a read would be out of bounds. The loops count down some fuel: a call returns a value if it
does so with enough of it.
-/

namespace KernelModel.Checksum

open OnesComplement

/-! ### The functions -/

/-- The bytes that may be read. -/
abbrev Memory := ℕ → Option UInt8

/-- The loop `for (u16 i=0;i<length;i+=2)`. -/
def addWords (data : Memory) (length : ℕ) : ℕ → ℕ → ℕ → Option ℕ
  | 0, _, _ => none
  | fuel + 1, i, checksum =>
    if i < length then
      (data i).bind fun low => (data (i + 1)).bind fun high =>
        addWords data length fuel ((i + 2) % 2 ^ 16)
          ((checksum + (low.toNat + high.toNat * 256)) % 2 ^ 32)
    else some checksum

/-- The carries are added back at the end. -/
def fold (checksum : ℕ) : ℕ :=
  let checksum := checksum % 2 ^ 16 + checksum / 2 ^ 16
  (checksum + checksum / 2 ^ 16) % 2 ^ 16

/-- `_update_checksum` -/
def addChecksum (data : Memory) (length checksum fuel : ℕ) : Option ℕ :=
  (addWords data length fuel 0 checksum).map fun checksum => 2 ^ 16 - 1 - fold checksum

/-- `net_checksum_calculate_checksum` -/
def calculateChecksum (data : Memory) (length fuel : ℕ) : Option ℕ := addChecksum data length 0 fuel

/-- `net_checksum_update_checksum` -/
def updateChecksum (data : Memory) (length out fuel : ℕ) : Option ℕ :=
  addChecksum data length (2 ^ 16 - 1 - out) fuel

/-- `net_checksum_verify_checksum` -/
def verifyChecksum (data : Memory) (length checksum fuel : ℕ) : Option ℕ :=
  (addWords data length fuel 0 checksum).map fold

/-! ### The loop -/

/-- The bytes of a list, and nothing behind them. -/
def ofList (data : List UInt8) : Memory := fun i => data[i]?

/-- The total of the words from an offset on. -/
def wordsFrom (data : ℕ → UInt8) : ℕ → ℕ → ℕ
  | _, 0 => 0
  | i, k + 1 => (data i).toNat + (data (i + 1)).toNat * 256 + wordsFrom data (i + 2) k

section

variable {data : Memory} {bytes : ℕ → UInt8} {length i k checksum fuel : ℕ}

/-- One round of adding back the carry changes the word of the total not at all. -/
lemma fold_eq (h : checksum < 2 ^ 32) : fold checksum = reduce checksum := by
  obtain ⟨once, honce⟩ : ∃ once, once = checksum % 2 ^ 16 + checksum / 2 ^ 16 := ⟨_, rfl⟩
  have hle : once ≤ 131070 := by omega
  have hzero : once = 0 ↔ checksum = 0 := by omega
  have hmod : once % 65535 = checksum % 65535 := by omega
  have hfold : fold checksum = (once + once / 2 ^ 16) % 2 ^ 16 := by rw [honce, fold]
  rw [hfold, reduce_congr hzero.symm hmod.symm]
  clear honce hfold hzero hmod
  rcases Nat.lt_or_ge once (2 ^ 16) with hsmall | hlarge
  · rw [Nat.div_eq_of_lt hsmall, Nat.add_zero, Nat.mod_eq_of_lt hsmall]
    exact (reduce_of_le (by omega)).symm
  · have hcarry : (once + once / 2 ^ 16) % 2 ^ 16 = once - 65535 := by omega
    rw [hcarry]
    refine eq_reduce ?_ ?_ ?_ <;> omega

lemma wordsFrom_le (bytes : ℕ → UInt8) (i k : ℕ) : wordsFrom bytes i k ≤ k * 65535 := by
  induction k generalizing i with
  | zero => exact Nat.zero_le _
  | succ k ih =>
    have hlow := (bytes i).toNat_lt
    have hhigh := (bytes (i + 1)).toNat_lt
    have hrest := ih (i + 2)
    rw [wordsFrom]
    omega

/-- **The loop** over memory that has all the words: it adds them. -/
lemma addWords_eq (hread : ∀ j < 2 * k, data (i + j) = some (bytes (i + j)))
    (hlength : length ≤ i + 2 * k) (hmore : i + 2 * k ≤ length + 1) (hcounter : i + 2 * k < 2 ^ 16)
    (hsum : checksum + wordsFrom bytes i k < 2 ^ 32) :
    addWords data length (k + 1) i checksum = some (checksum + wordsFrom bytes i k) := by
  induction k generalizing i checksum with
  | zero =>
    rw [addWords, if_neg (by omega), wordsFrom, Nat.add_zero]
  | succ k ih =>
    rw [wordsFrom] at hsum ⊢
    have hlow : data i = some (bytes i) := hread 0 (by omega)
    have hhigh : data (i + 1) = some (bytes (i + 1)) := hread 1 (by omega)
    rw [addWords, if_pos (by omega), hlow, hhigh, Option.bind_some, Option.bind_some,
      Nat.mod_eq_of_lt (by omega), Nat.mod_eq_of_lt (by omega)]
    rw [ih ?_ (by omega) (by omega) (by omega) (by omega)]
    · rw [Nat.add_assoc]
    · intro j hj
      have hj' := hread (j + 2) (by omega)
      rwa [show i + 2 + j = i + (j + 2) by omega]

lemma addWords_succ {total : ℕ} (h : addWords data length fuel i checksum = some total) :
    addWords data length (fuel + 1) i checksum = some total := by
  induction fuel generalizing i checksum with
  | zero => cases h
  | succ fuel ih =>
    rw [addWords] at h ⊢
    split_ifs at h ⊢ with hi
    · rw [Option.bind_eq_some_iff] at h ⊢
      obtain ⟨low, hlow, h⟩ := h
      rw [Option.bind_eq_some_iff] at h
      obtain ⟨high, hhigh, h⟩ := h
      exact ⟨low, hlow, by rw [hhigh]; exact ih h⟩
    · exact h

lemma addWords_mono {total : ℕ} (more : ℕ)
    (h : addWords data length fuel i checksum = some total) :
    addWords data length (fuel + more) i checksum = some total := by
  induction more with
  | zero => exact h
  | succ more ih => exact addWords_succ ih

lemma addWords_unique {total total' fuel' : ℕ}
    (h : addWords data length fuel i checksum = some total)
    (h' : addWords data length fuel' i checksum = some total') : total = total' := by
  have hleft := addWords_mono fuel' h
  have hright := addWords_mono fuel h'
  rw [Nat.add_comm] at hright
  exact Option.some.inj (hleft.symm.trans hright)

lemma addChecksum_mono {out : ℕ} (more : ℕ)
    (h : addChecksum data length checksum fuel = some out) :
    addChecksum data length checksum (fuel + more) = some out := by
  rw [addChecksum, Option.map_eq_some_iff] at h ⊢
  obtain ⟨total, htotal, hout⟩ := h
  exact ⟨total, addWords_mono more htotal, hout⟩

/-- **An odd length**: the loop has no result when there is no byte behind the last one. -/
lemma addWords_odd (hodd : length % 2 = 1) (hlength : length < 2 ^ 16)
    (hbehind : data length = none) (hi : i % 2 = 0) (hlt : i < length) :
    addWords data length fuel i checksum = none := by
  induction fuel generalizing i checksum with
  | zero => rfl
  | succ fuel ih =>
    rw [addWords, if_pos hlt, Option.bind_eq_none_iff]
    intro low _
    rw [Option.bind_eq_none_iff]
    intro high hhigh
    by_cases hlast : i + 1 = length
    · rw [hlast, hbehind] at hhigh
      cases hhigh
    · rw [Nat.mod_eq_of_lt (show i + 2 < 2 ^ 16 by omega)]
      exact ih (by omega) (by omega)

/-- **The largest length**: the counter wraps, and the loop never ends. -/
theorem addWords_wrap (hi : i < 2 ^ 16 - 1) (heven : i % 2 = 0) :
    addWords data (2 ^ 16 - 1) fuel i checksum = none := by
  induction fuel generalizing i checksum with
  | zero => rfl
  | succ fuel ih =>
    rw [addWords, if_pos hi, Option.bind_eq_none_iff]
    intro low _
    rw [Option.bind_eq_none_iff]
    intro high _
    exact ih (by omega) (by omega)

lemma wordsFrom_list : ∀ (data front : List UInt8) (k : ℕ), data.length = 2 * k →
    wordsFrom (fun i => (front ++ data).getD i 0) front.length k = totalLittle data
  | [], _, k, h => by
    obtain rfl : k = 0 := by simpa using h
    rfl
  | [_], _, k, h => by
    simp only [List.length_singleton] at h
    omega
  | a :: b :: rest, front, k, h => by
    simp only [List.length_cons] at h
    obtain ⟨k, rfl⟩ : ∃ k', k = k' + 1 := ⟨k - 1, by omega⟩
    have ih := wordsFrom_list rest (front ++ [a, b]) k (by omega)
    rw [List.append_assoc, List.length_append] at ih
    rw [wordsFrom, totalLittle, ← ih]
    simp

end

/-! ### The sum -/

/-- The three functions end, read only the given bytes and compute the ones' complement sum. Memory
holds the low byte of a word first, so the words are the ones of the network swapped. -/
structure Correct (data : List UInt8) : Prop where
  calculate : ∃ fuel, calculateChecksum (ofList data) data.length fuel =
    some (swap (65535 - sum data))
  update : ∀ out < 2 ^ 16, ∃ fuel, updateChecksum (ofList data) data.length out fuel =
    some (swap (65535 - add (65535 - swap out) (sum data)))
  verify : ∀ checksum < 2 ^ 16, ∃ fuel, verifyChecksum (ofList data) data.length checksum fuel =
    some (swap (add (swap checksum) (sum data)))

variable {data : List UInt8} {checksum : ℕ}

lemma addWords_list (heven : data.length % 2 = 0) (hlength : data.length < 2 ^ 16)
    (hchecksum : checksum < 2 ^ 16) :
    addWords (ofList data) data.length (data.length / 2 + 1) 0 checksum =
      some (checksum + totalLittle data) := by
  have hwords := wordsFrom_list data [] (data.length / 2) (by omega)
  have hle := wordsFrom_le (fun i => data.getD i 0) 0 (data.length / 2)
  rw [List.nil_append, List.length_nil] at hwords
  have hread : ∀ j < 2 * (data.length / 2), ofList data (0 + j) = some (data.getD (0 + j) 0) := by
    intro j hj
    rw [Nat.zero_add, ofList, List.getD_eq_getElem?_getD, List.getElem?_eq_getElem (by omega)]
    rfl
  rw [@addWords_eq _ (fun i => data.getD i 0) _ _ _ _ hread (by omega) (by omega) (by omega)
    (by omega), hwords]

lemma addWords_list_fold (heven : data.length % 2 = 0) (hlength : data.length < 2 ^ 16)
    (hchecksum : checksum < 2 ^ 16) :
    (addWords (ofList data) data.length (data.length / 2 + 1) 0 checksum).map fold =
      some (swap (add (swap checksum) (sum data))) := by
  have hle := totalLittle_le data
  rw [addWords_list heven hlength hchecksum, Option.map_some, fold_eq (by omega),
    reduce_add_totalLittle (by omega)]

lemma correct_of_even (heven : data.length % 2 = 0) (hlength : data.length < 2 ^ 16) :
    Correct data := by
  have hsum : sum data ≤ 65535 := by
    rw [sum_eq_reduce]
    exact reduce_le _
  have hadd : ∀ x ≤ 65535, add x (sum data) ≤ 65535 := by
    intro x hx
    rw [add_eq_reduce hx hsum]
    exact reduce_le _
  have hcompl : ∀ checksum < 2 ^ 16,
      addChecksum (ofList data) data.length checksum (data.length / 2 + 1) =
        some (swap (65535 - add (swap checksum) (sum data))) := by
    intro checksum hchecksum
    have hfold := addWords_list_fold heven hlength hchecksum
    rw [Option.map_eq_some_iff] at hfold
    obtain ⟨total, htotal, hfold⟩ := hfold
    rw [addChecksum, htotal, Option.map_some, hfold,
      swap_compl (hadd _ (swap_le (by omega)))]
    rfl
  refine ⟨⟨data.length / 2 + 1, ?_⟩, fun out hout => ⟨data.length / 2 + 1, ?_⟩,
    fun checksum hchecksum => ⟨data.length / 2 + 1, ?_⟩⟩
  · have hzero : add (swap 0) (sum data) = sum data := by
      rw [add_eq_reduce (by decide) hsum, show swap 0 = 0 from rfl, Nat.zero_add,
        reduce_of_le hsum]
    rw [calculateChecksum, hcompl 0 (by decide), hzero]
  · rw [updateChecksum, hcompl _ (by omega), show 2 ^ 16 - 1 - out = 65535 - out from rfl,
      swap_compl (x := out) (by omega)]
  · exact addWords_list_fold heven hlength hchecksum

lemma not_correct_of_odd (hodd : data.length % 2 = 1) (hlength : data.length < 2 ^ 16) :
    ¬Correct data := by
  intro h
  obtain ⟨fuel, hfuel⟩ := h.calculate
  have hbehind : ofList data data.length = none := List.getElem?_eq_none le_rfl
  rw [calculateChecksum, addChecksum, addWords_odd hodd hlength hbehind rfl (by omega)] at hfuel
  cases hfuel

/-- **The checksums** are right exactly for an even length. -/
lemma correct_iff (hlength : data.length < 2 ^ 16) : Correct data ↔ data.length % 2 = 0 := by
  constructor
  · intro h
    by_contra hodd
    exact not_correct_of_odd (by omega) hlength h
  · intro heven
    exact correct_of_even heven hlength

end KernelModel.Checksum
