import KernelModel.Amm
import Mathlib.Data.List.DropRight

/-!
Tags of configurations, and the strings in them.

A tag is a tree: an array has its tags in order, and the parent of a tag is the array it is in.
Memory that is read from a pointer on is the list of the bytes up to the end of what was given;
a read past them is a fault. Counters of 32 bits wrap, so that a loop over 2^32 bytes or more
does not end.
-/

namespace KernelModel.Config

/-- The code of a character. -/
def byte (c : Char) : UInt8 := UInt8.ofNat c.toNat

/-- A tag, with the bytes of its name. -/
inductive Tag
  /-- `CONFIG_TAG_TYPE_NONE` -/
  | none (name : List UInt8)
  /-- `CONFIG_TAG_TYPE_ARRAY` -/
  | array (name : List UInt8) (data : List Tag)
  /-- `CONFIG_TAG_TYPE_STRING` -/
  | string (name string : List UInt8)
  /-- `CONFIG_TAG_TYPE_INT` -/
  | int (name : List UInt8) (value : BitVec 64)
  deriving Repr

/-- What a loop or a function ends with. -/
inductive Ends (α : Type)
  | ok (result : α)
  /-- It reads past the bytes that were given, or writes past those that were allocated. -/
  | fault
  /-- It does not end. -/
  | spin
  /-- The allocator panics. -/
  | panic
  deriving DecidableEq, Repr

/-- A loop that counts to `n` with a counter of 32 bits. -/
def counted (n : ℕ) : Ends ℕ := if n < 2 ^ 32 then .ok n else .spin

/-- `smm_length` -/
def smmLength (data : List UInt8) : Ends ℕ :=
  let n := (data.takeWhile (· ≠ 0)).length
  if 2 ^ 32 ≤ n then .spin
  else if n = data.length then .fault
  else .ok n

/-- The part of `smm_alloc` behind the length; the size that is allocated is cut to 32 bits. -/
def smmCreate (data : List UInt8) (n : ℕ) : Ends (List UInt8) :=
  if ¬Amm.Fits ((9 + n) % 2 ^ 32) then .panic
  else if 2 ^ 32 ≤ 9 + n then .fault
  else .ok (data.take n)

/-- `smm_alloc`: the bytes of the string. -/
def smmAlloc (data : List UInt8) (length : ℕ) : Ends (List UInt8) :=
  match if length = 0 then smmLength data else .ok length with
  | .ok n => smmCreate data n
  | .fault => .fault
  | .spin => .spin
  | .panic => .panic

/-! ### The length of a string -/

lemma head_dropWhile {p : UInt8 → Bool} {v rest : List UInt8} {c : UInt8}
    (h : v.dropWhile p = c :: rest) : p c = false := by
  have := List.head?_dropWhile_not p v
  rw [h] at this
  simpa using this

lemma smmLength_isOk (v : List UInt8) :
    (∃ n < 2 ^ 32, smmLength v = .ok n ∧ ∀ k, 0 ∈ v.take k ↔ n < k) ∨
    0 ∉ v.take (2 ^ 32) ∧ (smmLength v = .fault ∨ smmLength v = .spin) := by
  have hsplit : v = v.takeWhile (· ≠ 0) ++ v.dropWhile (· ≠ 0) :=
    List.takeWhile_append_dropWhile.symm
  have hnz : 0 ∉ v.takeWhile (· ≠ 0) := by
    intro h
    simpa using List.mem_takeWhile_imp h
  unfold smmLength
  dsimp only
  by_cases hlong : 2 ^ 32 ≤ (v.takeWhile (· ≠ 0)).length
  · refine .inr ⟨fun h => hnz ?_, .inr (if_pos hlong)⟩
    rw [hsplit, List.take_append_of_le_length hlong] at h
    exact List.mem_of_mem_take h
  · rw [if_neg hlong]
    cases hdrop : v.dropWhile (· ≠ 0) with
    | nil =>
      rw [hdrop, List.append_nil] at hsplit
      refine .inr ⟨fun h => hnz (hsplit ▸ List.mem_of_mem_take h), .inl (if_pos ?_)⟩
      rw [← hsplit]
    | cons d rest =>
      have hd : d = 0 := by simpa using head_dropWhile hdrop
      rw [hdrop, hd] at hsplit
      have hlen : (v.takeWhile (· ≠ 0)).length ≠ v.length := by
        intro h
        have := congrArg List.length hsplit
        rw [List.length_append, List.length_cons] at this
        omega
      refine .inl ⟨_, Nat.lt_of_not_le hlong, if_neg hlen, fun k => ⟨fun h => ?_, fun h => ?_⟩⟩
      · by_contra hle
        rw [hsplit, List.take_append_of_le_length (Nat.le_of_not_lt hle)] at h
        exact hnz (List.mem_of_mem_take h)
      · rw [hsplit, List.take_append, List.take_cons (by omega)]
        simp

/-! ### Strings that are allocated -/

/-- The longest string that there is memory for. -/
def stringMaxLength : ℕ := 2 ^ 27 - 17

/-- There is memory for a string of this length, which is known or found in the data. -/
def Terminated (data : List UInt8) (length : ℕ) : Prop :=
  length ≤ stringMaxLength ∧ (length = 0 → 0 ∈ data.take (stringMaxLength + 1))

instance (data : List UInt8) (length : ℕ) : Decidable (Terminated data length) :=
  inferInstanceAs (Decidable (_ ∧ _))

/-- The size of a string of this length, which is known or found in the data, is not cut. -/
def Bounded (data : List UInt8) (length : ℕ) : Prop :=
  length < 2 ^ 32 - 9 ∧ (length = 0 → 0 ∈ data.take (2 ^ 32 - 9))

section

variable {data : List UInt8} {n length : ℕ}

lemma smmCreate_ok (h : n ≤ stringMaxLength) : smmCreate data n = .ok (data.take n) := by
  have hmax : stringMaxLength = 2 ^ 27 - 17 := rfl
  have hfits : Amm.Fits ((9 + n) % 2 ^ 32) := by
    rw [Amm.Fits, Amm.headerSize]
    omega
  rw [smmCreate, if_neg (not_not_intro hfits), if_neg (by omega)]

lemma smmCreate_panic (h : stringMaxLength < n) (hn : n < 2 ^ 32 - 9) :
    smmCreate data n = .panic := by
  have hmax : stringMaxLength = 2 ^ 27 - 17 := rfl
  rw [smmCreate, if_pos]
  rw [Amm.Fits, Amm.headerSize]
  omega

lemma smmCreate_fault (h : 2 ^ 32 - 9 ≤ n) (hn : n < 2 ^ 32) : smmCreate data n = .fault := by
  have hfits : Amm.Fits ((9 + n) % 2 ^ 32) := by
    rw [Amm.Fits, Amm.headerSize]
    omega
  rw [smmCreate, if_neg (not_not_intro hfits), if_pos (by omega)]

lemma smmAlloc_known (h : length ≠ 0) : smmAlloc data length = smmCreate data length := by
  rw [smmAlloc, if_neg h]

/-- A string is allocated if its length is known or the end of it is found, and there is memory for
it; and if its size is not cut, the allocator panics otherwise. -/
lemma smmAlloc_cases (data : List UInt8) (hlength : length < 2 ^ 32) :
    Terminated data length ∧ Bounded data length ∧
      (∃ n, smmAlloc data length = .ok (data.take n) ∧ (length ≠ 0 → n = length)) ∨
    ¬Terminated data length ∧ (Bounded data length ∧ smmAlloc data length = .panic ∨
      ¬Bounded data length ∧ (smmAlloc data length = .fault ∨ smmAlloc data length = .spin)) := by
  have hmax : stringMaxLength = 2 ^ 27 - 17 := rfl
  by_cases hzero : length = 0
  · subst hzero
    have hterm : Terminated data 0 ↔ 0 ∈ data.take (stringMaxLength + 1) := by simp [Terminated]
    have hbounded : Bounded data 0 ↔ 0 ∈ data.take (2 ^ 32 - 9) := by simp [Bounded]
    rw [hterm, hbounded]
    rcases smmLength_isOk data with ⟨n, hn, hsmm, hmem⟩ | ⟨hmem, hsmm⟩
    · have halloc : smmAlloc data 0 = smmCreate data n := by
        rw [smmAlloc, if_pos rfl, hsmm]
      rw [hmem, hmem, halloc]
      rcases Nat.lt_or_ge n (stringMaxLength + 1) with hle | hgt
      · exact .inl ⟨hle, by omega, n, smmCreate_ok (by omega), fun h => absurd rfl h⟩
      · refine .inr ⟨Nat.not_lt_of_le hgt, ?_⟩
        rcases Nat.lt_or_ge n (2 ^ 32 - 9) with hlt | hge
        · exact .inl ⟨hlt, smmCreate_panic hgt hlt⟩
        · exact .inr ⟨Nat.not_lt_of_le hge, .inl (smmCreate_fault hge hn)⟩
    · have hshort {k : ℕ} (hk : k ≤ 2 ^ 32) : 0 ∉ data.take k := fun h =>
        hmem ((List.take_prefix_take_left hk).subset h)
      refine .inr ⟨hshort (by omega), .inr ⟨hshort (by omega), ?_⟩⟩
      rw [smmAlloc, if_pos rfl]
      rcases hsmm with hsmm | hsmm
      · rw [hsmm]
        exact .inl rfl
      · rw [hsmm]
        exact .inr rfl
  · have hterm : Terminated data length ↔ length ≤ stringMaxLength := by simp [Terminated, hzero]
    have hbounded : Bounded data length ↔ length < 2 ^ 32 - 9 := by simp [Bounded, hzero]
    rw [hterm, hbounded, smmAlloc_known hzero]
    rcases Nat.lt_or_ge stringMaxLength length with hgt | hle
    · refine .inr ⟨Nat.not_le_of_lt hgt, ?_⟩
      rcases Nat.lt_or_ge length (2 ^ 32 - 9) with hlt | hge
      · exact .inl ⟨hlt, smmCreate_panic hgt hlt⟩
      · exact .inr ⟨Nat.not_lt_of_le hge, .inl (smmCreate_fault hge hlength)⟩
    · exact .inl ⟨hle, by omega, length, smmCreate_ok hle, fun _ => rfl⟩

end

end KernelModel.Config
