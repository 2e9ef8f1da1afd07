import KernelModel.InterfaceAllocator
import KernelModel.Runs

/-!
The allocator of interface slots over whole runs, as a set of used slots.

Here a call keeps what it leaves behind when it fails, numbers wrap around where those of the
code do, and every access to the bitmap is checked. A place that is searched for is a multiple
of the alignment.
-/

namespace KernelModel.Glsl.Slots

open Allocator Runs

/-- No result: an access outside of the bitmap, or a search without an end. -/
inductive Fault
  | outside
  | endless
  deriving DecidableEq, Repr

/-- `_glsl_interface_allocator_init`, where the words that are cleared are inside. -/
def init (heap : ℕ → BitVec 32) (size : BitVec 32) : Except Fault Allocator :=
  let words := ((size.toNat + 32 + 31) % 2 ^ 32) >>> 5
  if size.toNat >>> 5 < words then
    .ok ⟨fun i => if i ≤ size.toNat >>> 5 then 0 else heap i, words, size.toNat⟩
  else .error .outside

/-- A range that is asked for, from a given slot on or anywhere. -/
structure Request where
  offset : BitVec 32
  size : ℕ
  align : ℕ
  size_pos : 1 ≤ size
  size_le : size ≤ 16
  align_pos : 1 ≤ align
  align_lt : align < 2 ^ 32

/-- The loop over `n` bits of a given range: whether all of them were free. -/
def takeBits (a : Allocator) (i : ℕ) : ℕ → Except Fault (Bool × Allocator)
  | 0 => .ok (true, a)
  | n + 1 =>
    if i >>> 5 < a.words then
      if bit a.bitmap i then .ok (false, a)
      else takeBits { a with bitmap := setBit a.bitmap i } (i + 1) n
    else .error .outside

/-- The loop over the places, from `i` on; no more than `places` of them are looked at. -/
def search (a : Allocator) (size align : ℕ) : ℕ → ℕ → Except Fault (Bool × ℕ × Allocator)
  | 0, _ => .error .endless
  | places + 1, i =>
    if i ≤ (a.size + 2 ^ 32 - size) % 2 ^ 32 then
      if i >>> 5 < a.words then
        if (a.bitmap (i >>> 5)).setWidth 64 &&& shiftedMask size i = 0 then
          if (i >>> 5) + 1 < a.words then
            if (a.bitmap ((i >>> 5) + 1)).setWidth 64 &&& shiftedMask size i >>> 32 = 0 then
              .ok (true, i, { a with bitmap := setMask a.bitmap i (shiftedMask size i) })
            else search a size align places ((i + align) % 2 ^ 32)
          else .error .outside
        else search a size align places ((i + align) % 2 ^ 32)
      else .error .outside
    else .ok (false, noSlot, a)

/-- `_glsl_interface_allocator_reserve`: the result, the offset and the allocator then. A search
that looks at `2 ^ 32` places comes back to the first one, and nothing has changed. -/
def reserve (a : Allocator) (r : Request) : Except Fault (Bool × ℕ × Allocator) :=
  if r.offset.toNat ≠ noSlot then
    let i := r.offset.toNat
    if i ≥ a.size ∨ (i + r.size) % 2 ^ 32 ≥ a.size then .ok (false, i, a)
    else (takeBits a i ((i + r.size) % 2 ^ 32 - i)).map fun (free, a) => (free, i, a)
  else search a r.size r.align (2 ^ 32) 0

/-- `bitmap[i>>5]&=~(1<<(i&31))` -/
def clearBit (bitmap : ℕ → BitVec 32) (i : ℕ) : ℕ → BitVec 32 :=
  Function.update bitmap (i >>> 5) (bitmap (i >>> 5) &&& ~~~(1#32 <<< (i &&& 31)))

def clearBits (a : Allocator) (i : ℕ) : ℕ → Except Fault Allocator
  | 0 => .ok a
  | n + 1 =>
    if i >>> 5 < a.words then clearBits { a with bitmap := clearBit a.bitmap i } (i + 1) n
    else .error .outside

/-- `_glsl_interface_allocator_release` -/
def release (a : Allocator) (offset size : ℕ) : Except Fault Allocator :=
  clearBits a offset ((offset + size) % 2 ^ 32 - offset)

/-! ### Runs -/

/-- The allocator, with the ranges that are reserved: where they begin and their sizes. -/
structure State where
  allocator : Allocator
  ranges : List (ℕ × ℕ)

inductive Call
  | reserve (r : Request)
  | release (range : ℕ × ℕ)

/-- A call; there is none that releases what is not reserved, and none after a fault. -/
def step (s : State) : Call → Option State
  | .reserve r =>
    match reserve s.allocator r with
    | .ok (true, i, a) => some ⟨a, (i, r.size) :: s.ranges⟩
    | .ok (false, _, a) => some { s with allocator := a }
    | .error _ => none
  | .release range =>
    if range ∈ s.ranges then
      match release s.allocator range.1 range.2 with
      | .ok a => some ⟨a, s.ranges.erase range⟩
      | .error _ => none
    else none

/-! ### The set of used slots -/

def State.used (s : State) : Set ℕ := {k | ∃ range ∈ s.ranges, range.1 ≤ k ∧ k < range.1 + range.2}

/-- A free range inside of the allocator. -/
def Fits (limit : ℕ) (used : Set ℕ) (size i : ℕ) : Prop := i + size ≤ limit ∧ Free used i size

/-- Where a request is to be put: where it says, or at the lowest aligned place that is free. -/
def Put (limit : ℕ) (used : Set ℕ) (r : Request) (i : ℕ) : Prop :=
  if r.offset.toNat ≠ noSlot then i = r.offset.toNat ∧ Fits limit used r.size i
  else IsLeast {i | r.align ∣ i ∧ Fits limit used r.size i} i

/-- The bits of a bitmap after the ones of a range have been set. -/
def Marks (bitmap bitmap' : ℕ → BitVec 32) (i size : ℕ) : Prop :=
  ∀ k, bit bitmap' k = (bit bitmap k || decide (i ≤ k ∧ k < i + size))

/-- The bits of a bitmap after the ones of a range have been cleared. -/
def Clears (bitmap bitmap' : ℕ → BitVec 32) (i size : ℕ) : Prop :=
  ∀ k, bit bitmap' k = (bit bitmap k && !decide (i ≤ k ∧ k < i + size))

/-- The bits are those of the used slots, and a call does what is to be done with the set. -/
def Correct (s : State) (c : Call) : Prop :=
  (∀ k < s.allocator.size, bit s.allocator.bitmap k = true ↔ k ∈ s.used) ∧
  match c with
  | .reserve r =>
    (∃ i bitmap, reserve s.allocator r = .ok (true, i, { s.allocator with bitmap := bitmap }) ∧
      Put s.allocator.size s.used r i ∧ Marks s.allocator.bitmap bitmap i r.size) ∨
    (reserve s.allocator r = .ok (false, r.offset.toNat, s.allocator) ∧
      ∀ i, ¬Put s.allocator.size s.used r i)
  | .release range => range ∈ s.ranges →
    ∃ bitmap, release s.allocator range.1 range.2 = .ok { s.allocator with bitmap := bitmap } ∧
      Clears s.allocator.bitmap bitmap range.1 range.2

/-- A run of calls on a new allocator is one of the set. -/
def RefinesSet (heap : ℕ → BitVec 32) (size : BitVec 32) (calls : List Call) : Prop :=
  ∃ a, init heap size = .ok a ∧ Along step Correct ⟨a, []⟩ calls

/-- The place of the search after `n` steps. -/
def place (align n : ℕ) : ℕ := n * align % 2 ^ 32

/-- A search ends, and where it should: an aligned place is free, or a place behind the last one
is reached before a free one is. -/
def Ends (limit : ℕ) (used : Set ℕ) (size align : ℕ) : Prop :=
  (∃ i, align ∣ i ∧ Fits limit used size i) ∨
  ∃ n, limit < place align n + size ∧ ∀ k < n, ¬Free used (place align k) size

/-- When a call does what it should. -/
def Allowed (s : State) : Call → Prop
  | .reserve r =>
    if r.offset.toNat ≠ noSlot then
      (r.offset.toNat + r.size = s.allocator.size → ¬Free s.used r.offset.toNat r.size) ∧
      (r.offset.toNat + r.size < s.allocator.size → ¬Free s.used r.offset.toNat r.size →
        r.offset.toNat ∈ s.used)
    else if r.size ≤ s.allocator.size then Ends s.allocator.size s.used r.size r.align
    else s.used.Nonempty ∧ s.allocator.size + 2 ^ 32 < r.align + r.size
  | .release _ => True

/-! ### Given ranges -/

section

variable {a a' : Allocator} {i j n size : ℕ}

lemma takeBits_cons (hi : i >>> 5 < a.words) : takeBits a i (n + 1) =
    if bit a.bitmap i then .ok (false, a)
    else takeBits { a with bitmap := setBit a.bitmap i } (i + 1) n := by
  rw [takeBits, if_pos hi]

lemma takeBits_keeps {free : Bool} (h : takeBits a i n = .ok (free, a'))
    (hj : bit a.bitmap j = true) : bit a'.bitmap j = true := by
  induction n generalizing a i with
  | zero =>
    cases h
    exact hj
  | succ n ih =>
    rw [takeBits] at h
    split_ifs at h with hin hbit
    · cases h
      exact hj
    · refine ih h ?_
      rw [bit_setBit, hj, Bool.true_or]

lemma takeBits_free (hin : ∀ k, i ≤ k → k < i + n → k >>> 5 < a.words)
    (hfree : ∀ k, i ≤ k → k < i + n → bit a.bitmap k = false) :
    ∃ bitmap, takeBits a i n = .ok (true, { a with bitmap := bitmap }) ∧
      Marks a.bitmap bitmap i n := by
  induction n generalizing a i with
  | zero =>
    refine ⟨a.bitmap, rfl, fun k => ?_⟩
    rw [decide_eq_false (by omega), Bool.or_false]
  | succ n ih =>
    rw [takeBits_cons (hin i le_rfl (by omega)), if_neg (by simp [hfree i le_rfl (by omega)])]
    obtain ⟨bitmap, hbits, hmarks⟩ := @ih { a with bitmap := setBit a.bitmap i } (i + 1)
      (fun k h1 h2 => hin k (by omega) (by omega)) fun k h1 h2 => by
        rw [bit_setBit, hfree k (by omega) (by omega), Bool.false_or]
        exact decide_eq_false (by omega)
    refine ⟨bitmap, hbits, fun k => ?_⟩
    rw [hmarks, bit_setBit, Bool.or_assoc, ← Bool.decide_or]
    congr 2
    exact propext (by omega)

lemma takeBits_taken (hin : ∀ k, i ≤ k → k < i + n → k >>> 5 < a.words) (hij : i ≤ j)
    (hjn : j < i + n) (hj : bit a.bitmap j = true) :
    ∃ a', takeBits a i n = .ok (false, a') ∧ (bit a.bitmap i = false → bit a'.bitmap i = true) := by
  induction n generalizing a i with
  | zero => omega
  | succ n ih =>
    rw [takeBits_cons (hin i le_rfl (by omega))]
    cases hbit : bit a.bitmap i with
    | true => exact ⟨a, by rw [if_pos rfl], fun h => absurd h (by simp)⟩
    | false =>
      have hne : j ≠ i := by
        rintro rfl
        rw [hj] at hbit
        cases hbit
      obtain ⟨a', ha', -⟩ := @ih { a with bitmap := setBit a.bitmap i } (i + 1)
        (fun k h1 h2 => hin k (by omega) (by omega)) (by omega) (by omega)
        (by rw [bit_setBit, hj, Bool.true_or])
      refine ⟨a', by rw [if_neg (by simp), ha'], fun _ => takeBits_keeps ha' ?_⟩
      rw [bit_setBit]
      simp

lemma bit_clearBit {bitmap : ℕ → BitVec 32} {s : ℕ} :
    bit (clearBit bitmap i) s = (bit bitmap s && !decide (s = i)) := by
  simp only [bit, clearBit, shift_five, and_31]
  by_cases hw : s / 32 = i / 32
  · have hs : s % 32 < 32 := Nat.mod_lt _ (by decide)
    rw [hw, Function.update_self, BitVec.getLsbD_and, BitVec.getLsbD_not, BitVec.getLsbD_shiftLeft]
    congr 1
    by_cases hsi : s = i
    · subst hsi
      simp [hs]
    · rcases Nat.lt_or_ge (s % 32) (i % 32) with hlt | hge
      · simp [hlt, hsi, hs]
      · have hpos : s % 32 - i % 32 ≠ 0 := by omega
        simp [hsi, hpos, hs]
  · rw [Function.update_of_ne hw]
    have hsi : s ≠ i := by
      rintro rfl
      exact hw rfl
    simp [hsi]

lemma clearBits_eq (hin : ∀ k, i ≤ k → k < i + n → k >>> 5 < a.words) :
    ∃ bitmap, clearBits a i n = .ok { a with bitmap := bitmap } ∧ Clears a.bitmap bitmap i n := by
  induction n generalizing a i with
  | zero =>
    refine ⟨a.bitmap, rfl, fun k => ?_⟩
    rw [decide_eq_false (by omega), Bool.not_false, Bool.and_true]
  | succ n ih =>
    obtain ⟨bitmap, hbits, hclears⟩ := @ih { a with bitmap := clearBit a.bitmap i } (i + 1)
      fun k h1 h2 => hin k (by omega) (by omega)
    refine ⟨bitmap, by rw [clearBits, if_pos (hin i le_rfl (by omega)), hbits], fun k => ?_⟩
    rw [hclears, bit_clearBit, Bool.and_assoc, ← Bool.not_or, ← Bool.decide_or]
    congr 3
    exact propext (by omega)

end

/-! ### The invariant -/

structure Sound (s : State) : Prop where
  size_lt : s.allocator.size + 63 < 2 ^ 32
  words : s.allocator.words = (s.allocator.size + 63) / 32
  bits : ∀ k < s.allocator.size, bit s.allocator.bitmap k = true ↔ k ∈ s.used
  /-- the other bits of the word with the last slot are clear -/
  spare : ∀ k, s.allocator.size ≤ k → k < 32 * (s.allocator.size / 32 + 1) →
    bit s.allocator.bitmap k = false
  inside : ∀ range ∈ s.ranges, 1 ≤ range.2 ∧ range.1 + range.2 ≤ s.allocator.size
  apart : s.ranges.Pairwise fun x y => x.1 + x.2 ≤ y.1 ∨ y.1 + y.2 ≤ x.1

variable {s : State} {r : Request} {i n : ℕ}

lemma Sound.word (h : Sound s) {k : ℕ} (hk : k < s.allocator.size) :
    k >>> 5 < s.allocator.words := by
  rw [h.words, shift_five]
  omega

lemma Sound.free_iff (h : Sound s) {size : ℕ} (hi : i + size ≤ s.allocator.size) :
    Free s.used i size ↔ ∀ k, i ≤ k → k < i + size → bit s.allocator.bitmap k = false := by
  refine forall_congr' fun k => forall_congr' fun _ => forall_congr' fun hk => ?_
  rw [← h.bits k (by omega), Bool.not_eq_true]

lemma Sound.used_lt (h : Sound s) {k : ℕ} (hk : k ∈ s.used) : k < s.allocator.size := by
  obtain ⟨range, hrange, -, hlt⟩ := hk
  exact lt_of_lt_of_le hlt (h.inside range hrange).2

lemma init_size {heap : ℕ → BitVec 32} {size : BitVec 32} {a : Allocator}
    (hinit : init heap size = .ok a) : a.size = size.toNat := by
  rw [init] at hinit
  split_ifs at hinit
  cases hinit
  rfl

lemma sound_init {heap : ℕ → BitVec 32} {size : BitVec 32} {a : Allocator}
    (hinit : init heap size = .ok a) : Sound ⟨a, []⟩ := by
  rw [init] at hinit
  have hsize := size.isLt
  split_ifs at hinit with hwords
  cases hinit
  rw [shift_five, shift_five] at hwords
  have hlt : size.toNat + 63 < 2 ^ 32 := by omega
  have hclear : ∀ k, k < 32 * (size.toNat / 32 + 1) →
      bit (fun i => if i ≤ size.toNat >>> 5 then 0 else heap i) k = false := by
    intro k hk
    rw [bit, shift_five, shift_five, if_pos (by omega)]
    exact BitVec.getLsbD_zero
  refine ⟨hlt, ?_, fun k hk => ?_, fun k _ hk => hclear k hk, fun _ h => ?_, List.Pairwise.nil⟩
  · show ((size.toNat + 32 + 31) % 2 ^ 32) >>> 5 = (size.toNat + 63) / 32
    rw [shift_five, Nat.mod_eq_of_lt (by omega)]
  · rw [hclear k (by dsimp only at hk; omega)]
    simp [State.used]
  · cases h

/-- The first step of a run goes through for the sizes that the count of words has room for. -/
lemma init_isOk (heap : ℕ → BitVec 32) {size : BitVec 32} (h : size.toNat + 63 < 2 ^ 32) :
    ∃ a, init heap size = .ok a := by
  rw [init, if_pos]
  · exact ⟨_, rfl⟩
  · rw [shift_five, shift_five, Nat.mod_eq_of_lt (by omega)]
    omega

/-! ### The search -/

lemma place_zero (align : ℕ) : place align 0 = 0 := by rw [place, Nat.zero_mul, Nat.zero_mod]

lemma place_succ (align n : ℕ) : place align (n + 1) = (place align n + align) % 2 ^ 32 := by
  rw [place, place, Nat.mod_add_mod, Nat.succ_mul]

lemma place_mod (align n : ℕ) : place align (n % 2 ^ 32) = place align n := by
  rw [place, place, Nat.mod_mul_mod]

section

variable {size align places : ℕ}

lemma Sound.bound (h : Sound s) (hsize : size ≤ s.allocator.size) :
    (s.allocator.size + 2 ^ 32 - size) % 2 ^ 32 = s.allocator.size - size := by
  have hlt := h.size_lt
  rw [show s.allocator.size + 2 ^ 32 - size = s.allocator.size - size + 2 ^ 32 by omega,
    Nat.add_mod_right]
  exact Nat.mod_eq_of_lt (by omega)

lemma search_free (h : Sound s) (hpos : 1 ≤ size) (h32 : size ≤ 32)
    (hfits : Fits s.allocator.size s.used size i) :
    ∃ bitmap, search s.allocator size align (places + 1) i =
        .ok (true, i, { s.allocator with bitmap := bitmap }) ∧
      Marks s.allocator.bitmap bitmap i size := by
  obtain ⟨hend, hfree⟩ := hfits
  obtain ⟨h1, h2⟩ := (masked_iff h32).mpr ((h.free_iff hend).mp hfree)
  have hw : (i >>> 5) + 1 < s.allocator.words := by
    rw [h.words, shift_five]
    omega
  refine ⟨_, ?_, fun k => bit_setMask h32⟩
  rw [search, if_pos (by rw [h.bound (by omega)]; omega), if_pos (by omega), if_pos h1, if_pos hw,
    if_pos h2]

lemma search_taken (h : Sound s) (hpos : 1 ≤ size) (h32 : size ≤ 32)
    (hend : i + size ≤ s.allocator.size) (hfree : ¬Free s.used i size) :
    search s.allocator size align (places + 1) i =
      search s.allocator size align places ((i + align) % 2 ^ 32) := by
  have hmask := mt (masked_iff h32).mp (mt (h.free_iff hend).mpr hfree)
  have hw : (i >>> 5) + 1 < s.allocator.words := by
    rw [h.words, shift_five]
    omega
  rw [search, if_pos (by rw [h.bound (by omega)]; omega), if_pos (by omega)]
  by_cases h1 : (s.allocator.bitmap (i >>> 5)).setWidth 64 &&& shiftedMask size i = 0
  · rw [if_pos h1, if_pos hw, if_neg fun h2 => hmask ⟨h1, h2⟩]
  · rw [if_neg h1]

lemma search_behind (h : Sound s) (hsize : size ≤ s.allocator.size)
    (hend : s.allocator.size < i + size) :
    search s.allocator size align (places + 1) i = .ok (false, noSlot, s.allocator) := by
  rw [search, if_neg (by rw [h.bound hsize]; omega)]

lemma search_skip (h : Sound s) (hpos : 1 ≤ size) (h32 : size ≤ 32)
    (htaken : ∀ k < n, place align k + size ≤ s.allocator.size ∧ ¬Free s.used (place align k) size)
    (hn : n ≤ places) :
    search s.allocator size align places 0 =
      search s.allocator size align (places - n) (place align n) := by
  induction n with
  | zero => rw [place_zero, Nat.sub_zero]
  | succ n ih =>
    obtain ⟨hend, hfree⟩ := htaken n (Nat.lt_succ_self n)
    rw [ih (fun k hk => htaken k (Nat.lt_succ_of_lt hk)) (by omega),
      show places - n = places - (n + 1) + 1 by omega, search_taken h hpos h32 hend hfree,
      place_succ]

lemma search_least (h : Sound s) (hpos : 1 ≤ size) (h32 : size ≤ 32) (halign : 1 ≤ align)
    (hi : IsLeast {i | align ∣ i ∧ Fits s.allocator.size s.used size i} i) :
    ∃ bitmap, search s.allocator size align (2 ^ 32) 0 =
        .ok (true, i, { s.allocator with bitmap := bitmap }) ∧
      Marks s.allocator.bitmap bitmap i size := by
  obtain ⟨⟨⟨n, rfl⟩, hfits⟩, hleast⟩ := hi
  have hsize := h.size_lt
  have hlimit := hfits.1
  have hplace : ∀ k ≤ n, place align k = align * k := by
    intro k hk
    have := Nat.mul_le_mul_left align hk
    rw [place, Nat.mul_comm, Nat.mod_eq_of_lt (by omega)]
  have hn : n ≤ align * n := Nat.le_mul_of_pos_left n halign
  rw [search_skip h hpos h32 (fun k hk => ?_) (show n ≤ 2 ^ 32 by omega), hplace n le_rfl,
    show 2 ^ 32 - n = 2 ^ 32 - n - 1 + 1 by omega]
  · exact search_free h hpos h32 hfits
  · have hlt : align * k < align * n := (Nat.mul_lt_mul_left halign).mpr hk
    rw [hplace k (le_of_lt hk)]
    refine ⟨by omega, fun hfree => ?_⟩
    have hle := hleast ⟨Nat.dvd_mul_right align k, by omega, hfree⟩
    omega

lemma search_none (h : Sound s) (hpos : 1 ≤ size) (h32 : size ≤ 32)
    (hsize : size ≤ s.allocator.size)
    (hn : s.allocator.size < place align n + size)
    (htaken : ∀ k < n, ¬Free s.used (place align k) size) :
    search s.allocator size align (2 ^ 32) 0 = .ok (false, noSlot, s.allocator) := by
  have hex : ∃ n, s.allocator.size < place align n + size := ⟨n, hn⟩
  have hle : Nat.find hex ≤ n := Nat.find_min' hex hn
  have hmod : Nat.find hex ≤ n % 2 ^ 32 := Nat.find_min' hex (by rwa [place_mod])
  have hlt : n % 2 ^ 32 < 2 ^ 32 := Nat.mod_lt _ (by norm_num)
  rw [search_skip h hpos h32 (fun k hk => ?_) (show Nat.find hex ≤ 2 ^ 32 by omega),
    show 2 ^ 32 - Nat.find hex = 2 ^ 32 - Nat.find hex - 1 + 1 by omega]
  · exact search_behind h hsize (Nat.find_spec hex)
  · exact ⟨Nat.le_of_not_lt (Nat.find_min hex hk), htaken k (lt_of_lt_of_le hk hle)⟩

lemma search_ended (h : Sound s) (hpos : 1 ≤ size) (h32 : size ≤ 32) {x : ℕ × Allocator}
    (hend : search s.allocator size align places (place align n) = .ok (false, x)) :
    ∃ m, n ≤ m ∧ s.allocator.size < place align m + size ∧
      ∀ k, n ≤ k → k < m → ¬Free s.used (place align k) size := by
  induction places generalizing n with
  | zero => cases hend
  | succ places ih =>
    rcases Nat.lt_or_ge s.allocator.size (place align n + size) with hlt | hge
    · exact ⟨n, le_rfl, hlt, fun k h1 h2 => absurd h2 (by omega)⟩
    · by_cases hfree : Free s.used (place align n) size
      · obtain ⟨bitmap, hok, -⟩ := @search_free s _ size align places h hpos h32 ⟨hge, hfree⟩
        rw [hok] at hend
        cases hend
      · rw [search_taken h hpos h32 hge hfree, ← place_succ] at hend
        obtain ⟨m, hm, hlast, hpassed⟩ := ih hend
        refine ⟨m, by omega, hlast, fun k h1 h2 => ?_⟩
        rcases Nat.eq_or_lt_of_le h1 with rfl | hlt
        · exact hfree
        · exact hpassed k hlt h2

lemma search_cases {a : Allocator} (hi : i ≤ (a.size + 2 ^ 32 - size) % 2 ^ 32) :
    search a size align (places + 1) i = .error .outside ∨
    (∃ x, search a size align (places + 1) i = .ok (true, x)) ∨
    (i >>> 5 < a.words ∧ search a size align (places + 1) i =
      search a size align places ((i + align) % 2 ^ 32)) := by
  rw [search, if_pos hi]
  split_ifs with h1 h2 h3 h4
  · exact .inr (.inl ⟨_, rfl⟩)
  · exact .inr (.inr ⟨h1, rfl⟩)
  · exact .inl rfl
  · exact .inr (.inr ⟨h1, rfl⟩)
  · exact .inl rfl

/-- A range larger than the allocator: the bound of the loop has wrapped around. -/
lemma Sound.bound_over (h : Sound s) (h16 : size ≤ 16) (hsize : s.allocator.size < size) :
    (s.allocator.size + 2 ^ 32 - size) % 2 ^ 32 = s.allocator.size + 2 ^ 32 - size ∧
      s.allocator.words ≤ 2 ∧ 1 ≤ s.allocator.words := by
  refine ⟨Nat.mod_eq_of_lt (by omega), ?_, ?_⟩ <;>
  · rw [h.words]
    omega

lemma search_over (h : Sound s) (h16 : size ≤ 16) (hsize : s.allocator.size < size)
    {x : ℕ × Allocator} (hi : i ≤ s.allocator.size + 2 ^ 32 - size)
    (hnext : i < 64 → i + align ≤ s.allocator.size + 2 ^ 32 - size) :
    search s.allocator size align places i ≠ .ok (false, x) := by
  obtain ⟨hbound, hwords, -⟩ := h.bound_over h16 hsize
  induction places generalizing i with
  | zero => exact fun hok => by cases hok
  | succ places ih =>
    rcases @search_cases i size align places s.allocator (hi.trans_eq hbound.symm) with
      hout | ⟨y, hy⟩ | ⟨hin, heq⟩
    · rw [hout]
      exact fun hok => by cases hok
    · rw [hy]
      exact fun hok => by cases hok
    · rw [shift_five] at hin
      have hle := hnext (by omega)
      rw [heq, Nat.mod_eq_of_lt (by omega)]
      exact ih hle fun hlt => by omega

end

/-! ### The linker's view -/

/-- The result of a call for one that does not look at what is left behind. -/
def outcome : Except Fault (Bool × ℕ × Allocator) → Except Refused (ℕ × Allocator)
  | .ok (true, i, a) => .ok (i, a)
  | .ok (false, _, _) => .error .full
  | .error _ => .error .outside

lemma takeBits_agrees {a : Allocator} (hin : ∀ k, i ≤ k → k < i + n → k >>> 5 < a.words) (j : ℕ) :
    outcome ((takeBits a i n).map fun (free, a) => (free, j, a)) =
      match setBits a.bitmap i n with
      | none => .error .full
      | some bitmap => .ok (j, { a with bitmap := bitmap }) := by
  induction n generalizing a i with
  | zero => rfl
  | succ n ih =>
    rw [takeBits_cons (hin i le_rfl (by omega)), setBits]
    split_ifs with hbit
    · rfl
    · exact @ih (i + 1) { a with bitmap := setBit a.bitmap i } fun k h1 h2 =>
        hin k (by omega) (by omega)

lemma search_agrees (h : Sound s) {size places : ℕ} (hsize : size ≤ s.allocator.size)
    (hi : i ≤ s.allocator.size - size + 1) (hplaces : s.allocator.size - size + 1 < places + i) :
    s.allocator.search size 1 i = outcome (search s.allocator size 1 places i) := by
  have hlt := h.size_lt
  have hbound := h.bound hsize
  induction places generalizing i with
  | zero => omega
  | succ places ih =>
    have hnext : i ≤ (s.allocator.size + 2 ^ 32 - size) % 2 ^ 32 →
        s.allocator.search size 1 (i + (1 : ℕ+)) =
          outcome (search s.allocator size 1 places ((i + 1) % 2 ^ 32)) := by
      intro hle
      rw [hbound] at hle
      rw [Nat.mod_eq_of_lt (by omega), PNat.one_coe]
      exact ih (by omega) (by omega)
    rw [Allocator.search, search]
    dsimp only
    by_cases h1 : i ≤ (s.allocator.size + 2 ^ 32 - size) % 2 ^ 32
    · rw [if_pos h1, if_pos h1, hnext h1]
      split_ifs <;> rfl
    · rw [if_neg h1, if_neg h1]
      rfl

/-- The linker asks for ranges that fit and for no alignment; for it the calls are the ones that
keep nothing of a failure. -/
theorem reserve_agrees (h : Sound s) (r : Request) (halign : r.align = 1)
    (hsize : r.size ≤ s.allocator.size) :
    s.allocator.reserve r.offset.toNat r.size 1 = outcome (reserve s.allocator r) := by
  have hlt := h.size_lt
  have h16 := r.size_le
  rw [Allocator.reserve, reserve]
  by_cases hslot : r.offset.toNat ≠ noSlot
  · rw [if_pos hslot, if_pos hslot]
    have hmod : r.offset.toNat < s.allocator.size →
        (r.offset.toNat + r.size) % 2 ^ 32 = r.offset.toNat + r.size :=
      fun hoff => Nat.mod_eq_of_lt (by omega)
    by_cases hend : r.offset.toNat ≥ s.allocator.size ∨ r.offset.toNat + r.size ≥ s.allocator.size
    · rw [if_pos hend, if_pos]
      · rfl
      · by_cases hoff : r.offset.toNat < s.allocator.size
        · rwa [hmod hoff]
        · exact .inl (Nat.le_of_not_lt hoff)
    · dsimp only
      rw [hmod (by omega), if_neg hend, if_neg hend, Nat.add_sub_cancel_left]
      exact (takeBits_agrees (fun k _ hk => h.word (by omega)) _).symm
  · rw [if_neg hslot, if_neg hslot, halign]
    exact search_agrees h hsize (Nat.zero_le _) (by omega)

/-! ### Calls -/

lemma reserve_given_iff (h : Sound s) (hslot : r.offset.toNat ≠ noSlot) :
    Correct s (.reserve r) ↔ Allowed s (.reserve r) := by
  have hlt := h.size_lt
  have hpos := r.size_pos
  have h16 := r.size_le
  simp only [Correct, Allowed, Put, if_pos hslot, reserve]
  refine (and_iff_right h.bits).trans ?_
  by_cases hend : r.offset.toNat ≥ s.allocator.size ∨
      (r.offset.toNat + r.size) % 2 ^ 32 ≥ s.allocator.size
  · -- refused: right unless the range ends with the last slot and is free
    have hge : s.allocator.size ≤ r.offset.toNat + r.size := by
      rcases hend with hend | hend
      · omega
      · exact hend.trans (Nat.mod_le _ _)
    simp only [if_pos hend]
    constructor
    · rintro (⟨i, bitmap, hok, -⟩ | ⟨-, hnone⟩)
      · cases hok
      · exact ⟨fun heq hfree => hnone _ ⟨rfl, le_of_eq heq, hfree⟩, fun hlast => by omega⟩
    · rintro ⟨hexact, -⟩
      refine .inr ⟨trivial, fun i => ?_⟩
      rintro ⟨rfl, hle, hfree⟩
      exact hexact (by omega) hfree
  · have hbelow : r.offset.toNat + r.size < s.allocator.size := by
      rw [Nat.mod_eq_of_lt (by omega)] at hend
      omega
    have hin : ∀ k, r.offset.toNat ≤ k → k < r.offset.toNat + r.size →
        k >>> 5 < s.allocator.words :=
      fun k _ hk => h.word (by omega)
    rw [if_neg hend, Nat.mod_eq_of_lt (by omega), Nat.add_sub_cancel_left]
    by_cases hfree : Free s.used r.offset.toNat r.size
    · obtain ⟨bitmap, hbits, hmarks⟩ :=
        takeBits_free hin ((h.free_iff (le_of_lt hbelow)).mp hfree)
      rw [hbits]
      refine iff_of_true (.inl ⟨_, bitmap, rfl, ⟨rfl, le_of_lt hbelow, hfree⟩, hmarks⟩)
        ⟨fun heq => by omega, fun _ hnot => absurd hfree hnot⟩
    · -- the range is not free, and is marked up to the first slot that is used
      obtain ⟨j, hij, hj, hbit⟩ : ∃ j, r.offset.toNat ≤ j ∧ j < r.offset.toNat + r.size ∧
          bit s.allocator.bitmap j = true := by
        by_contra hno
        push Not at hno
        exact hfree ((h.free_iff (le_of_lt hbelow)).mpr fun k h1 h2 =>
          Bool.eq_false_iff.mpr (hno k h1 h2))
      obtain ⟨a', ha', hmarked⟩ := takeBits_taken hin hij hj hbit
      have hfirst := h.bits r.offset.toNat (by omega)
      rw [ha']
      constructor
      · rintro (⟨i, bitmap, hok, -⟩ | ⟨hok, -⟩)
        · cases hok
        · cases hok
          refine ⟨fun heq => by omega, fun _ _ => hfirst.mp ?_⟩
          cases hclear : bit s.allocator.bitmap r.offset.toNat with
          | true => rfl
          | false => exact hclear ▸ hmarked hclear
      · rintro ⟨-, hused⟩
        have htaken := hfirst.mpr (hused hbelow hfree)
        obtain ⟨m, hm⟩ : ∃ m, r.size = m + 1 := ⟨r.size - 1, by omega⟩
        rw [hm, takeBits_cons (hin _ le_rfl (by omega)), if_pos htaken] at ha'
        cases ha'
        refine .inr ⟨rfl, fun i => ?_⟩
        rintro ⟨rfl, -, hf⟩
        exact hfree hf

lemma reserve_any_iff (h : Sound s) (hslot : ¬r.offset.toNat ≠ noSlot) :
    Correct s (.reserve r) ↔ Allowed s (.reserve r) := by
  have hpos := r.size_pos
  have h16 := r.size_le
  simp only [Correct, Allowed, Put, if_neg hslot, reserve]
  refine (and_iff_right h.bits).trans ?_
  rw [not_not.mp hslot]
  by_cases hsize : r.size ≤ s.allocator.size
  · rw [if_pos hsize]
    by_cases hfits : ∃ i, r.align ∣ i ∧ Fits s.allocator.size s.used r.size i
    · obtain ⟨i, hi⟩ :
          ∃ i, IsLeast {i | r.align ∣ i ∧ Fits s.allocator.size s.used r.size i} i := by
        classical
        exact ⟨Nat.find hfits, Nat.find_spec hfits, fun j hj => Nat.find_min' hfits hj⟩
      obtain ⟨bitmap, hok, hmarks⟩ := search_least h hpos (by omega) r.align_pos hi
      exact iff_of_true (.inl ⟨i, bitmap, hok, hi, hmarks⟩) (.inl hfits)
    · have hnone : ∀ i, ¬IsLeast {i | r.align ∣ i ∧ Fits s.allocator.size s.used r.size i} i :=
        fun i hi => hfits ⟨i, hi.1⟩
      constructor
      · rintro (⟨i, -, -, hi, -⟩ | ⟨hok, -⟩)
        · exact absurd hi (hnone i)
        · rw [← place_zero r.align] at hok
          obtain ⟨m, -, hlast, hpassed⟩ := search_ended h hpos (by omega) hok
          exact .inr ⟨m, hlast, fun k hk => hpassed k (Nat.zero_le k) hk⟩
      · rintro (hex | ⟨n, hn, htaken⟩)
        · exact absurd hex hfits
        · exact .inr ⟨search_none h hpos (by omega) hsize hn htaken, hnone⟩
  · have hover : s.allocator.size < r.size := Nat.lt_of_not_le hsize
    have hnone : ∀ i, ¬IsLeast {i | r.align ∣ i ∧ Fits s.allocator.size s.used r.size i} i := by
      intro i hi
      have := hi.1.2.1
      omega
    obtain ⟨hbound, hwords, hword⟩ := h.bound_over h16 hover
    have hmask := @masked_iff s.allocator.bitmap 0 r.size (by omega)
    obtain ⟨places, hplaces⟩ : ∃ places, 2 ^ 32 = places + 1 + 1 := ⟨2 ^ 32 - 2, by norm_num⟩
    have hfirst : search s.allocator r.size r.align (2 ^ 32) 0 =
        search s.allocator r.size r.align (places + 1 + 1) 0 := by rw [hplaces]
    rw [if_neg hsize, hfirst]
    constructor
    · rintro (⟨i, -, -, hi, -⟩ | ⟨hok, -⟩)
      · exact absurd hi (hnone i)
      · have halign : s.allocator.size + 2 ^ 32 < r.align + r.size := by
          by_contra hle
          exact search_over h h16 hover (Nat.zero_le _) (fun _ => by omega) hok
        refine ⟨Set.nonempty_iff_ne_empty.mpr fun hempty => ?_, halign⟩
        -- without used slots the first place looks free
        obtain ⟨h1, h2⟩ := hmask.mpr fun k _ hk => by
          rcases Nat.lt_or_ge k s.allocator.size with hlt | hge
          · rw [← Bool.not_eq_true, h.bits k hlt, hempty]
            exact Set.notMem_empty k
          · exact h.spare k hge (by omega)
        rw [search, if_pos (Nat.zero_le _), if_pos (by omega), if_pos h1] at hok
        split_ifs at hok
        cases hok
    · rintro ⟨⟨k, hk⟩, halign⟩
      have hlt := h.used_lt hk
      have hbit := (h.bits k hlt).mpr hk
      have hw : s.allocator.words = 2 := by
        rw [h.words] at hwords ⊢
        omega
      have hnot := mt hmask.mp fun hall => by
        have := hall k (Nat.zero_le k) (by omega)
        rw [hbit] at this
        cases this
      have hnext : search s.allocator r.size r.align (places + 1) ((0 + r.align) % 2 ^ 32) =
          .ok (false, noSlot, s.allocator) := by
        have hlt32 := r.align_lt
        rw [Nat.zero_add, Nat.mod_eq_of_lt hlt32, search, if_neg (by rw [hbound]; omega)]
      refine .inr ⟨?_, hnone⟩
      rw [search, if_pos (Nat.zero_le _), if_pos (by rw [hw]; decide)]
      by_cases h1 : (s.allocator.bitmap (0 >>> 5)).setWidth 64 &&& shiftedMask r.size 0 = 0
      · rw [if_pos h1, if_pos (by rw [hw]; decide), if_neg fun h2 => hnot ⟨h1, h2⟩, hnext]
      · rw [if_neg h1, hnext]

/-- **A call** does what it should just when it is allowed. -/
lemma correct_iff (h : Sound s) (c : Call) : Correct s c ↔ Allowed s c := by
  cases c with
  | reserve r =>
    by_cases hslot : r.offset.toNat ≠ noSlot
    · exact reserve_given_iff h hslot
    · exact reserve_any_iff h hslot
  | release range =>
    refine iff_of_true ⟨h.bits, fun hrange => ?_⟩ trivial
    have hlt := h.size_lt
    have hle := (h.inside range hrange).2
    rw [release, Nat.mod_eq_of_lt (by omega), Nat.add_sub_cancel_left]
    exact clearBits_eq fun k _ hk => h.word (by omega)

lemma Sound.take (h : Sound s) {size : ℕ} (hpos : 1 ≤ size) {bitmap : ℕ → BitVec 32}
    (hfits : Fits s.allocator.size s.used size i)
    (hmarks : Marks s.allocator.bitmap bitmap i size) :
    Sound ⟨{ s.allocator with bitmap := bitmap }, (i, size) :: s.ranges⟩ where
  size_lt := h.size_lt
  words := h.words
  bits k hk := by
    rw [hmarks k, Bool.or_eq_true, h.bits k hk, decide_eq_true_eq, or_comm]
    simp only [State.used, Set.mem_ofPred_eq, List.exists_mem_cons_iff]
  spare k hk hlt := by
    have hle := hfits.1
    change s.allocator.size ≤ k at hk
    rw [hmarks k, h.spare k hk hlt, Bool.false_or]
    exact decide_eq_false (by omega)
  inside range hrange := by
    rcases List.mem_cons.mp hrange with rfl | hrange
    · exact ⟨hpos, hfits.1⟩
    · exact h.inside range hrange
  apart := by
    refine List.pairwise_cons.mpr ⟨fun range hrange => ?_, h.apart⟩
    have hinside := (h.inside range hrange).1
    by_contra hcross
    push Not at hcross
    obtain ⟨h1, h2⟩ := hcross
    dsimp only at h1 h2
    -- the larger one of the two beginnings is in both ranges
    exact hfits.2 (max i range.1) (le_max_left _ _) (by omega)
      ⟨range, hrange, le_max_right _ _, by omega⟩

lemma Sound.erase (h : Sound s) {range : ℕ × ℕ} (hrange : range ∈ s.ranges)
    {bitmap : ℕ → BitVec 32} (hclears : Clears s.allocator.bitmap bitmap range.1 range.2) :
    Sound ⟨{ s.allocator with bitmap := bitmap }, s.ranges.erase range⟩ where
  size_lt := h.size_lt
  words := h.words
  bits k hk := by
    have hperm := List.perm_cons_erase hrange
    have hapart := (List.pairwise_cons.mp ((hperm.pairwise_iff fun h => Or.symm h).mp h.apart)).1
    rw [hclears k, Bool.and_eq_true, h.bits k hk, Bool.not_eq_true', decide_eq_false_iff_not]
    constructor
    · rintro ⟨⟨x, hx, hin⟩, hout⟩
      rcases List.mem_cons.mp (hperm.mem_iff.mp hx) with rfl | hx
      · exact absurd hin hout
      · exact ⟨x, hx, hin⟩
    · rintro ⟨x, hx, hin⟩
      refine ⟨⟨x, List.mem_of_mem_erase hx, hin⟩, fun hout => ?_⟩
      have := hapart x hx
      omega
  spare k hk hlt := by rw [hclears k, h.spare k hk hlt, Bool.false_and]
  inside x hx := h.inside x (List.mem_of_mem_erase hx)
  apart := h.apart.sublist List.erase_sublist

lemma Put.fits (h : Put s.allocator.size s.used r i) : Fits s.allocator.size s.used r.size i := by
  unfold Put at h
  split_ifs at h with hslot
  · exact h.2
  · exact h.1.2

lemma step_sound {t : State} {c : Call} (h : Sound s) (hc : Correct s c)
    (hstep : step s c = some t) : Sound t := by
  obtain ⟨-, hc⟩ := hc
  cases c with
  | reserve r =>
    dsimp only at hc
    rcases hc with ⟨i, bitmap, hok, hput, hmarks⟩ | ⟨hok, -⟩
    · simp only [step, hok] at hstep
      cases hstep
      exact h.take r.size_pos hput.fits hmarks
    · simp only [step, hok] at hstep
      cases hstep
      exact h
  | release range =>
    rw [step] at hstep
    split_ifs at hstep with hrange
    obtain ⟨bitmap, hok, hclears⟩ := hc hrange
    rw [hok] at hstep
    cases hstep
    exact h.erase hrange hclears

/-- **A run** on a new allocator is one of the set just when the count of words does not wrap
around and every call is allowed. -/
theorem refinesSet_iff (heap : ℕ → BitVec 32) (size : BitVec 32) (calls : List Call) :
    RefinesSet heap size calls ↔ size.toNat + 63 < 2 ^ 32 ∧
      ∀ a, init heap size = .ok a → Along step Allowed ⟨a, []⟩ calls := by
  have hallowed : ∀ s c t, Sound s → Allowed s c → step s c = some t → Sound t :=
    fun s c t h hc ht => step_sound h ((correct_iff h c).mpr hc) ht
  constructor
  · rintro ⟨a, ha, hrun⟩
    refine ⟨init_size ha ▸ (sound_init ha).size_lt, fun a' ha' => ?_⟩
    cases ha.symm.trans ha'
    exact along_of_inv (fun s c t => step_sound) (fun s c h => (correct_iff h c).mp) calls _
      (sound_init ha) hrun
  · rintro ⟨hlt, hrun⟩
    obtain ⟨a, ha⟩ := init_isOk heap hlt
    exact ⟨a, ha, along_of_inv hallowed (fun s c h => (correct_iff h c).mpr) calls _
      (sound_init ha) (hrun a ha)⟩

/-- One slot, given, of an allocator with one slot: the range ends with the last slot. -/
def lastSlot : Request := ⟨0, 1, 1, by decide, by decide, by decide, by decide⟩

theorem lastSlot_not_refinesSet : ¬RefinesSet (fun _ => 0) 1 [.reserve lastSlot] := by
  rintro ⟨a, ha, hcorrect, -⟩
  have hallowed := (correct_iff (sound_init ha) _).mp hcorrect
  refine hallowed.1 (init_size ha).symm fun k _ _ hk => ?_
  obtain ⟨range, hrange, -⟩ := hk
  cases hrange

end KernelModel.Glsl.Slots
