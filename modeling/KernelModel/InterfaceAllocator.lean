import Mathlib.Tactic

/-!
The slots of a shader's interface, one bit each.

The bitmap has one word more than the slots need. Only the words up to the last slot are cleared
at first; the others hold what was on the heap. A request for slots anywhere looks at two words
at a time and takes the first place that is free.
-/

namespace KernelModel.Glsl

/-- The offset of a variable that has no slot yet. -/
def noSlot : ℕ := 0xffffffff

/-- `glsl_interface_allocator_t`, with the number of words of the bitmap. -/
structure Allocator where
  bitmap : ℕ → BitVec 32
  words : ℕ
  size : ℕ

namespace Allocator

/-- `_glsl_interface_allocator_init` -/
def init (heap : ℕ → BitVec 32) (size : ℕ) : Allocator where
  bitmap := fun i => if i ≤ size >>> 5 then 0 else heap i
  words := (size + 32 + 31) >>> 5
  size := size

/-- `bitmap[i>>5]&(1<<(i&31))` -/
def bit (bitmap : ℕ → BitVec 32) (i : ℕ) : Bool := (bitmap (i >>> 5)).getLsbD (i &&& 31)

/-- `bitmap[i>>5]|=1<<(i&31)` -/
def setBit (bitmap : ℕ → BitVec 32) (i : ℕ) : ℕ → BitVec 32 :=
  Function.update bitmap (i >>> 5) (bitmap (i >>> 5) ||| 1#32 <<< (i &&& 31))

/-- The loop over the bits of an offset that is given; nothing where one is taken. -/
def setBits (bitmap : ℕ → BitVec 32) (i : ℕ) : ℕ → Option (ℕ → BitVec 32)
  | 0 => some bitmap
  | size + 1 => if bit bitmap i then none else setBits (setBit bitmap i) (i + 1) size

def shiftedMask (size i : ℕ) : BitVec 64 := BitVec.ofNat 64 (2 ^ size - 1) <<< (i &&& 31)

/-- The two words from `i` on with the bits of the mask set. -/
def setMask (bitmap : ℕ → BitVec 32) (i : ℕ) (mask : BitVec 64) : ℕ → BitVec 32 :=
  Function.update
    (Function.update bitmap (i >>> 5) (bitmap (i >>> 5) ||| mask.setWidth 32))
    ((i >>> 5) + 1) (bitmap ((i >>> 5) + 1) ||| (mask >>> 32).setWidth 32)

/-- No slots are reserved: there is no room, or a word outside of the bitmap would be read. -/
inductive Refused
  | full
  | outside
  deriving DecidableEq, Repr

/-- The loop over the places for `size` slots, from `i` on. -/
def search (a : Allocator) (size : ℕ) (align : ℕ+) (i : ℕ) : Except Refused (ℕ × Allocator) :=
  if i ≤ (a.size + 2 ^ 32 - size) % 2 ^ 32 then
    if i >>> 5 < a.words then
      let mask := shiftedMask size i
      if (a.bitmap (i >>> 5)).setWidth 64 &&& mask = 0 then
        if (i >>> 5) + 1 < a.words then
          if (a.bitmap ((i >>> 5) + 1)).setWidth 64 &&& mask >>> 32 = 0 then
            .ok (i, { a with bitmap := setMask a.bitmap i mask })
          else a.search size align (i + align)
        else .error .outside
      else a.search size align (i + align)
    else .error .outside
  else .error .full
termination_by 32 * a.words - i
decreasing_by
  all_goals
    have := align.pos
    rw [Nat.shiftRight_eq_div_pow] at *
    omega

/-- `_glsl_interface_allocator_reserve` -/
def reserve (a : Allocator) (offset size : ℕ) (align : ℕ+) : Except Refused (ℕ × Allocator) :=
  if offset ≠ noSlot then
    if offset ≥ a.size ∨ offset + size ≥ a.size then .error .full
    else
      match setBits a.bitmap offset size with
      | none => .error .full
      | some bitmap => .ok (offset, { a with bitmap := bitmap })
  else a.search size align 0

/-! ### The bits -/

lemma shift_five (i : ℕ) : i >>> 5 = i / 32 := Nat.shiftRight_eq_div_pow i 5

lemma and_31 (i : ℕ) : i &&& 31 = i % 32 := Nat.and_two_pow_sub_one_eq_mod i 5

section

variable {bitmap : ℕ → BitVec 32} {i size s : ℕ}

lemma bit_setBit : bit (setBit bitmap i) s = (bit bitmap s || decide (s = i)) := by
  simp only [bit, setBit, shift_five, and_31]
  by_cases hw : s / 32 = i / 32
  · rw [hw, Function.update_self, BitVec.getLsbD_or, BitVec.getLsbD_shiftLeft]
    have hs : s % 32 < 32 := Nat.mod_lt _ (by decide)
    by_cases hsi : s = i
    · subst hsi
      simp [hs]
    · have hne : s % 32 ≠ i % 32 := by omega
      rcases Nat.lt_or_ge (s % 32) (i % 32) with hlt | hge
      · simp [hlt, hsi]
      · have hpos : s % 32 - i % 32 ≠ 0 := by omega
        simp [hsi, hpos]
  · rw [Function.update_of_ne hw]
    have hsi : s ≠ i := by
      rintro rfl
      exact hw rfl
    simp [hsi]

lemma setBits_spec {bitmap' : ℕ → BitVec 32} (h : setBits bitmap i size = some bitmap') :
    (∀ k, i ≤ k → k < i + size → bit bitmap k = false) ∧
      ∀ s, bit bitmap' s = (bit bitmap s || decide (i ≤ s ∧ s < i + size)) := by
  induction size generalizing bitmap i with
  | zero =>
    cases h
    refine ⟨fun k h1 h2 => absurd h2 (by omega), fun s => ?_⟩
    simp only [Nat.add_zero, show ¬(i ≤ s ∧ s < i) by omega, decide_false, Bool.or_false]
  | succ size ih =>
    rw [setBits] at h
    split_ifs at h with hbit
    obtain ⟨hfree, hset⟩ := ih h
    constructor
    · intro k h1 h2
      rcases Nat.eq_or_lt_of_le h1 with rfl | hlt
      · exact Bool.eq_false_iff.mpr hbit
      · have hk := hfree k hlt (by omega)
        rw [bit_setBit, Bool.or_eq_false_iff] at hk
        exact hk.1
    · intro s
      rw [hset, bit_setBit, Bool.or_assoc, ← Bool.decide_or]
      congr 2
      exact propext (by omega)

lemma setBits_free (h : ∀ k, i ≤ k → k < i + size → bit bitmap k = false) :
    ∃ bitmap', setBits bitmap i size = some bitmap' := by
  induction size generalizing bitmap i with
  | zero => exact ⟨bitmap, rfl⟩
  | succ size ih =>
    rw [setBits, if_neg (by rw [h i le_rfl (by omega)]; exact Bool.false_ne_true)]
    refine ih fun k h1 h2 => ?_
    rw [bit_setBit, h k (by omega) (by omega), Bool.false_or]
    exact decide_eq_false (by omega)

lemma getLsbD_shiftedMask (hsize : size ≤ 32) (j : ℕ) :
    (shiftedMask size i).getLsbD j = decide (i % 32 ≤ j ∧ j < i % 32 + size) := by
  have hi : i % 32 < 32 := Nat.mod_lt _ (by decide)
  rw [shiftedMask, and_31, BitVec.getLsbD_shiftLeft, BitVec.getLsbD_ofNat,
    Nat.testBit_two_pow_sub_one]
  rcases Nat.lt_or_ge j 64 with hj | hj
  · rcases Nat.lt_or_ge j (i % 32) with hlt | hge
    · simp [hlt]
    · simp only [hj, decide_true, Bool.true_and, Nat.not_lt.mpr hge, decide_false, Bool.not_false,
        show j - i % 32 < 64 by omega, hge, true_and]
      congr 1
      exact propext (by omega)
  · simp only [Nat.not_lt.mpr hj, decide_false, Bool.false_and,
      show ¬(i % 32 ≤ j ∧ j < i % 32 + size) by omega]

lemma masked_iff (hsize : size ≤ 32) :
    ((bitmap (i >>> 5)).setWidth 64 &&& shiftedMask size i = 0 ∧
      (bitmap ((i >>> 5) + 1)).setWidth 64 &&& shiftedMask size i >>> 32 = 0) ↔
    ∀ k, i ≤ k → k < i + size → bit bitmap k = false := by
  have hi : i % 32 < 32 := Nat.mod_lt _ (by decide)
  have hzero : ∀ x : BitVec 64, x = 0 ↔ ∀ j < 64, x.getLsbD j = false := by
    intro x
    refine ⟨fun h j _ => by rw [h]; exact BitVec.getLsbD_zero, fun h => ?_⟩
    refine BitVec.eq_of_getLsbD_eq fun j hj => ?_
    rw [h j hj]
    exact BitVec.getLsbD_zero.symm
  rw [hzero, hzero]
  simp only [BitVec.getLsbD_and, BitVec.getLsbD_setWidth, BitVec.getLsbD_ushiftRight,
    getLsbD_shiftedMask hsize, bit, shift_five, and_31]
  constructor
  · rintro ⟨hlow, hhigh⟩ k h1 h2
    have hk : k % 32 < 32 := Nat.mod_lt _ (by decide)
    by_cases hw : k / 32 = i / 32
    · have := hlow (k % 32) (by omega)
      rw [hw]
      simpa [show k % 32 < 64 by omega, show i % 32 ≤ k % 32 by omega,
        show k % 32 < i % 32 + size by omega] using this
    · have hw' : k / 32 = i / 32 + 1 := by omega
      have := hhigh (k % 32) (by omega)
      rw [hw']
      simpa [show k % 32 < 64 by omega, show i % 32 ≤ 32 + k % 32 by omega,
        show 32 + k % 32 < i % 32 + size by omega] using this
  · intro h
    constructor
    · intro j hj
      by_cases hin : i % 32 ≤ j ∧ j < i % 32 + size
      · rcases Nat.lt_or_ge j 32 with hj' | hj'
        · have := h (32 * (i / 32) + j) (by omega) (by omega)
          rw [show (32 * (i / 32) + j) / 32 = i / 32 by omega,
            show (32 * (i / 32) + j) % 32 = j by omega] at this
          rw [this, Bool.and_false, Bool.false_and]
        · rw [BitVec.getLsbD_of_ge _ _ hj', Bool.and_false, Bool.false_and]
      · rw [decide_eq_false hin, Bool.and_false]
    · intro j hj
      by_cases hin : i % 32 ≤ 32 + j ∧ 32 + j < i % 32 + size
      · rcases Nat.lt_or_ge j 32 with hj' | hj'
        · have := h (32 * (i / 32 + 1) + j) (by omega) (by omega)
          rw [show (32 * (i / 32 + 1) + j) / 32 = i / 32 + 1 by omega,
            show (32 * (i / 32 + 1) + j) % 32 = j by omega] at this
          rw [this, Bool.and_false, Bool.false_and]
        · rw [BitVec.getLsbD_of_ge _ _ hj', Bool.and_false, Bool.false_and]
      · rw [decide_eq_false hin, Bool.and_false]

lemma bit_setMask (hsize : size ≤ 32) : bit (setMask bitmap i (shiftedMask size i)) s =
    (bit bitmap s || decide (i ≤ s ∧ s < i + size)) := by
  have hs : s % 32 < 32 := Nat.mod_lt _ (by decide)
  simp only [bit, setMask, shift_five, and_31]
  by_cases hhigh : s / 32 = i / 32 + 1
  · rw [hhigh, Function.update_self, BitVec.getLsbD_or, BitVec.getLsbD_setWidth,
      BitVec.getLsbD_ushiftRight, getLsbD_shiftedMask hsize, decide_eq_true hs, Bool.true_and]
    congr 2
    exact propext (by omega)
  · rw [Function.update_of_ne hhigh]
    by_cases hlow : s / 32 = i / 32
    · rw [hlow, Function.update_self, BitVec.getLsbD_or, BitVec.getLsbD_setWidth,
        getLsbD_shiftedMask hsize, decide_eq_true hs, Bool.true_and]
      congr 2
      exact propext (by omega)
    · rw [Function.update_of_ne hlow, decide_eq_false (by omega), Bool.or_false]

end

/-! ### What is reserved -/

/-- Slots from `s` on that nobody has. -/
def Free (used : Set ℕ) (s size : ℕ) : Prop := ∀ k, s ≤ k → k < s + size → k ∉ used

/-- The slots from `s` on, given where `slot` says so or the first that are free. -/
def Grants (limit : ℕ) (used : Set ℕ) (slot size s : ℕ) : Prop :=
  if slot ≠ noSlot then s = slot ∧ s + size < limit ∧ Free used s size
  else IsLeast {i | i + size ≤ limit ∧ Free used i size} s

/-- The used ones of `limit` slots. -/
structure Holds (a : Allocator) (limit : ℕ) (used : Set ℕ) : Prop where
  size : a.size = limit
  words : a.words = (limit + 32 + 31) >>> 5
  bits : ∀ s < limit, bit a.bitmap s = true ↔ s ∈ used

lemma holds_init (heap : ℕ → BitVec 32) (limit : ℕ) : Holds (init heap limit) limit ∅ := by
  refine ⟨rfl, rfl, fun s hs => ?_⟩
  have hw : s / 32 ≤ limit / 32 := Nat.div_le_div_right (le_of_lt hs)
  simp only [bit, init, shift_five, if_pos hw, Set.mem_empty_iff_false, iff_false,
    BitVec.ofNat_eq_ofNat, BitVec.getLsbD_zero]
  exact Bool.false_ne_true

section

variable {a : Allocator} {limit slot size s : ℕ} {used : Set ℕ}

lemma Holds.free_iff (h : Holds a limit used) (hs : s + size ≤ limit) :
    Free used s size ↔ ∀ k, s ≤ k → k < s + size → bit a.bitmap k = false := by
  refine forall_congr' fun k => forall_congr' fun _ => forall_congr' fun hk => ?_
  rw [← h.bits k (by omega), Bool.not_eq_true]

lemma Holds.mark (h : Holds a limit used) {bitmap : ℕ → BitVec 32}
    (hb : ∀ k, bit bitmap k = (bit a.bitmap k || decide (s ≤ k ∧ k < s + size))) :
    Holds { a with bitmap := bitmap } limit (used ∪ Set.Ico s (s + size)) := by
  refine ⟨h.size, h.words, fun k hk => ?_⟩
  rw [hb, Bool.or_eq_true, h.bits k hk, decide_eq_true_eq]
  rfl

lemma search_eq (h : Holds a limit used) (hpos : 0 < size) (h32 : size ≤ 32)
    (hsize : size ≤ limit) (hlimit : limit < 2 ^ 32) (align : ℕ+) (i : ℕ) :
    (∃ a', i + size ≤ limit ∧ Free used i size ∧ a.search size align i = .ok (i, a') ∧
      Holds a' limit (used ∪ Set.Ico i (i + size))) ∨
    (i + size ≤ limit ∧ ¬Free used i size ∧
      a.search size align i = a.search size align (i + align)) ∨
    (limit < i + size ∧ a.search size align i = .error .full) := by
  have hbound : (a.size + 2 ^ 32 - size) % 2 ^ 32 = limit - size := by
    rw [h.size, show limit + 2 ^ 32 - size = limit - size + 2 ^ 32 by omega,
      Nat.add_mod_right]
    exact Nat.mod_eq_of_lt (by omega)
  rcases Nat.lt_or_ge limit (i + size) with hend | hend
  · refine .inr (.inr ⟨hend, ?_⟩)
    rw [search, if_neg (by omega)]
  · have hw : i >>> 5 + 1 < a.words := by
      rw [h.words, shift_five, shift_five]
      omega
    have hmask := @masked_iff a.bitmap i size h32
    have hfree := h.free_iff hend
    rw [search, if_pos (by omega), if_pos (by omega)]
    by_cases h1 : (a.bitmap (i >>> 5)).setWidth 64 &&& shiftedMask size i = 0
    · simp only [if_pos h1, if_pos hw]
      by_cases h2 : (a.bitmap ((i >>> 5) + 1)).setWidth 64 &&& shiftedMask size i >>> 32 = 0
      · rw [if_pos h2]
        exact .inl ⟨_, hend, hfree.mpr (hmask.mp ⟨h1, h2⟩), rfl,
          h.mark fun k => bit_setMask h32⟩
      · rw [if_neg h2]
        exact .inr (.inl ⟨hend, fun hf => h2 (hmask.mpr (hfree.mp hf)).2, rfl⟩)
    · simp only [if_neg h1]
      exact .inr (.inl ⟨hend, fun hf => h1 (hmask.mpr (hfree.mp hf)).1, trivial⟩)

/-- **The search** finds the first free place behind the ones that were tried. -/
lemma search_spec (h : Holds a limit used) (hpos : 0 < size) (h32 : size ≤ 32)
    (hsize : size ≤ limit) (hlimit : limit < 2 ^ 32) (i : ℕ)
    (hi : ∀ j < i, ¬(j + size ≤ limit ∧ Free used j size)) :
    (∃ s a', a.search size 1 i = .ok (s, a') ∧ Grants limit used noSlot size s ∧
      Holds a' limit (used ∪ Set.Ico s (s + size))) ∨
    (a.search size 1 i = .error .full ∧ ∀ s, ¬Grants limit used noSlot size s) := by
  simp only [Grants, ne_eq, not_true_eq_false, if_false]
  induction hn : limit - i using Nat.strong_induction_on generalizing i with
  | _ n ih =>
    rcases search_eq h hpos h32 hsize hlimit 1 i with
      ⟨a', hend, hfree, heq, ha'⟩ | ⟨hend, hfree, heq⟩ | ⟨hend, heq⟩
    · refine .inl ⟨i, a', heq, ⟨⟨hend, hfree⟩, fun j hj => ?_⟩, ha'⟩
      by_contra hlt
      exact hi j (by omega) hj
    · rw [heq]
      refine ih (limit - (i + 1)) (by omega) (i + 1) (fun j hj => ?_) rfl
      rcases Nat.eq_or_lt_of_le (Nat.le_of_lt_succ hj) with rfl | hlt
      · exact fun hf => hfree hf.2
      · exact hi j hlt
    · refine .inr ⟨heq, fun s hs => ?_⟩
      have hlt : s < i := by
        have := hs.1.1
        omega
      exact hi s hlt hs.1

/-- **Reserving** grants what there is to grant. -/
theorem reserve_spec (h : Holds a limit used) (hpos : 0 < size) (h32 : size ≤ 32)
    (hsize : size ≤ limit) (hlimit : limit < 2 ^ 32) (slot : ℕ) :
    (∃ s a', a.reserve slot size 1 = .ok (s, a') ∧ Grants limit used slot size s ∧
      Holds a' limit (used ∪ Set.Ico s (s + size))) ∨
    (a.reserve slot size 1 = .error .full ∧ ∀ s, ¬Grants limit used slot size s) := by
  rw [reserve]
  by_cases hslot : slot ≠ noSlot
  · have hbound := h.size
    rw [if_pos hslot]
    simp only [Grants, if_pos hslot]
    by_cases hend : slot ≥ a.size ∨ slot + size ≥ a.size
    · rw [if_pos hend]
      refine .inr ⟨rfl, fun s hs => ?_⟩
      obtain ⟨rfl, hlt, -⟩ := hs
      omega
    · rw [if_neg hend]
      have hfree := @Holds.free_iff a limit size slot used h (by omega)
      cases hset : setBits a.bitmap slot size with
      | none =>
        refine .inr ⟨rfl, fun s hs => ?_⟩
        obtain ⟨rfl, -, hf⟩ := hs
        obtain ⟨bitmap, hb⟩ := setBits_free (hfree.mp hf)
        rw [hset] at hb
        cases hb
      | some bitmap =>
        obtain ⟨hclear, hb⟩ := setBits_spec hset
        exact .inl ⟨slot, _, rfl, ⟨rfl, by omega, hfree.mpr hclear⟩, h.mark hb⟩
  · rw [if_neg hslot, not_not.mp hslot]
    exact search_spec h hpos h32 hsize hlimit 0 fun j hj => absurd hj (Nat.not_lt_zero j)

lemma reserve_given {align : ℕ+} {a' : Allocator} (hslot : slot ≠ noSlot)
    (hok : a.reserve slot size align = .ok (s, a')) : s = slot := by
  rw [reserve, if_pos hslot] at hok
  by_cases hend : slot ≥ a.size ∨ slot + size ≥ a.size
  · rw [if_pos hend] at hok
    cases hok
  · rw [if_neg hend] at hok
    cases hset : setBits a.bitmap slot size with
    | none =>
      rw [hset] at hok
      cases hok
    | some bitmap =>
      rw [hset] at hok
      cases hok
      rfl

lemma Grants.unique {s' : ℕ} (h : Grants limit used slot size s)
    (h' : Grants limit used slot size s') : s = s' := by
  unfold Grants at h h'
  split_ifs at h h' with hslot
  · exact h.1.trans h'.1.symm
  · exact h.unique h'

lemma Grants.bounds (h : Grants limit used slot size s) :
    s + size ≤ limit ∧ Free used s size ∧ (slot ≠ noSlot → s = slot) := by
  unfold Grants at h
  split_ifs at h with hslot
  · exact ⟨le_of_lt h.2.1, h.2.2, fun _ => h.1⟩
  · exact ⟨h.1.1, h.1.2, fun hne => absurd hne hslot⟩

end

end Allocator

end KernelModel.Glsl
