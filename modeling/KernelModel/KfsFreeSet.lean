import KernelModel.KfsDealloc

/-!
An allocator of a KFS2 volume as a set of free indices.

Index `0` is an index like any other, and it is also what a refused allocation returns.
-/

namespace KernelModel.Kfs

open HierBitmap

section

variable {c : Config} {A : Area c} {a : Bitmap} {d : Disk}

/-! ### Allocating -/

lemma findNextHighestLevelOffset_length (d : Disk) : ∀ (n : ℕ) (a : Bitmap),
    (findNextHighestLevelOffset c d n a).highestLevelLength = a.highestLevelLength := by
  intro n
  induction n with
  | zero => exact fun _ => rfl
  | succ n ih =>
    intro a
    rw [findNextHighestLevelOffset]
    dsimp only
    split_ifs
    · rw [ih]
      exact fetchData_length _ _
    · exact fetchData_length _ _
    · rfl

lemma findNextHighestLevelOffset_low (hbs : c.blockSize ≤ 4096) {n : ℕ} (hc : Coherent A d a)
    (hlen : a.highestLevelLength ≤ 512 * A.blocks 4)
    (hlow : ∀ j < a.highestLevelOffset, A.view d 4 j = 0) :
    ∀ j < (findNextHighestLevelOffset c d n a).highestLevelOffset, A.view d 4 j = 0 := by
  induction n generalizing a with
  | zero => exact hlow
  | succ n ih =>
    rw [findNextHighestLevelOffset]
    by_cases hlt : a.highestLevelOffset < a.highestLevelLength
    · obtain ⟨hc', hh⟩ := fetchData_coherent hbs hc (k := 4) (j := a.highestLevelOffset)
        (by omega) (by omega)
      have hw := hc'.data_eq (by omega) hh
      rw [if_pos hlt]
      simp only [kfs2BitmapLevelCount, Nat.reduceSub, hw]
      split
      · rename_i hzero
        refine ih ⟨hc'.offset, hc'.cached⟩ ?_ ?_
        · simpa using hlen
        · intro j hj
          simp only [fetchData_highestLevelOffset] at hj
          rcases Nat.lt_succ_iff_lt_or_eq.mp hj with hj | rfl
          · exact hlow j hj
          · exact hzero
      · simpa using hlow
    · rw [if_neg hlt]
      exact hlow

lemma Kept.exhausted_iff (h : Kept A d a) :
    a.highestLevelOffset = a.highestLevelLength ↔ ∀ i, ¬bit (A.view d) 0 i := by
  constructor
  · intro heq i hi
    have htop := (top_ne_zero_iff h.consistent _).mpr ⟨i, hi, rfl⟩
    rcases Nat.lt_or_ge (i / 64 ^ 5) a.highestLevelLength with hlt | hge
    · exact htop (h.low _ (by omega))
    · exact htop (h.high _ hge)
  · intro hnone
    rcases h.offset with heq | ⟨-, hne⟩
    · exact heq
    · obtain ⟨x, hx, -⟩ := (top_ne_zero_iff h.consistent _).mp hne
      exact absurd hx (hnone x)

lemma view_top_of_bits {d' : Disk} {x : ℕ} (hL : Consistent 5 (A.view d))
    (hL' : Consistent 5 (A.view d'))
    (hbits : ∀ i, bit (A.view d') 0 i = (bit (A.view d) 0 i && i != x)) {j : ℕ}
    (hj : A.view d 4 j = 0) : A.view d' 4 j = 0 := by
  by_contra hne
  obtain ⟨y, hy, hdiv⟩ := (top_ne_zero_iff hL' j).mp hne
  rw [hbits, Bool.and_eq_true] at hy
  exact (top_ne_zero_iff hL j).mpr ⟨y, hy.1, hdiv⟩ hj

/-- **An allocation** keeps the state. -/
theorem kfs2BitmapAlloc_kept (hbs : c.blockSize ≤ 4096) (h : Kept A d a) :
    ∃ x a' d', kfs2BitmapAlloc c a d = (x, a', d') ∧ Kept A d' a' ∧
      a'.highestLevelLength = a.highestLevelLength ∧
      ((∀ i, ¬bit (A.view d) 0 i) ∧ x = 0 ∧ d' = d ∨
        bit (A.view d) 0 x ∧ x = descend (A.view d) 5 a.highestLevelOffset ∧
          ∀ i, bit (A.view d') 0 i = (bit (A.view d) 0 i && i != x)) := by
  rcases h.offset with heq | ⟨hlt, hne⟩
  · exact ⟨0, a, d, if_pos heq, h, rfl, .inl ⟨h.exhausted_iff.mp heq, rfl, rfl⟩⟩
  obtain ⟨x, a', d', halloc, hready, -, hx⟩ := kfs2BitmapAlloc_spec hbs h.toReady
  obtain ⟨x₂, a₂, d₂, emptied, halloc', hl⟩ := kfs2BitmapAlloc_eq hbs h.toReady hlt hne
  have htop : ∀ {j}, A.view d 4 j = 0 → A.view d₂ 4 j = 0 :=
    view_top_of_bits h.consistent hl.consistent hl.bits
  have hbits : (∀ i, ¬bit (A.view d) 0 i) ∧ x = 0 ∧ d' = d ∨
      bit (A.view d) 0 x ∧ x = descend (A.view d) 5 a.highestLevelOffset ∧
        ∀ i, bit (A.view d') 0 i = (bit (A.view d) 0 i && i != x) :=
    hx.imp_left fun hend => ⟨h.exhausted_iff.mp hend.1, hend.2⟩
  rw [halloc] at halloc'
  cases emptied with
  | true =>
    rw [if_pos rfl] at halloc'
    cases halloc'
    have hlength := (findNextHighestLevelOffset_length (c := c) d' a₂.highestLevelLength
      { a₂ with highestLevelOffset := a₂.highestLevelOffset + 1 }).trans hl.length
    refine ⟨_, _, _, halloc, ⟨hready, ?_, ?_⟩, hlength, hbits⟩
    · refine findNextHighestLevelOffset_low hbs ⟨hl.coherent.offset, hl.coherent.cached⟩ ?_ ?_
      · exact hl.length ▸ h.length_le
      · intro j hj
        rw [hl.offset] at hj
        rcases Nat.lt_succ_iff_lt_or_eq.mp hj with hj | rfl
        · exact htop (h.low j hj)
        · exact hl.emptied_iff.mp rfl
    · intro j hj
      exact htop (h.high j (by rwa [hlength] at hj))
  | false =>
    rw [if_neg Bool.false_ne_true] at halloc'
    cases halloc'
    refine ⟨_, _, _, halloc, ⟨hready, fun j hj => ?_, fun j hj => ?_⟩, hl.length, hbits⟩
    · rw [hl.offset] at hj
      exact htop (h.low j hj)
    · rw [hl.length] at hj
      exact htop (h.high j hj)

lemma Kept.descend_eq_zero (h : Kept A d a) (hzero : bit (A.view d) 0 0) :
    descend (A.view d) 5 a.highestLevelOffset = 0 := by
  have hlowest : ∀ k < 5, IsLowest (A.view d k 0) 0 := by
    intro k
    induction k with
    | zero => exact fun _ => ⟨hzero, fun i hi => absurd hi (Nat.not_lt_zero i)⟩
    | succ k ih =>
      intro hk
      have hbit := (h.consistent.bit_iff k hk 0).mpr (ih (by omega)).ne_zero
      exact ⟨hbit, fun i hi => absurd hi (Nat.not_lt_zero i)⟩
  have hoffset : a.highestLevelOffset = 0 := by
    by_contra hne
    exact (hlowest 4 (by decide)).ne_zero (h.low 0 (by omega))
  rw [hoffset]
  exact descend_zero (fun k hk => h.consistent.word_lt k hk 0) hlowest

lemma kept_init (hbs : c.blockSize ≤ 4096) {length : ℕ} (hL : Consistent 5 (A.view d))
    (hlen : length ≤ 512 * A.blocks 4) (hhigh : ∀ j, length ≤ j → A.view d 4 j = 0) :
    Kept A d (kfs2BitmapInit c A.offset length d) := by
  have hc : Coherent A d ⟨length, 0, fun i => ⟨A.offset i, 0xffffffffffffffff, fun _ => 0⟩⟩ :=
    ⟨fun _ _ => rfl, fun _ _ => .inl rfl⟩
  refine ⟨findNextHighestLevelOffset_ready hbs hL hc hlen (Nat.zero_le _) ?_,
    findNextHighestLevelOffset_low hbs hc hlen fun j hj => absurd hj (Nat.not_lt_zero j), ?_⟩
  · exact Nat.le_add_left _ _
  · intro j hj
    rw [kfs2BitmapInit, findNextHighestLevelOffset_length] at hj
    exact hhigh j hj

/-! ### Runs -/

inductive Call
  | alloc
  | dealloc (index : ℕ)

/-- What a call returns, with the allocator and the drive after it. -/
def Call.run (c : Config) (s : Bitmap × Disk) : Call → ℕ × Bitmap × Disk
  | .alloc => kfs2BitmapAlloc c s.1 s.2
  | .dealloc index => (0, kfs2BitmapDealloc c s.1 index s.2)

/-- The index is free. -/
def Free (A : Area c) (d : Disk) (i : ℕ) : Prop := bit (A.view d) 0 i

/-- Only allocated indices of the bitmap are given back. -/
def Call.Allowed (A : Area c) (s : Bitmap × Disk) : Call → Prop
  | .alloc => True
  | .dealloc index =>
    A.Fits index ∧ index / 64 ^ 5 < s.1.highestLevelLength ∧ ¬Free A s.2 index

/-- What a call does to the free indices. A refused allocation returns `0`, and is to be told
from one that is not refused by that. -/
def Call.Refines (A : Area c) (s : Bitmap × Disk) : Call → Prop
  | .alloc =>
    let (x, _, d') := kfs2BitmapAlloc c s.1 s.2
    (x = 0 ↔ ∀ i, ¬Free A s.2 i) ∧
      ((∀ i, ¬Free A s.2 i) → ∀ i, ¬Free A d' i) ∧
      ((∃ i, Free A s.2 i) → Free A s.2 x ∧ ∀ i, Free A d' i ↔ Free A s.2 i ∧ i ≠ x)
  | .dealloc index => ∀ i, Free A (kfs2BitmapDealloc c s.1 index s.2).2 i ↔
      Free A s.2 i ∨ i = index

/-- After the call the levels agree, and the offset is not behind the first word of the highest
level that is not zero. -/
structure StepOk (A : Area c) (s : Bitmap × Disk) (call : Call) : Prop where
  refines : call.Refines A s
  consistent : Consistent 5 (A.view (call.run c s).2.2)
  offset_le : ∀ j, A.view (call.run c s).2.2 4 j ≠ 0 →
    (call.run c s).2.1.highestLevelOffset ≤ j

/-- A property of the calls of a run, each in the state it meets. -/
def Along (c : Config) (P : Bitmap × Disk → Call → Prop) : Bitmap × Disk → List Call → Prop
  | _, [] => True
  | s, call :: calls => P s call ∧ Along c P (call.run c s).2 calls

/-- Index `0` is not free when an index is asked for. -/
def ZeroTaken (A : Area c) (s : Bitmap × Disk) (call : Call) : Prop :=
  call = .alloc → ¬Free A s.2 0

lemma stepOk_iff (hbs : c.blockSize ≤ 4096) {s : Bitmap × Disk} (h : Kept A s.2 s.1)
    {call : Call} (hcall : call.Allowed A s) :
    Kept A (call.run c s).2.2 (call.run c s).2.1 ∧ (StepOk A s call ↔ ZeroTaken A s call) := by
  have hoffset : ∀ {d' : Disk} {a' : Bitmap}, Kept A d' a' →
      ∀ j, A.view d' 4 j ≠ 0 → a'.highestLevelOffset ≤ j := by
    intro d' a' hk j hj
    by_contra hlt
    exact hj (hk.low j (by omega))
  cases call with
  | alloc =>
    obtain ⟨x, a', d', halloc, hk, -, hx⟩ := kfs2BitmapAlloc_kept hbs h
    have hrun : Call.run c s .alloc = (x, a', d') := halloc
    rw [hrun]
    refine ⟨hk, ?_⟩
    constructor
    · rintro ⟨hrefines, -, -⟩ - hfree
      rw [Call.Refines, halloc] at hrefines
      rcases hx with ⟨hnone, -⟩ | ⟨-, hdescend, -⟩
      · exact hnone 0 hfree
      · rw [h.descend_eq_zero hfree] at hdescend
        exact hrefines.1.mp hdescend 0 hfree
    · intro hzero
      have hzero := hzero rfl
      refine ⟨?_, by rw [hrun]; exact hk.consistent, by rw [hrun]; exact hoffset hk⟩
      rw [Call.Refines, halloc]
      rcases hx with ⟨hnone, rfl, rfl⟩ | ⟨hfree, -, hbits⟩
      · exact ⟨iff_of_true rfl hnone, fun _ => hnone, fun ⟨i, hi⟩ => absurd hi (hnone i)⟩
      · refine ⟨iff_of_false ?_ fun hnone => hnone x hfree, fun hnone => absurd hfree (hnone x),
          fun _ => ⟨hfree, fun i => ?_⟩⟩
        · rintro rfl
          exact hzero hfree
        · rw [Free, Free, hbits, Bool.and_eq_true, bne_iff_ne]
  | dealloc index =>
    obtain ⟨hfits, hlength, -⟩ := hcall
    obtain ⟨a', d', hdealloc, hk, -, -, hbits⟩ := kfs2BitmapDealloc_spec hbs h hfits hlength
    have hrun : Call.run c s (.dealloc index) = (0, a', d') := by rw [Call.run, hdealloc]
    rw [hrun]
    refine ⟨hk, iff_of_true ?_ (fun h => by cases h)⟩
    refine ⟨fun i => ?_, by rw [hrun]; exact hk.consistent, by rw [hrun]; exact hoffset hk⟩
    rw [hdealloc, Free, Free, hbits, Bool.or_eq_true, beq_iff_eq]

end

/-- A volume whose bitmap is consistent, mounted, with the calls that are made afterwards. -/
structure Mount where
  config : Config
  area : Area config
  disk : Disk
  length : ℕ
  calls : List Call
  blockSize_le : config.blockSize ≤ 4096
  consistent : Consistent 5 (area.view disk)
  length_le : length ≤ 512 * area.blocks 4
  high : ∀ j, length ≤ j → area.view disk 4 j = 0
  allowed : Along config (Call.Allowed area)
    (kfs2BitmapInit config area.offset length disk, disk) calls

/-- The state after mounting. -/
def Mount.start (m : Mount) : Bitmap × Disk :=
  (kfs2BitmapInit m.config m.area.offset m.length m.disk, m.disk)

/-- **The allocator is a set of free indices** in exactly the runs in which no index is asked
for while index `0` is free. -/
theorem refinesFreeSet_iff (m : Mount) : Along m.config (StepOk m.area) m.start m.calls ↔
    Along m.config (ZeroTaken m.area) m.start m.calls := by
  have hrun : ∀ (calls : List Call) (s : Bitmap × Disk), Kept m.area s.2 s.1 →
      Along m.config (Call.Allowed m.area) s calls →
      (Along m.config (StepOk m.area) s calls ↔ Along m.config (ZeroTaken m.area) s calls) := by
    intro calls
    induction calls with
    | nil => exact fun _ _ _ => Iff.rfl
    | cons call calls ih =>
      rintro s h ⟨hcall, hrest⟩
      obtain ⟨hk, hstep⟩ := stepOk_iff m.blockSize_le h hcall
      exact and_congr hstep (ih _ hk hrest)
  exact hrun m.calls m.start (kept_init m.blockSize_le m.consistent m.length_le m.high) m.allowed

/-! ### A bitmap of one index -/

/-- Five blocks, with one level of the bitmap in each one. -/
def fiveBlocks : Config where
  blockSize := 4096
  startLba := 0
  endLba := 5
  isPow := isPow_page
  rootBlock_le := rootBlock_le_page
  start_le := Nat.zero_le 5
  end_lt := by norm_num

def oneIndexArea : Area fiveBlocks where
  offset k := k
  blocks _ := 1
  small := by norm_num
  inside k hk := by
    have hcount : fiveBlocks.blockCount = 5 := by decide
    omega
  apart k _ k' _ hne := by omega

def oneIndexDisk : Disk := fun _ r => if r = 0 then 1 else 0

lemma view_oneIndex (k j : ℕ) :
    oneIndexArea.view oneIndexDisk k j = if k < 5 ∧ j = 0 then 1 else 0 := by
  have hword : fiveBlocks.wordsPerLba = 512 := by decide
  rw [Area.view, Config.word, Config.readCallback, hword, oneIndexDisk]
  show (if k < 5 ∧ j / 512 < 1 then if j % 512 % 512 = 0 then 1 else 0 else 0) = _
  by_cases hj : j = 0
  · subst hj
    split_ifs <;> first | rfl | omega
  · rw [if_neg (c := k < 5 ∧ j = 0) (by omega)]
    split_ifs <;> first | rfl | omega

lemma bit_oneIndex (k i : ℕ) :
    bit (oneIndexArea.view oneIndexDisk) k i = decide (k < 5 ∧ i = 0) := by
  rw [bit, view_oneIndex]
  by_cases hk : k < 5 ∧ i / 64 = 0
  · rw [if_pos hk, Bool.eq_iff_iff, Nat.testBit_one_eq_true_iff_self_eq_zero,
      decide_eq_true_iff]
    omega
  · rw [if_neg hk, Nat.zero_testBit]
    symm
    exact decide_eq_false (by omega)

def oneIndex : Mount where
  config := fiveBlocks
  area := oneIndexArea
  disk := oneIndexDisk
  length := 1
  calls := [.alloc]
  blockSize_le := le_rfl
  consistent := by
    constructor
    · intro k _ j
      rw [view_oneIndex]
      split_ifs <;> norm_num
    · intro k hk i
      rw [bit_oneIndex, view_oneIndex, decide_eq_true_iff]
      by_cases hi : i = 0
      · rw [if_pos ⟨by omega, hi⟩]
        exact iff_of_true ⟨hk, hi⟩ one_ne_zero
      · rw [if_neg fun h => hi h.2]
        exact iff_of_false (fun h => hi h.2) fun h => h rfl
  length_le := by decide
  high j hj := by
    rw [view_oneIndex, if_neg (by omega)]
  allowed := ⟨trivial, trivial⟩

/-- The only index is taken, and what is returned is what a refusal returns. -/
theorem oneIndex_not_refines : ¬Along oneIndex.config (StepOk oneIndex.area) oneIndex.start
    oneIndex.calls := by
  rintro ⟨hstep, -⟩
  have hkept := kept_init oneIndex.blockSize_le oneIndex.consistent oneIndex.length_le
    oneIndex.high
  have hzero := (stepOk_iff oneIndex.blockSize_le hkept
    oneIndex.allowed.1).2.mp hstep
  exact hzero rfl ((bit_oneIndex 0 0).trans rfl)

end KernelModel.Kfs
