import KernelModel.GptFormat
import KernelModel.GptLoad

/-!
When loading a partition table is safe: for which drives, tables and transfers.
-/

namespace KernelModel.Gpt

open Drive

/-- The largest bucket of the allocator, in bytes. -/
def maxAllocation : ℕ := 2 ^ 27

/-- The header passes all checks. -/
structure Accepted (d : Drive) (io : ℕ → ℕ) (headerMemory h : Buffer) : Prop where
  read : (driveRead d io 0 1 .header headerMemory 1).2 = some (1, h)
  signature : h.get .signature = tableHeaderSignature
  headerSize : h.get .headerSize ≤ d.blockSize
  crc : calculateCrc (h.set .crc 0) ((h.set .crc 0).get .headerSize) = h.get .crc
  entrySize : 128 ≤ (h.set .crc 0).get .entrySize

/-- The buffer of the entries when all blocks have been read. -/
def entriesRead (d : Drive) (h entryMemory : Buffer) : Buffer := fun j =>
  if j < alignedEntryBufferSize d h * d.blockSize then
    d.block (offsetMask (h.get .entryLba) + j / d.blockSize) (j % d.blockSize)
  else entryMemory j

/-- Each of the entries with a type becomes a partition, and that returns. -/
def Created (creates : Partition → Bool) (entries : Buffer) (size entrySize : ℕ) : Prop :=
  ∀ j, j * entrySize < size → nonzeroGuid entries (j * entrySize) ≠ 0 →
    creates (partitionAt entries entrySize (j * entrySize)) = true

/-- A table that does no harm: its entries can be allocated and are read as a whole, the blocks
fit in the pages, an entry that is cut off at the end has no type, and making the partitions
returns. -/
structure Harmless (d : Drive) (io : ℕ → ℕ) (creates : Partition → Bool)
    (h entryMemory : Buffer) : Prop where
  size_pos : 0 < entryBufferSize h
  size_le : entryBufferSize h ≤ maxAllocation
  lba : h.get .entryLba < d.blockCount
  inside : (h.get .entryLba + alignedEntryBufferSize d h) % 2 ^ 64 ≤ d.blockCount
  transferred : alignedEntryBufferSize d h ≤ io 1
  blocks_le : alignedEntryBufferSize d h * d.blockSize ≤ maxAllocation
  fits : alignedEntryBufferSize d h * d.blockSize ≤ pages (entryBufferSize h) * pageSize
  whole : calculateCrc (entriesRead d h entryMemory) (entryBufferSize h) = h.get .entryCrc →
    entryBufferSize h % h.get .entrySize = 0 ∨
    sizeofEntry ≤ entryBufferSize h % h.get .entrySize ∨
    entryBufferSize h - entryBufferSize h % h.get .entrySize + 16 ≤
        pages (entryBufferSize h) * pageSize ∧
      nonzeroGuid (entriesRead d h entryMemory)
        (entryBufferSize h - entryBufferSize h % h.get .entrySize) = 0
  created : calculateCrc (entriesRead d h entryMemory) (entryBufferSize h) = h.get .entryCrc →
    Created creates (entriesRead d h entryMemory) (entryBufferSize h) (h.get .entrySize)

section

variable {d : Drive} {io : ℕ → ℕ} {creates : Partition → Bool} {h hm em : Buffer}
  {live live' : Live} {size : ℕ}

lemma serves_pages : Serves (pages size) ↔ 0 < size ∧ size ≤ maxAllocation := by
  have hbucket : Nat.clog 2 (pages size) < pmmAllocatorBucketCount ↔ pages size ≤ 2 ^ 15 :=
    Nat.lt_succ_iff.trans (Nat.clog_le_iff_le_pow Nat.one_lt_two)
  rw [Serves, hbucket]
  simp only [pages, pageSize, maxAllocation]
  omega

lemma le_pages (size : ℕ) : size ≤ pages size * pageSize := by
  simp only [pages, pageSize]
  omega

/-! ### Runs of events -/

lemma events_append (xs ys : List Event) :
    live.events (xs ++ ys) = (live.events xs).bind fun l => l.events ys := by
  induction xs generalizing live with
  | nil => rfl
  | cons x xs ih =>
    rw [List.cons_append, Live.events, Live.events, Option.bind_assoc]
    exact congrArg _ (funext fun l => ih)

lemma events_append_eq (xs ys : List Event) :
    live.events (xs ++ ys) = some live' ↔
      ∃ l, live.events xs = some l ∧ l.events ys = some live' := by
  rw [events_append, Option.bind_eq_some_iff]

/-! ### The entries -/

section

variable {entries : Buffer} {entrySize p fuel k : ℕ}

/-- What the loop reads of the entry at offset `i` is there. -/
def EntryFits (entries : Buffer) (size p i : ℕ) : Prop :=
  i + 16 ≤ p * pageSize ∧ (nonzeroGuid entries i ≠ 0 → i + sizeofEntry ≤ size)

lemma access_some {offset n : ℕ} (hlive : live .entries = some p)
    (h : offset + n ≤ p * pageSize) : live.event (.access .entries offset n) = some live := by
  simp only [Live.event, hlive, if_pos h]

lemma access_none {offset n : ℕ} (hlive : live .entries = some p)
    (h : ¬offset + n ≤ p * pageSize) : live.event (.access .entries offset n) = none := by
  simp only [Live.event, hlive, if_neg h]

/-- The events of one entry. -/
def entryEvents (entries : Buffer) (entrySize i : ℕ) : List Event :=
  if nonzeroGuid entries i = 0 then [.access .entries i 16]
  else
    [.access .entries i 16, .access .entries i sizeofEntry,
      .create i (partitionAt entries entrySize i)]

lemma events_entry_iff (hlive : live .entries = some p) (i : ℕ) :
    live.events (entryEvents entries entrySize i) = some live' ↔
      (i + 16 ≤ p * pageSize ∧
        (nonzeroGuid entries i ≠ 0 → i + sizeofEntry ≤ p * pageSize)) ∧ live = live' := by
  rw [entryEvents]
  by_cases h16 : i + 16 ≤ p * pageSize
  swap
  · split_ifs <;> simp [Live.events, access_none hlive h16, h16]
  by_cases hin : i + sizeofEntry ≤ p * pageSize
  · have hcreate (partition : Partition) : live.event (.create i partition) = some live := rfl
    split_ifs <;>
      simp [Live.events, access_some hlive h16, access_some hlive hin, h16, hin, hcreate]
  · split_ifs with hzero
    · simp [Live.events, access_some hlive h16, h16, hzero]
    · simp [Live.events, access_some hlive h16, access_none hlive hin, hin, hzero]

lemma create_mem_entry {i j : ℕ} {partition : Partition}
    (hmem : .create j partition ∈ entryEvents entries entrySize i) :
    j = i ∧ nonzeroGuid entries i ≠ 0 := by
  rw [entryEvents] at hmem
  split_ifs at hmem with hzero
  · simp at hmem
  · simp only [List.mem_cons, reduceCtorEq, Event.create.injEq, List.not_mem_nil, or_false,
      false_or] at hmem
    exact ⟨hmem.1, hzero⟩

/-- **One entry**: the loop goes on with the next one, unless making the partition does not
return. -/
lemma scan_step (h128 : 128 ≤ entrySize) (hes : entrySize < 2 ^ 32) (hsize : size ≤ maxAllocation)
    (hk : k * entrySize < size) :
    scan creates entries size entrySize (fuel + 1) (k * entrySize) =
      if nonzeroGuid entries (k * entrySize) ≠ 0 ∧
          creates (partitionAt entries entrySize (k * entrySize)) = false then
        (entryEvents entries entrySize (k * entrySize), .panicked)
      else
        (entryEvents entries entrySize (k * entrySize) ++
          (scan creates entries size entrySize fuel ((k + 1) * entrySize)).1,
          (scan creates entries size entrySize fuel ((k + 1) * entrySize)).2) := by
  have hnext : (k * entrySize + entrySize) % 2 ^ 32 = (k + 1) * entrySize := by
    rw [Nat.succ_mul]
    refine Nat.mod_eq_of_lt ?_
    rw [maxAllocation] at hsize
    cases k with
    | zero => omega
    | succ k =>
      rw [Nat.succ_mul] at hk ⊢
      omega
  rw [scan, if_pos hk]
  simp only [hnext, entryEvents]
  by_cases hzero : nonzeroGuid entries (k * entrySize) = 0
  · simp [hzero]
  · cases hcreates : creates (partitionAt entries entrySize (k * entrySize)) <;> simp [hzero]

lemma scan_end (hk : size ≤ k * entrySize) :
    scan creates entries size entrySize (fuel + 1) (k * entrySize) = ([], .returned true) := by
  rw [scan, if_neg (by omega)]

lemma scan_returned (fuel : ℕ) (h128 : 128 ≤ entrySize) (hes : entrySize < 2 ^ 32)
    (hsize : size ≤ maxAllocation) (hfuel : size < fuel + k * entrySize) (hpos : fuel ≠ 0)
    (hcreated : Created creates entries size entrySize) :
    (scan creates entries size entrySize fuel (k * entrySize)).2 = .returned true := by
  induction fuel generalizing k with
  | zero => exact absurd rfl hpos
  | succ fuel ih =>
    rcases Nat.lt_or_ge (k * entrySize) size with hk | hk
    · have hrest := @ih (k + 1) (by rw [Nat.succ_mul]; omega) (by omega)
      rw [scan_step h128 hes hsize hk, if_neg]
      · exact hrest
      · rintro ⟨hzero, hno⟩
        rw [hcreated k hk hzero] at hno
        cases hno
    · rw [scan_end hk]

lemma scan_fits (creates : Partition → Bool) (fuel : ℕ) (h128 : 128 ≤ entrySize)
    (hes : entrySize < 2 ^ 32) (hsize : size ≤ maxAllocation) (hp : size ≤ p * pageSize)
    (hlive : live .entries = some p)
    (hfits : ∀ j, j * entrySize < size → EntryFits entries size p (j * entrySize)) :
    live.events (scan creates entries size entrySize fuel (k * entrySize)).1 = some live ∧
      ∀ i partition,
        .create i partition ∈ (scan creates entries size entrySize fuel (k * entrySize)).1 →
          i + sizeofEntry ≤ size := by
  induction fuel generalizing k with
  | zero => exact ⟨rfl, fun _ _ h => absurd h List.not_mem_nil⟩
  | succ fuel ih =>
    rcases Nat.lt_or_ge (k * entrySize) size with hk | hk
    · obtain ⟨h16, hwhole⟩ := hfits k hk
      obtain ⟨hevents, hcreate⟩ := @ih (k + 1)
      have hentry : live.events (entryEvents entries entrySize (k * entrySize)) = some live :=
        (events_entry_iff hlive _).mpr ⟨⟨h16, fun hzero => (hwhole hzero).trans hp⟩, rfl⟩
      have hown : ∀ i partition,
          .create i partition ∈ entryEvents entries entrySize (k * entrySize) →
            i + sizeofEntry ≤ size := by
        intro i partition hmem
        obtain ⟨rfl, hzero⟩ := create_mem_entry hmem
        exact hwhole hzero
      rw [scan_step h128 hes hsize hk]
      split_ifs
      · exact ⟨hentry, hown⟩
      · refine ⟨?_, fun i partition hmem => ?_⟩
        · rw [events_append, hentry, Option.bind_some, hevents]
        · exact (List.mem_append.mp hmem).elim (hown i partition) (hcreate i partition)
    · rw [scan_end hk]
      exact ⟨rfl, fun _ _ h => absurd h List.not_mem_nil⟩

/-- Entries that were read inside of the buffer, and made partitions as a whole, fit, and making
the partitions returned. -/
lemma fits_of_scan (creates : Partition → Bool) (fuel : ℕ) (h128 : 128 ≤ entrySize)
    (hes : entrySize < 2 ^ 32) (hsize : size ≤ maxAllocation) (hlive : live .entries = some p)
    (hfuel : size < fuel + k * entrySize)
    (hevents :
      live.events (scan creates entries size entrySize fuel (k * entrySize)).1 = some live')
    (hcreate : ∀ i partition,
      .create i partition ∈ (scan creates entries size entrySize fuel (k * entrySize)).1 →
        i + sizeofEntry ≤ size)
    (hends : ∃ out, (scan creates entries size entrySize fuel (k * entrySize)).2 = .returned out) :
    ∀ j ≥ k, j * entrySize < size → EntryFits entries size p (j * entrySize) ∧
      (nonzeroGuid entries (j * entrySize) ≠ 0 →
        creates (partitionAt entries entrySize (j * entrySize)) = true) := by
  induction fuel generalizing k with
  | zero =>
    intro j hj hlt
    have := Nat.mul_le_mul_right entrySize hj
    omega
  | succ fuel ih =>
    intro j hj hlt
    have hmono := Nat.mul_le_mul_right entrySize hj
    have hk : k * entrySize < size := by omega
    rw [scan_step h128 hes hsize hk] at hevents hcreate hends
    split_ifs at hevents hcreate hends with hstop
    · obtain ⟨out, hends⟩ := hends
      cases hends
    obtain ⟨l, hentry, hrest⟩ := (events_append_eq _ _).mp hevents
    obtain ⟨⟨h16, -⟩, rfl⟩ := (events_entry_iff hlive _).mp hentry
    rcases Nat.eq_or_lt_of_le hj with rfl | hj
    · refine ⟨⟨h16, fun hzero => ?_⟩, fun hzero => ?_⟩
      · refine hcreate (k * entrySize) (partitionAt entries entrySize (k * entrySize)) ?_
        rw [entryEvents, if_neg hzero]
        simp
      · by_contra hno
        exact hstop ⟨hzero, Bool.eq_false_of_not_eq_true hno⟩
    · refine ih (by rw [Nat.succ_mul]; omega) hrest (fun i partition hmem => ?_) hends j hj hlt
      exact hcreate i partition (List.mem_append_right _ hmem)

lemma forall_fits_iff (h128 : 128 ≤ entrySize) (hp : size ≤ p * pageSize) :
    (∀ j, j * entrySize < size → EntryFits entries size p (j * entrySize)) ↔
      size % entrySize = 0 ∨ sizeofEntry ≤ size % entrySize ∨
        size - size % entrySize + 16 ≤ p * pageSize ∧
          nonzeroGuid entries (size - size % entrySize) = 0 := by
  have hdiv := Nat.div_add_mod' size entrySize
  have hlast : size / entrySize * entrySize = size - size % entrySize := by omega
  have hentry : sizeofEntry = 128 := rfl
  constructor
  · intro hfits
    by_cases hzero : size % entrySize = 0
    · exact .inl hzero
    by_cases hlong : sizeofEntry ≤ size % entrySize
    · exact .inr (.inl hlong)
    obtain ⟨h16, hwhole⟩ := hfits (size / entrySize) (by omega)
    rw [hlast] at h16 hwhole
    refine .inr (.inr ⟨h16, ?_⟩)
    by_contra hguid
    have := hwhole hguid
    omega
  · intro hcut j hj
    rcases Nat.lt_or_ge j (size / entrySize) with hlt | hge
    · have hnext := Nat.mul_le_mul_right entrySize hlt
      rw [Nat.succ_mul] at hnext
      exact ⟨by omega, fun _ => by omega⟩
    · have heq : j = size / entrySize := by
        refine le_antisymm ?_ hge
        exact (Nat.le_div_iff_mul_le (by omega)).mpr (le_of_lt hj)
      rw [heq, hlast] at hj ⊢
      rcases hcut with hzero | hlong | ⟨h16, hguid⟩
      · omega
      · exact ⟨by omega, fun _ => by omega⟩
      · exact ⟨h16, fun hne => absurd hguid hne⟩

end

/-! ### One read -/

section

variable {i offset n count p : ℕ} {chunk : Chunk} {buffer b : Buffer} {es : List Event}

lemma update_cancel (hlive : live chunk = none) (pages : Option ℕ) :
    Function.update (Function.update live chunk pages) chunk none = live := by
  rw [Function.update_idem, ← hlive, Function.update_eq_self]

/-- A read leaves the allocations as they are, or runs over the end of its buffer. -/
lemma driveRead_events (hread : driveRead d io i offset chunk buffer n = (es, some (count, b)))
    (hchunk : live chunk = some p) (htransfer : live (.transfer i) = none) :
    live.events es = if count * d.blockSize ≤ p * pageSize then some live else none := by
  have hne : chunk ≠ .transfer i := by
    rintro rfl
    rw [hchunk] at htransfer
    cases htransfer
  rw [driveRead] at hread
  by_cases hend : offset ≥ d.blockCount
  · rw [if_pos hend] at hread
    cases hread
    rw [Nat.zero_mul, if_pos (Nat.zero_le _)]
    rfl
  rw [if_neg hend] at hread
  simp only at hread
  by_cases hzero : d.transferSize offset n = 0
  · rw [if_pos hzero] at hread
    cases hread
    rw [Nat.zero_mul, if_pos (Nat.zero_le _)]
    rfl
  rw [if_neg hzero] at hread
  by_cases hserves : Serves (pages (d.transferSize offset n * d.blockSize))
  · rw [if_neg (not_not_intro hserves)] at hread
    cases hread
    have hout : min (io i) (d.transferSize offset n) * d.blockSize ≤
        pages (d.transferSize offset n * d.blockSize) * pageSize :=
      (Nat.mul_le_mul_right _ (min_le_right _ _)).trans (le_pages _)
    simp only [Live.events, Live.event, htransfer, ↓reduceIte, Option.bind_some,
      Function.update_self, Nat.zero_add, if_pos hout, Function.update_of_ne hne, hchunk]
    by_cases hfits : min (io i) (d.transferSize offset n) * d.blockSize ≤ p * pageSize
    · simp only [if_pos hfits, Option.bind_some, Function.update_self, ↓reduceIte,
        update_cancel htransfer]
    · simp only [if_neg hfits, Option.bind_none]
  · rw [if_pos hserves] at hread
    cases hread

lemma driveRead_create (d : Drive) (io : ℕ → ℕ) (i offset : ℕ) (chunk : Chunk) (buffer : Buffer)
    (n j : ℕ) (partition : Partition) :
    .create j partition ∉ (driveRead d io i offset chunk buffer n).1 := by
  intro hmem
  rw [driveRead] at hmem
  simp only at hmem
  split_ifs at hmem
  · exact absurd hmem List.not_mem_nil
  · exact absurd hmem List.not_mem_nil
  · simp only [List.mem_cons, List.not_mem_nil, reduceCtorEq, or_self] at hmem
  · exact absurd hmem List.not_mem_nil

end

/-! ### The entries as a whole -/

/-- All blocks of the entries are read. -/
structure ReadsEntries (d : Drive) (io : ℕ → ℕ) (h : Buffer) : Prop where
  lba : h.get .entryLba < d.blockCount
  inside : (h.get .entryLba + alignedEntryBufferSize d h) % 2 ^ 64 ≤ d.blockCount
  transferred : alignedEntryBufferSize d h ≤ io 1
  blocks_le : alignedEntryBufferSize d h * d.blockSize ≤ maxAllocation

lemma alignedEntryBufferSize_pos (hbs : d.blockSize ≤ maxAllocation)
    (hpos : 0 < entryBufferSize h) (hle : entryBufferSize h ≤ maxAllocation) :
    0 < alignedEntryBufferSize d h := by
  have hblock : 0 < d.blockSize := blockSize_pos
  have hone : 1 ≤ (entryBufferSize h + d.blockSize - 1) / d.blockSize :=
    (Nat.le_div_iff_mul_le hblock).mpr (by omega)
  have hsum : (entryBufferSize h + d.blockSize - 1) / d.blockSize ≤
      entryBufferSize h + d.blockSize - 1 := Nat.div_le_self _ _
  rw [maxAllocation] at hbs hle
  rw [alignedEntryBufferSize, Nat.shiftRight_eq_div_pow]
  change 0 < (entryBufferSize h + d.blockSize - 1) / d.blockSize % 2 ^ 32
  rw [Nat.mod_eq_of_lt (by omega)]
  exact hone

lemma serves_blocks (hblocks : 0 < alignedEntryBufferSize d h) :
    Serves (pages (alignedEntryBufferSize d h * d.blockSize)) ↔
      alignedEntryBufferSize d h * d.blockSize ≤ maxAllocation :=
  serves_pages.trans (and_iff_right (Nat.mul_pos hblocks blockSize_pos))

lemma ReadsEntries.driveRead (em : Buffer) (hblocks : 0 < alignedEntryBufferSize d h)
    (hreads : ReadsEntries d io h) :
    ∃ es, driveRead d io 1 (h.get .entryLba) .entries em (alignedEntryBufferSize d h) =
      (es, some (alignedEntryBufferSize d h, entriesRead d h em)) := by
  obtain ⟨hlba, hinside, htransferred, hle⟩ := hreads
  have htransfer : d.transferSize (h.get .entryLba) (alignedEntryBufferSize d h) =
      alignedEntryBufferSize d h := by
    rw [transferSize, if_neg (by omega)]
  rw [Gpt.driveRead, if_neg (by omega)]
  simp only [htransfer]
  rw [if_neg (by omega), if_neg (not_not_intro ((serves_blocks hblocks).mpr hle)),
    min_eq_right htransferred]
  exact ⟨_, rfl⟩

lemma readsEntries_of_driveRead {es : List Event} {b : Buffer}
    (hblocks : 0 < alignedEntryBufferSize d h)
    (hread : driveRead d io 1 (h.get .entryLba) .entries em (alignedEntryBufferSize d h) =
      (es, some (alignedEntryBufferSize d h, b))) :
    ReadsEntries d io h := by
  have hlt : alignedEntryBufferSize d h < 2 ^ 32 := Nat.mod_lt _ (by norm_num)
  have hcount : d.blockCount < 2 ^ 64 := blockCount_lt
  rw [driveRead] at hread
  by_cases hlba : h.get .entryLba ≥ d.blockCount
  · rw [if_pos hlba, Prod.mk.injEq, Option.some.injEq, Prod.mk.injEq] at hread
    omega
  rw [if_neg hlba] at hread
  simp only at hread
  by_cases hzero : d.transferSize (h.get .entryLba) (alignedEntryBufferSize d h) = 0
  · rw [if_pos hzero, Prod.mk.injEq, Option.some.injEq, Prod.mk.injEq] at hread
    omega
  rw [if_neg hzero] at hread
  by_cases hserves :
      Serves (pages (d.transferSize (h.get .entryLba) (alignedEntryBufferSize d h) * d.blockSize))
  · rw [if_neg (not_not_intro hserves), Prod.mk.injEq, Option.some.injEq, Prod.mk.injEq] at hread
    have hmin := hread.2.1
    have hinside : (h.get .entryLba + alignedEntryBufferSize d h) % 2 ^ 64 ≤ d.blockCount := by
      by_contra hout
      rw [transferSize, if_pos (by omega)] at hmin
      omega
    have htransfer : d.transferSize (h.get .entryLba) (alignedEntryBufferSize d h) =
        alignedEntryBufferSize d h := by
      rw [transferSize, if_neg (by omega)]
    rw [htransfer] at hmin hserves
    exact ⟨by omega, hinside, by omega, (serves_blocks hblocks).mp hserves⟩
  · rw [if_pos hserves] at hread
    cases hread

/-- What is safe of the part after the header. -/
structure EntriesSafe (d : Drive) (io : ℕ → ℕ) (creates : Partition → Bool) (live : Live)
    (h em : Buffer) : Prop where
  ends : ∃ out, (loadEntries d io creates h em).2 = .returned out
  memory : live.events (loadEntries d io creates h em).1 = some live
  whole : ∀ i partition, .create i partition ∈ (loadEntries d io creates h em).1 →
    i + sizeofEntry ≤ entryBufferSize h

section

variable (hentries : live .entries = none) (htransfer : live (.transfer 1) = none)

include hentries in
lemma event_alloc (n : ℕ) :
    live.event (.alloc .entries n) = some (Function.update live .entries (some n)) := by
  rw [Live.event, if_pos hentries]

include hentries in
lemma event_dealloc (n : ℕ) :
    Live.event (Function.update live .entries (some n)) (.dealloc .entries n) = some live := by
  rw [Live.event, if_pos (Function.update_self ..), update_cancel hentries]

include htransfer in
lemma update_transfer (n : ℕ) :
    Function.update live .entries (some n) (.transfer 1) = none := by
  rw [Function.update_of_ne (by simp), htransfer]

include hentries htransfer in
lemma double_dealloc {es : List Event} {b : Buffer} {n count blocks : ℕ}
    (hread : driveRead d io 1 (h.get .entryLba) .entries em blocks = (es, some (count, b))) :
    live.events (.alloc .entries n :: es ++ [.dealloc .entries n, .dealloc .entries n]) = none := by
  have hself : Function.update live .entries (some n) .entries = some n :=
    Function.update_self ..
  have hevents := driveRead_events hread hself (update_transfer htransfer n)
  rw [List.cons_append, Live.events, event_alloc hentries, Option.bind_some, events_append,
    hevents]
  split_ifs
  · rw [Option.bind_some, Live.events, event_dealloc hentries, Option.bind_some, Live.events,
      Live.event, hentries, if_neg (by simp), Option.bind_none]
  · rw [Option.bind_none]

include hentries htransfer in
lemma EntriesSafe.reads (hbs : d.blockSize ≤ maxAllocation)
    (hsafe : EntriesSafe d io creates live h em) :
    0 < entryBufferSize h ∧ entryBufferSize h ≤ maxAllocation ∧ ReadsEntries d io h := by
  obtain ⟨⟨out, hends⟩, hmemory, hwhole⟩ := hsafe
  rw [loadEntries] at hends hmemory
  simp only at hends hmemory
  by_cases hserves : Serves (pages (entryBufferSize h))
  · rw [if_neg (not_not_intro hserves)] at hends hmemory
    obtain ⟨hpos, hle⟩ := serves_pages.mp hserves
    refine ⟨hpos, hle, ?_⟩
    rcases hread : driveRead d io 1 (h.get .entryLba) .entries em (alignedEntryBufferSize d h) with
      ⟨es, _ | ⟨count, b⟩⟩
    · rw [hread] at hends
      cases hends
    · rw [hread] at hmemory
      by_cases hcount : count = alignedEntryBufferSize d h
      · rw [hcount] at hread
        exact readsEntries_of_driveRead (alignedEntryBufferSize_pos hbs hpos hle) hread
      · simp only [ne_eq, hcount, not_false_eq_true, ↓reduceIte] at hmemory
        rw [double_dealloc hentries htransfer hread] at hmemory
        cases hmemory
  · rw [if_pos hserves] at hends
    cases hends

lemma loadEntries_eq (creates : Partition → Bool) {es : List Event}
    (hserves : Serves (pages (entryBufferSize h)))
    (hread : driveRead d io 1 (h.get .entryLba) .entries em (alignedEntryBufferSize d h) =
      (es, some (alignedEntryBufferSize d h, entriesRead d h em))) :
    loadEntries d io creates h em =
      if calculateCrc (entriesRead d h em) (entryBufferSize h) ≠ h.get .entryCrc then
        (.alloc .entries (pages (entryBufferSize h)) :: es ++
          [.access .entries 0 (entryBufferSize h),
            .dealloc .entries (pages (entryBufferSize h))], .returned false)
      else
        match scan creates (entriesRead d h em) (entryBufferSize h) (h.get .entrySize)
            (2 ^ 32) 0 with
        | (events', .returned out) =>
          (.alloc .entries (pages (entryBufferSize h)) :: es ++
            .access .entries 0 (entryBufferSize h) :: events' ++
              [.dealloc .entries (pages (entryBufferSize h))], .returned out)
        | (events', outcome) =>
          (.alloc .entries (pages (entryBufferSize h)) :: es ++
            .access .entries 0 (entryBufferSize h) :: events', outcome) := by
  rw [loadEntries]
  simp only
  rw [if_neg (not_not_intro hserves), hread]
  simp only
  rcases scan creates (entriesRead d h em) (entryBufferSize h) (h.get .entrySize) (2 ^ 32) 0
    with ⟨events', outcome⟩
  cases outcome <;> exact if_neg (not_not_intro rfl)

include hentries htransfer in
lemma events_filled {es rest : List Event} {b : Buffer} {n count blocks : ℕ}
    (hread : driveRead d io 1 (h.get .entryLba) .entries em blocks = (es, some (count, b))) :
    live.events (.alloc .entries n :: es ++ rest) =
      if count * d.blockSize ≤ n * pageSize then
        Live.events (Function.update live .entries (some n)) rest
      else none := by
  have hself : Function.update live .entries (some n) .entries = some n :=
    Function.update_self ..
  rw [List.cons_append, Live.events, event_alloc hentries, Option.bind_some, events_append,
    driveRead_events hread hself (update_transfer htransfer n)]
  split_ifs
  · rw [Option.bind_some]
  · rw [Option.bind_none]

section

variable {es : List Event} (hpos : 0 < entryBufferSize h) (hle : entryBufferSize h ≤ maxAllocation)
  (hread : driveRead d io 1 (h.get .entryLba) .entries em (alignedEntryBufferSize d h) =
    (es, some (alignedEntryBufferSize d h, entriesRead d h em)))

include hread in
lemma create_not_mem (i : ℕ) (partition : Partition) : .create i partition ∉ es := by
  have hmem := driveRead_create d io 1 (h.get .entryLba) .entries em
    (alignedEntryBufferSize d h) i partition
  rwa [hread] at hmem

include hentries htransfer hpos hle hread in
/-- Blocks that are longer than the pages of the buffer are written over its end. -/
lemma EntriesSafe.fits (hsafe : EntriesSafe d io creates live h em) :
    alignedEntryBufferSize d h * d.blockSize ≤ pages (entryBufferSize h) * pageSize := by
  have hmemory := hsafe.memory
  by_contra hfits
  rw [loadEntries_eq creates (serves_pages.mpr ⟨hpos, hle⟩) hread] at hmemory
  split_ifs at hmemory
  · rw [events_filled hentries htransfer hread, if_neg hfits] at hmemory
    cases hmemory
  · split at hmemory
    · rw [List.append_assoc, events_filled hentries htransfer hread, if_neg hfits] at hmemory
      cases hmemory
    · rw [events_filled hentries htransfer hread, if_neg hfits] at hmemory
      cases hmemory

variable (hfits : alignedEntryBufferSize d h * d.blockSize ≤
  pages (entryBufferSize h) * pageSize)

include hentries htransfer hpos hle hread hfits in
lemma entriesSafe_of_crc
    (hcrc : calculateCrc (entriesRead d h em) (entryBufferSize h) ≠ h.get .entryCrc) :
    EntriesSafe d io creates live h em := by
  have heq := loadEntries_eq creates (serves_pages.mpr ⟨hpos, hle⟩) hread
  have hself : Function.update live .entries (some (pages (entryBufferSize h))) .entries =
      some (pages (entryBufferSize h)) := Function.update_self ..
  have hsize := le_pages (entryBufferSize h)
  rw [if_pos hcrc] at heq
  refine ⟨⟨false, by rw [heq]⟩, ?_, fun i partition hmem => ?_⟩
  · rw [heq, events_filled hentries htransfer hread, if_pos hfits, Live.events,
      access_some hself (by omega), Option.bind_some, Live.events, event_dealloc hentries]
    rfl
  · rw [heq] at hmem
    simp only [List.cons_append, List.mem_cons, List.mem_append, reduceCtorEq, List.not_mem_nil,
      or_false, false_or] at hmem
    exact absurd hmem (create_not_mem hread i partition)

include hentries htransfer hpos hle hread hfits in
/-- With the right checksum, all depends on the last entry and on making the partitions. -/
lemma entriesSafe_iff_of_crc (h128 : 128 ≤ h.get .entrySize)
    (hcrc : calculateCrc (entriesRead d h em) (entryBufferSize h) = h.get .entryCrc) :
    EntriesSafe d io creates live h em ↔
      (entryBufferSize h % h.get .entrySize = 0 ∨
      sizeofEntry ≤ entryBufferSize h % h.get .entrySize ∨
      entryBufferSize h - entryBufferSize h % h.get .entrySize + 16 ≤
          pages (entryBufferSize h) * pageSize ∧
        nonzeroGuid (entriesRead d h em)
          (entryBufferSize h - entryBufferSize h % h.get .entrySize) = 0) ∧
      Created creates (entriesRead d h em) (entryBufferSize h) (h.get .entrySize) := by
  have heq := loadEntries_eq creates (serves_pages.mpr ⟨hpos, hle⟩) hread
  have hself : Function.update live .entries (some (pages (entryBufferSize h))) .entries =
      some (pages (entryBufferSize h)) := Function.update_self ..
  have hsize := le_pages (entryBufferSize h)
  have hes : h.get .entrySize < 2 ^ 32 := LittleEndian.get_lt ..
  have hfuel : entryBufferSize h < 2 ^ 32 := by
    rw [maxAllocation] at hle
    omega
  rw [if_neg (not_not_intro hcrc)] at heq
  rw [← forall_fits_iff h128 hsize]
  rcases hscan : scan creates (entriesRead d h em) (entryBufferSize h) (h.get .entrySize)
    (2 ^ 32) 0 with ⟨events', outcome⟩
  rw [hscan] at heq
  rw [← Nat.zero_mul (h.get .entrySize)] at hscan
  constructor
  · rintro ⟨⟨out, hends⟩, hmemory, hwhole⟩
    cases outcome with
    | panicked => rw [heq] at hends; cases hends
    | running => rw [heq] at hends; cases hends
    | returned out =>
      simp only at heq
      rw [heq] at hmemory hwhole
      rw [List.append_assoc, events_filled hentries htransfer hread, if_pos hfits,
        List.cons_append, Live.events, access_some hself (by omega), Option.bind_some,
        events_append_eq] at hmemory
      obtain ⟨l, hevents, -⟩ := hmemory
      have hall := fits_of_scan (k := 0) creates (2 ^ 32) h128 hes hle hself
        (by omega) (by rw [hscan]; exact hevents) (fun i partition hmem => ?_)
        ⟨out, by rw [hscan]⟩
      · exact ⟨fun j hj => (hall j (Nat.zero_le j) hj).1, fun j hj => (hall j (Nat.zero_le j) hj).2⟩
      · rw [hscan] at hmem
        refine hwhole i partition ?_
        exact List.mem_append_left _ (List.mem_append_right _ (List.mem_cons_of_mem _ hmem))
  · rintro ⟨hentry, hcreated⟩
    have hfits' := scan_fits (k := 0) creates (2 ^ 32) h128 hes hle hsize hself hentry
    have hends := scan_returned (k := 0) (2 ^ 32) h128 hes hle (by omega) (by norm_num) hcreated
    rw [hscan] at hfits' hends
    obtain ⟨hevents, hwhole⟩ := hfits'
    simp only at hends
    subst hends
    simp only at heq
    refine ⟨⟨true, by rw [heq]⟩, ?_, fun i partition hmem => ?_⟩
    · rw [heq, List.append_assoc, events_filled hentries htransfer hread, if_pos hfits,
        List.cons_append, Live.events, access_some hself (by omega), Option.bind_some,
        events_append, hevents, Option.bind_some, Live.events, event_dealloc hentries]
      rfl
    · rw [heq] at hmem
      simp only [List.cons_append, List.mem_cons, List.mem_append, reduceCtorEq,
        List.not_mem_nil, or_false, false_or] at hmem
      exact hwhole i partition (hmem.resolve_left (create_not_mem hread i partition))

end

include hentries htransfer in
/-- **The entries**: when all of them are read, the rest is safe if and only if the blocks fit in
the buffer, a used entry is not cut off and making the partitions returns. -/
lemma entriesSafe_iff (io : ℕ → ℕ) (creates : Partition → Bool) (em : Buffer)
    (hbs : d.blockSize ≤ maxAllocation) (h128 : 128 ≤ h.get .entrySize) :
    EntriesSafe d io creates live h em ↔ Harmless d io creates h em := by
  constructor
  · intro hsafe
    obtain ⟨hpos, hle, hreads⟩ := hsafe.reads hentries htransfer hbs
    obtain ⟨es, hread⟩ := hreads.driveRead em (alignedEntryBufferSize_pos hbs hpos hle)
    have hfits := hsafe.fits hentries htransfer hpos hle hread
    have hright := fun hcrc =>
      (entriesSafe_iff_of_crc hentries htransfer hpos hle hread hfits h128 hcrc).mp hsafe
    exact ⟨hpos, hle, hreads.lba, hreads.inside, hreads.transferred, hreads.blocks_le, hfits,
      fun hcrc => (hright hcrc).1, fun hcrc => (hright hcrc).2⟩
  · rintro ⟨hpos, hle, hlba, hinside, htransferred, hblocks, hfits, hwhole, hcreated⟩
    have hreads : ReadsEntries d io h := ⟨hlba, hinside, htransferred, hblocks⟩
    obtain ⟨es, hread⟩ := hreads.driveRead em (alignedEntryBufferSize_pos hbs hpos hle)
    by_cases hcrc : calculateCrc (entriesRead d h em) (entryBufferSize h) = h.get .entryCrc
    · exact (entriesSafe_iff_of_crc hentries htransfer hpos hle hread hfits h128 hcrc).mpr
        ⟨hwhole hcrc, hcreated hcrc⟩
    · exact entriesSafe_of_crc hentries htransfer hpos hle hread hfits hcrc

end

/-! ### The table as a whole -/

/-- The header is allocated. -/
def headerLive (d : Drive) : Live :=
  Function.update Live.none .header (some (pages d.blockSize))

lemma headerLive_header (d : Drive) : headerLive d .header = some (pages d.blockSize) :=
  Function.update_self ..

lemma headerLive_of_ne {chunk : Chunk} (hne : chunk ≠ .header) : headerLive d chunk = none :=
  Function.update_of_ne hne _ _

lemma headerLive_dealloc (d : Drive) :
    (headerLive d).event (.dealloc .header (pages d.blockSize)) = some Live.none := by
  rw [Live.event, if_pos (headerLive_header d), headerLive, Function.update_idem]
  exact congrArg some (Function.update_eq_self Chunk.header Live.none)

lemma eq_headerLive {l : Live}
    (h : l.events [.dealloc .header (pages d.blockSize)] = some Live.none) : l = headerLive d := by
  rw [Live.events, Live.event] at h
  split_ifs at h with hlive
  · rw [Option.bind_some, Live.events, Option.some.injEq] at h
    rw [headerLive, ← h, Function.update_idem, ← hlive, Function.update_eq_self]
  · cases h

lemma header_read (io : ℕ → ℕ) (hm : Buffer) (hbs : d.blockSize ≤ maxAllocation) :
    ∃ es count h, driveRead d io 0 1 .header hm 1 = (es, some (count, h)) ∧ count ≤ 1 := by
  rw [driveRead]
  by_cases hend : 1 ≥ d.blockCount
  · rw [if_pos hend]
    exact ⟨[], 0, hm, rfl, Nat.zero_le 1⟩
  have htransfer : d.transferSize 1 1 = 1 := by
    rw [transferSize, if_neg (by omega)]
  rw [if_neg hend]
  simp only [htransfer, Nat.one_mul]
  rw [if_neg one_ne_zero, if_neg (not_not_intro (serves_pages.mpr ⟨blockSize_pos, hbs⟩))]
  exact ⟨_, _, _, rfl, min_le_right _ _⟩

lemma events_header {es rest : List Event} {count : ℕ} (hcount : count ≤ 1)
    (hread : driveRead d io 0 1 .header hm 1 = (es, some (count, h))) :
    Live.none.events (.alloc .header (pages d.blockSize) :: es ++ rest) =
      (headerLive d).events rest := by
  have hle : count * d.blockSize ≤ pages d.blockSize * pageSize := by
    refine le_trans ?_ (le_pages d.blockSize)
    exact (Nat.mul_le_mul_right _ hcount).trans (Nat.one_mul _).le
  have halloc : Live.none.event (.alloc .header (pages d.blockSize)) = some (headerLive d) :=
    by rw [Live.event]; exact if_pos rfl
  rw [List.cons_append, Live.events, halloc, Option.bind_some, events_append,
    driveRead_events hread (headerLive_header d) (headerLive_of_ne (by simp)), if_pos hle,
    Option.bind_some]

lemma safe_of_rejected (rest : List Event) {es : List Event} {count : ℕ} (hcount : count ≤ 1)
    (hread : driveRead d io 0 1 .header hm 1 = (es, some (count, h)))
    (hload : load d io creates hm em = (.alloc .header (pages d.blockSize) :: es ++ rest ++
      [.dealloc .header (pages d.blockSize)], .returned false))
    (hrest : (headerLive d).events rest = some (headerLive d))
    (hcreate : ∀ i partition, .create i partition ∉ rest) : Safe d io creates hm em := by
  refine ⟨⟨false, by rw [hload]⟩, ?_, fun i partition hmem => ?_⟩
  · rw [hload, List.append_assoc, events_header hcount hread, events_append, hrest,
      Option.bind_some, Live.events, headerLive_dealloc]
    rfl
  · have hes := driveRead_create d io 0 1 .header hm 1 i partition
    rw [hread] at hes
    rw [hload] at hmem
    simp only [List.cons_append, List.mem_cons, List.mem_append, reduceCtorEq,
      List.not_mem_nil, or_false, false_or] at hmem
    exact absurd hmem (not_or_intro hes (hcreate i partition))

/-- The accesses that check the header. -/
def headerChecks (h : Buffer) : List Event :=
  [.access .header 0 sizeofHeader, .access .header 0 ((h.set .crc 0).get .headerSize)]

lemma access_header {n : ℕ} (hn : n ≤ pages d.blockSize * pageSize) :
    (headerLive d).event (.access .header 0 n) = some (headerLive d) := by
  rw [Live.event, headerLive_header]
  simp only [Nat.zero_add, if_pos hn]

lemma sizeofHeader_le (d : Drive) : sizeofHeader ≤ pages d.blockSize * pageSize := by
  have hpos : 0 < d.blockSize := blockSize_pos
  simp only [sizeofHeader, pages, pageSize]
  omega

lemma events_headerChecks (hsize : h.get .headerSize ≤ d.blockSize) :
    (headerLive d).events (headerChecks h) = some (headerLive d) := by
  have hset : (h.set .crc 0).get .headerSize = h.get .headerSize := Buffer.get_set_of_ne (by decide)
  rw [headerChecks, Live.events, access_header (sizeofHeader_le d), Option.bind_some, Live.events,
    hset, access_header (hsize.trans (le_pages _))]
  rfl

lemma safe_of_not_accepted (hbs : d.blockSize ≤ maxAllocation)
    (hno : ∀ h, ¬Accepted d io hm h) : Safe d io creates hm em := by
  obtain ⟨es, count, h, hread, hcount⟩ := header_read io hm hbs
  have hserves : Serves (pages d.blockSize) := serves_pages.mpr ⟨blockSize_pos, hbs⟩
  have hload : load d io creates hm em = load d io creates hm em := rfl
  conv_rhs at hload => rw [load]
  simp only at hload
  rw [if_neg (not_not_intro hserves), hread] at hload
  simp only at hload
  by_cases hone : count ≠ 1
  · rw [if_pos hone] at hload
    refine safe_of_rejected [] hcount hread ?_ rfl fun _ _ => List.not_mem_nil
    rw [hload, List.append_nil]
  rw [if_neg hone] at hload
  by_cases hsig : h.get .signature ≠ tableHeaderSignature ∨ h.get .headerSize > d.blockSize
  · rw [if_pos hsig] at hload
    refine safe_of_rejected [.access .header 0 sizeofHeader] hcount hread ?_ ?_ ?_
    · rw [hload, List.append_assoc]
      rfl
    · rw [Live.events, access_header (sizeofHeader_le d)]
      rfl
    · simp
  rw [if_neg hsig] at hload
  push Not at hsig hone
  by_cases hcrc : calculateCrc (h.set .crc 0) ((h.set .crc 0).get .headerSize) ≠ h.get .crc ∨
      (h.set .crc 0).get .entrySize < 128
  · rw [if_pos hcrc] at hload
    exact safe_of_rejected (headerChecks h) hcount hread hload
      (events_headerChecks hsig.2) (by simp [headerChecks])
  · push Not at hcrc
    refine absurd ⟨?_, hsig.1, hsig.2, hcrc.1, hcrc.2⟩ (hno h)
    rw [hread, hone]

lemma load_accepted (creates : Partition → Bool) (em : Buffer) {es : List Event}
    (hbs : d.blockSize ≤ maxAllocation)
    (hread : driveRead d io 0 1 .header hm 1 = (es, some (1, h)))
    (hacc : Accepted d io hm h) :
    load d io creates hm em =
      match loadEntries d io creates (h.set .crc 0) em with
      | (events, .returned out) =>
        (.alloc .header (pages d.blockSize) :: es ++ headerChecks h ++ events ++
          [.dealloc .header (pages d.blockSize)], .returned out)
      | (events, outcome) =>
        (.alloc .header (pages d.blockSize) :: es ++ headerChecks h ++ events, outcome) := by
  have hserves : Serves (pages d.blockSize) := serves_pages.mpr ⟨blockSize_pos, hbs⟩
  have hsig := hacc.signature
  have hsize := hacc.headerSize
  have hcrc := hacc.crc
  have hentry := hacc.entrySize
  rw [load]
  simp only
  rw [if_neg (not_not_intro hserves), hread]
  simp only
  rw [if_neg (not_not_intro rfl), if_neg (by omega), if_neg (by omega)]
  rcases loadEntries d io creates (h.set .crc 0) em with ⟨events, outcome⟩
  cases outcome <;> rfl

/-- **Safety** of an accepted table is that of its entries. -/
lemma safe_iff_of_accepted (hbs : d.blockSize ≤ maxAllocation) (hacc : Accepted d io hm h) :
    Safe d io creates hm em ↔ EntriesSafe d io creates (headerLive d) (h.set .crc 0) em := by
  obtain ⟨es, count, h', hread, hcount⟩ := header_read io hm hbs
  have heq := hacc.read
  rw [hread, Option.some.injEq, Prod.mk.injEq] at heq
  obtain ⟨rfl, rfl⟩ := heq
  have hload := load_accepted creates em hbs hread hacc
  have hloaded : loadedHeader d io hm = h'.set .crc 0 := by rw [loadedHeader, hread]
  have hchecks := events_headerChecks hacc.headerSize
  have hes := driveRead_create d io 0 1 .header hm 1
  rw [hread] at hes
  rcases hentries : loadEntries d io creates (h'.set .crc 0) em with ⟨events, outcome⟩
  rw [hentries] at hload
  have hevents : ∀ rest, Live.none.events (.alloc .header (pages d.blockSize) :: es ++
      headerChecks h' ++ rest) = (headerLive d).events rest := by
    intro rest
    rw [List.append_assoc, events_header hcount hread, events_append, hchecks, Option.bind_some]
  constructor
  · rintro ⟨⟨out, hends⟩, hmemory, hwhole⟩
    cases outcome with
    | panicked => rw [hload] at hends; cases hends
    | running => rw [hload] at hends; cases hends
    | returned out' =>
      simp only at hload
      rw [hload, List.append_assoc, hevents, events_append_eq] at hmemory
      obtain ⟨l, hl, hdealloc⟩ := hmemory
      rw [eq_headerLive hdealloc] at hl
      refine ⟨⟨out', by rw [hentries]⟩, by rw [hentries, hl], fun i partition hmem => ?_⟩
      rw [hentries] at hmem
      rw [hload, hloaded] at hwhole
      exact hwhole i partition (List.mem_append_left _ (List.mem_append_right _ hmem))
  · rintro ⟨⟨out, hends⟩, hmemory, hwhole⟩
    rw [hentries] at hends hmemory hwhole
    simp only at hends
    subst hends
    simp only at hload
    refine ⟨⟨out, by rw [hload]⟩, ?_, fun i partition hmem => ?_⟩
    · rw [hload, List.append_assoc, hevents, events_append, hmemory, Option.bind_some, Live.events,
        headerLive_dealloc]
      rfl
    · rw [hloaded]
      rw [hload] at hmem
      simp only [headerChecks, List.cons_append, List.mem_cons, List.mem_append, reduceCtorEq,
        List.not_mem_nil, or_false, false_or, hes] at hmem
      exact hwhole i partition hmem

/-- **Loading a partition table** is safe if and only if the header fits in a bucket of the
allocator and a table that passes the checks is harmless. -/
theorem safe_iff (d : Drive) (io : ℕ → ℕ) (creates : Partition → Bool)
    (headerMemory entryMemory : Buffer) :
    Safe d io creates headerMemory entryMemory ↔
      d.blockSize ≤ maxAllocation ∧
        ∀ h, Accepted d io headerMemory h → Harmless d io creates (h.set .crc 0) entryMemory := by
  by_cases hbs : d.blockSize ≤ maxAllocation
  swap
  · refine iff_of_false (fun hsafe => ?_) fun h => hbs h.1
    obtain ⟨out, hends⟩ := hsafe.ends
    have hno : ¬Serves (pages d.blockSize) := fun h => hbs (serves_pages.mp h).2
    rw [load] at hends
    simp only at hends
    rw [if_pos hno] at hends
    cases hends
  by_cases hacc : ∃ h, Accepted d io headerMemory h
  swap
  · push Not at hacc
    exact iff_of_true (safe_of_not_accepted hbs hacc) ⟨hbs, fun h hh => absurd hh (hacc h)⟩
  obtain ⟨h, hacc⟩ := hacc
  have hentries := entriesSafe_iff (headerLive_of_ne (d := d) (by simp))
    (headerLive_of_ne (by simp)) io creates entryMemory hbs hacc.entrySize
  rw [safe_iff_of_accepted hbs hacc, hentries]
  constructor
  · intro hharmless
    refine ⟨hbs, fun h' hacc' => ?_⟩
    have heq := hacc.read.symm.trans hacc'.read
    rw [Option.some.injEq, Prod.mk.injEq] at heq
    rwa [← heq.2]
  · exact fun hall => hall.2 h hacc

/-! ### The partitions -/

/-- The partitions of a run, in their order. -/
def partitions (events : List Event) : List Partition :=
  events.filterMap Event.partition?

/-- The loop that returns has made the partitions of `scanEntries`. -/
lemma scanEntries_of_scan {entries : Buffer} {entrySize fuel i : ℕ} {out : Bool}
    (hends : (scan creates entries size entrySize fuel i).2 = .returned out) :
    out = true ∧ scanEntries entries size entrySize fuel i =
      some (partitions (scan creates entries size entrySize fuel i).1) := by
  induction fuel generalizing i with
  | zero => cases hends
  | succ fuel ih =>
    rw [scan] at hends ⊢
    rw [scanEntries]
    by_cases hi : i < size
    · rw [if_pos hi] at hends ⊢
      rw [if_pos hi]
      simp only at hends ⊢
      split_ifs at hends ⊢ with hzero hcreates
      · exact ih hends
      · obtain ⟨hout, hscan⟩ := ih hends
        exact ⟨hout, by rw [hscan]; rfl⟩
    · rw [if_neg hi] at hends ⊢
      rw [if_neg hi]
      cases hends
      exact ⟨rfl, rfl⟩

lemma read_of_driveRead {i offset n : ℕ} {chunk : Chunk} {buffer b : Buffer} {es : List Event}
    (hpos : 0 < n) (hread : driveRead d io i offset chunk buffer n = (es, some (n, b))) :
    d.read offset buffer n = (n, b) ∧ partitions es = [] := by
  have hcount : d.blockCount < 2 ^ 64 := blockCount_lt
  rw [driveRead] at hread
  rw [Drive.read]
  by_cases hend : offset ≥ d.blockCount
  · rw [if_pos hend, Prod.mk.injEq, Option.some.injEq, Prod.mk.injEq] at hread
    omega
  rw [if_neg hend] at hread ⊢
  simp only at hread ⊢
  by_cases hzero : d.transferSize offset n = 0
  · rw [if_pos hzero, Prod.mk.injEq, Option.some.injEq, Prod.mk.injEq] at hread
    omega
  rw [if_neg hzero] at hread
  by_cases hserves : Serves (pages (d.transferSize offset n * d.blockSize))
  swap
  · rw [if_pos hserves] at hread
    cases hread
  rw [if_neg (not_not_intro hserves), Prod.mk.injEq, Option.some.injEq, Prod.mk.injEq] at hread
  obtain ⟨rfl, hmin, rfl⟩ := hread
  have htransfer : d.transferSize offset n = n := by
    rw [transferSize] at hmin ⊢
    split_ifs at hmin ⊢
    · omega
    · rfl
  rw [htransfer] at hmin ⊢
  rw [hmin]
  exact ⟨rfl, rfl⟩

lemma scanEntries_of_loadEntries (hbs : d.blockSize ≤ maxAllocation)
    (hends : (loadEntries d io creates h em).2 = .returned true) :
    entryBufferSize h ≠ 0 ∧
      ∃ entries, d.read (h.get .entryLba) em (alignedEntryBufferSize d h) =
          (alignedEntryBufferSize d h, entries) ∧
        calculateCrc entries (entryBufferSize h) = h.get .entryCrc ∧
        scanEntries entries (entryBufferSize h) (h.get .entrySize) (2 ^ 32) 0 =
          some (partitions (loadEntries d io creates h em).1) := by
  rw [loadEntries] at hends ⊢
  simp only at hends ⊢
  by_cases hserves : Serves (pages (entryBufferSize h))
  swap
  · rw [if_pos hserves] at hends
    cases hends
  rw [if_neg (not_not_intro hserves)] at hends ⊢
  obtain ⟨hpos, hle⟩ := serves_pages.mp hserves
  refine ⟨hpos.ne', ?_⟩
  rcases hread : driveRead d io 1 (h.get .entryLba) .entries em (alignedEntryBufferSize d h) with
    ⟨es, _ | ⟨count, entries⟩⟩
  · rw [hread] at hends
    cases hends
  rw [hread] at hends
  simp only at hends ⊢
  split_ifs at hends ⊢ with hcount hcrc
  · cases hends
  · cases hends
  push Not at hcount hcrc
  subst hcount
  obtain ⟨hreads, hes⟩ := read_of_driveRead (alignedEntryBufferSize_pos hbs hpos hle) hread
  refine ⟨entries, hreads, hcrc, ?_⟩
  rcases hscan : scan creates entries (entryBufferSize h) (h.get .entrySize) (2 ^ 32) 0
    with ⟨events, outcome⟩
  rw [hscan] at hends
  cases outcome with
  | panicked => cases hends
  | running => cases hends
  | returned out =>
    rw [(scanEntries_of_scan (congrArg Prod.snd hscan)).2, hscan]
    rw [partitions] at hes
    simp [partitions, List.filterMap_cons, Event.partition?, hes]

/-- **A run that accepts the table** makes the partitions that are read off it. -/
theorem loadPartitions_of_load
    (hends : (load d io creates hm em).2 = .returned true) :
    loadPartitions d hm em = some (partitions (load d io creates hm em).1) := by
  rw [load] at hends ⊢
  simp only at hends ⊢
  by_cases hserves : Serves (pages d.blockSize)
  swap
  · rw [if_pos hserves] at hends
    cases hends
  rw [if_neg (not_not_intro hserves)] at hends ⊢
  rcases hread : driveRead d io 0 1 .header hm 1 with ⟨es, _ | ⟨count, h⟩⟩
  · rw [hread] at hends
    cases hends
  rw [hread] at hends
  simp only at hends ⊢
  split_ifs at hends ⊢ with hone hsig hcrc
  · cases hends
  · cases hends
  · cases hends
  rw [not_not] at hone
  subst hone
  obtain ⟨hreads, hes⟩ := read_of_driveRead one_pos hread
  rcases hload : loadEntries d io creates (h.set .crc 0) em with ⟨events, outcome⟩
  rw [hload] at hends
  cases outcome with
  | panicked => cases hends
  | running => cases hends
  | returned out =>
    cases hends
    obtain ⟨hsize, entries, hentries, hentryCrc, hscan⟩ :=
      scanEntries_of_loadEntries (serves_pages.mp hserves).2 (congrArg Prod.snd hload)
    push Not at hsig hcrc
    rw [loadPartitions, hreads]
    simp only
    rw [if_neg (by simp [hsig]), if_neg (not_not_intro hcrc.1), if_neg (by omega), if_neg hsize,
      hentries]
    simp only
    rw [if_neg (not_not_intro rfl), if_neg (not_not_intro hentryCrc), hscan, hload]
    rw [partitions] at hes
    simp [partitions, List.filterMap_cons, Event.partition?, hes]

/-- A drive of two blocks. The table in block `1` has no bytes under its checksum, and its four
entries start behind the last block. -/
def cutDrive : Drive where
  readOnly := false
  blockCount := 2
  blockSizeShift := 9
  block b i :=
    if b = 1 then
      if i < 8 then LittleEndian.byte tableHeaderSignature i
      else if i = 72 then 2
      else if i = 80 then 4
      else if i = 84 then 128
      else 0
    else 0
  size_lt := by norm_num

/-- Its header, as it is read. -/
def cutHeader : Buffer := fun j =>
  if j < 1 * cutDrive.blockSize then
    cutDrive.block (offsetMask 1 + j / cutDrive.blockSize) (j % cutDrive.blockSize)
  else 0

lemma cutDrive_accepted : Accepted cutDrive (fun _ => 2) (fun _ => 0) cutHeader where
  read := rfl
  signature := by decide +kernel
  headerSize := by decide +kernel
  crc := by decide +kernel
  entrySize := by decide +kernel

/-- The read of the entries fails, and the exit frees their buffer twice. -/
theorem cutDrive_not_safe :
    ¬Safe cutDrive (fun _ => 2) (fun _ => true) (fun _ => 0) (fun _ => 0) := by
  intro hsafe
  have hbs : cutDrive.blockSize ≤ maxAllocation := by decide
  have hentries := (safe_iff_of_accepted hbs cutDrive_accepted).mp hsafe
  have hreads := hentries.reads (headerLive_of_ne (by simp)) (headerLive_of_ne (by simp)) hbs
  exact absurd hreads.2.2.lba (by decide +kernel)

end

end KernelModel.Gpt
