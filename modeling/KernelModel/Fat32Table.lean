import KernelModel.Fat32
import KernelModel.LinkedQueue

/-!
The allocation table, without the sectors that are loaded.
-/

namespace KernelModel.Fat32

open LittleEndian LinkedQueue

section

variable (fs : Filesystem)

/-- The entry of a cluster: in memory when its sector is loaded, otherwise on the disk. -/
def table (v : Volume) (c : ℕ) : ℕ :=
  if v.fatBitmap (c / entriesPerSector) then get 4 v.fatData (4 * c) % 2 ^ 28
  else get 4 (v.disk (fs.config.startLba + fs.reservedSectors + c / entriesPerSector))
    (4 * (c % entriesPerSector)) % 2 ^ 28

/-- The cluster after `c` in its chain. -/
def next (t : ℕ → ℕ) (c : ℕ) : Option ℕ :=
  if ValidCluster fs c ∧ ValidCluster fs (t c) then some (t c) else none

/-- The tables agree on all clusters. -/
def SameTable (v v' : Volume) : Prop := ∀ c, ValidCluster fs c → table fs v' c = table fs v c

/-- A volume whose table has an entry for every cluster, and whose sectors have 32-bit numbers. -/
structure Regular : Prop where
  clusterSize_pos : 0 < sectorsPerCluster fs
  first : fs.firstClusterLba =
    fs.config.startLba + fs.reservedSectors + fs.fatCount * fs.sectorsPerFat
  fatCount_pos : 0 < fs.fatCount
  entries : clusterCount fs ≤ entriesPerSector * fs.sectorsPerFat
  small : clusterCount fs ≤ endOfChain
  last : fs.firstClusterLba + clusterCount fs ≤ 2 ^ 32

end

section

variable {fs : Filesystem} {v v' : Volume} {c i : ℕ}

lemma SameTable.refl (v : Volume) : SameTable fs v v := fun _ _ => rfl

lemma SameTable.trans {v'' : Volume} (h : SameTable fs v v') (h' : SameTable fs v' v'') :
    SameTable fs v v'' := fun c hc => (h' c hc).trans (h c hc)

lemma SameTable.next_eq (h : SameTable fs v v') (c : ℕ) :
    next fs (table fs v') c = next fs (table fs v) c := by
  by_cases hc : ValidCluster fs c
  · rw [next, next, h c hc]
  · rw [next, next, if_neg (fun h => hc h.1), if_neg (fun h => hc h.1)]

/-! ### Loading -/

lemma load_disk (i : ℕ) : (v.load fs i).disk = v.disk := by
  rw [Volume.load]
  split_ifs <;> rfl

lemma load_bitmap_self (i : ℕ) : (v.load fs i).fatBitmap i = true := by
  rw [Volume.load]
  split_ifs with h
  · exact h
  · exact Function.update_self ..

lemma load_bitmap_of_true {j : ℕ} (h : v.fatBitmap j = true) :
    (v.load fs i).fatBitmap j = true := by
  rw [Volume.load]
  split_ifs
  · exact h
  · by_cases hij : j = i
    · rw [hij]
      exact Function.update_self ..
    · exact (Function.update_of_ne hij ..).trans h

lemma table_of_loaded (h : v.fatBitmap (c / entriesPerSector) = true) :
    table fs v c = get 4 v.fatData (4 * c) % 2 ^ 28 := if_pos h

lemma table_of_not_loaded (h : v.fatBitmap (c / entriesPerSector) = false) :
    table fs v c = get 4 (v.disk (fs.config.startLba + fs.reservedSectors + c / entriesPerSector))
      (4 * (c % entriesPerSector)) % 2 ^ 28 := by
  rw [table, h]
  exact if_neg Bool.false_ne_true

lemma table_load (c i : ℕ) : table fs (v.load fs i) c = table fs v c := by
  by_cases hi : v.fatBitmap i = true
  · rw [Volume.load, if_pos hi]
  have hload : v.load fs i = { v with
      fatBitmap := Function.update v.fatBitmap i true
      fatData := fun j =>
        if i * sectorSize ≤ j ∧ j < (i + 1) * sectorSize then
          v.disk (fs.config.startLba + fs.reservedSectors + i) (j - i * sectorSize)
        else v.fatData j } := by
    rw [Volume.load, if_neg hi]
  by_cases hc : c / entriesPerSector = i
  · have hdata : ∀ k < 4, (v.load fs i).fatData (4 * c + k) =
        v.disk (fs.config.startLba + fs.reservedSectors + i)
          (4 * (c % entriesPerSector) + k) := by
      intro k hk
      simp only [entriesPerSector] at hc ⊢
      have hpos : 4 * c + k - i * sectorSize = 4 * (c % 128) + k := by
        rw [sectorSize]
        omega
      rw [hload]
      simp only [hpos]
      rw [if_pos]
      rw [sectorSize]
      omega
    rw [table_of_loaded (by rw [hc]; exact load_bitmap_self i), get_congr_add hdata,
      table_of_not_loaded (by rwa [hc, ← Bool.not_eq_true]), hc]
  · have hdata : get 4 (v.load fs i).fatData (4 * c) = get 4 v.fatData (4 * c) := by
      refine get_congr fun j h1 h2 => ?_
      simp only [entriesPerSector] at hc
      rw [hload]
      simp only
      rw [if_neg]
      rw [sectorSize]
      omega
    have hbitmap : (v.load fs i).fatBitmap (c / entriesPerSector) =
        v.fatBitmap (c / entriesPerSector) := by
      rw [hload]
      exact Function.update_of_ne hc ..
    rw [table, table, hbitmap, hdata, load_disk]

/-- **Reading** the table: the value, and nothing else changes. -/
lemma getClusterValue_fst : (getClusterValue fs v c).1 =
    if ValidCluster fs c then table fs v c else endOfChain := by
  rw [getClusterValue]
  by_cases hc : ValidCluster fs c
  · rw [if_neg (not_not_intro hc), if_pos hc, ← table_load c (c / entriesPerSector)]
    exact (table_of_loaded (load_bitmap_self _)).symm
  · rw [if_pos hc, if_neg hc]

lemma table_getClusterValue (c' : ℕ) :
    table fs (getClusterValue fs v c).2 c' = table fs v c' := by
  rw [getClusterValue]
  split_ifs
  · exact table_load _ _
  · rfl

lemma getClusterValue_disk : (getClusterValue fs v c).2.disk = v.disk := by
  rw [getClusterValue]
  split_ifs
  · exact load_disk _
  · rfl

/-- The sector of a cluster is loaded once the cluster has been looked at. -/
def Loaded (v : Volume) (c : ℕ) : Prop := v.fatBitmap (c / entriesPerSector) = true

lemma Loaded.getClusterValue {c' : ℕ} (h : Loaded v c') :
    Loaded (getClusterValue fs v c).2 c' := by
  rw [Fat32.getClusterValue]
  split_ifs
  · exact load_bitmap_of_true h
  · exact h

/-! ### Writing -/

lemma table_write {lba count : ℕ} {buffer : Buffer}
    (h : ¬(lba ≤ fs.config.startLba + fs.reservedSectors + c / entriesPerSector ∧
      fs.config.startLba + fs.reservedSectors + c / entriesPerSector < lba + count)) :
    table fs (v.write lba count buffer) c = table fs v c := by
  have hdisk : (v.write lba count buffer).disk
      (fs.config.startLba + fs.reservedSectors + c / entriesPerSector) =
        v.disk (fs.config.startLba + fs.reservedSectors + c / entriesPerSector) := by
    funext j
    exact if_neg fun hin => h ⟨hin.1, hin.2.1⟩
  rw [table, table, hdisk]
  rfl

lemma Loaded.setClusterValue {c' : ℕ} (h : Loaded v c') (value : ℕ) :
    Loaded (setClusterValue fs v c value) c' := h

/-! ### Chains -/

lemma not_valid_endOfChain (hsmall : clusterCount fs ≤ endOfChain) :
    ¬ValidCluster fs endOfChain := fun h => absurd h.2 (Nat.not_lt.mpr hsmall)

lemma ValidCluster.ne_zero (h : ValidCluster fs c) : c ≠ 0 := by
  have := h.1
  omega

lemma getNextCluster_fst (hsmall : clusterCount fs ≤ endOfChain) :
    (getNextCluster fs v c).1 = (next fs (table fs v) c).getD 0 := by
  rw [getNextCluster, next]
  simp only [getClusterValue_fst]
  by_cases hc : ValidCluster fs c
  · rw [if_pos hc]
    by_cases hnext : ValidCluster fs (table fs v c)
    · rw [if_pos hnext, if_pos ⟨hc, hnext⟩]
      rfl
    · rw [if_neg hnext, if_neg fun h => hnext h.2]
      rfl
  · rw [if_neg hc, if_neg (not_valid_endOfChain hsmall), if_neg fun h => hc h.1]
    rfl

lemma table_getNextCluster (c' : ℕ) : table fs (getNextCluster fs v c).2 c' = table fs v c' :=
  table_getClusterValue c'

/-- What `_alloc_cluster` does: a free cluster becomes the end of a chain, or there is none. -/
structure Allocated (fs : Filesystem) (v : Volume) (out : ℕ × Volume) : Prop where
  valid : ValidCluster fs out.1
  free : table fs v out.1 = 0
  table_eq : table fs out.2 = Function.update (table fs v) out.1 endOfChain
  loaded : ∀ c, Loaded v c ∨ c = out.1 → Loaded out.2 c

end

end KernelModel.Fat32
