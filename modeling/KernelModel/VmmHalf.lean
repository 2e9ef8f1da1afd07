import KernelModel.VmmShare
import KernelModel.Runs

/-!
One kernel half for all page maps.

The upper entries of the kernel's page map are copied into every new one, so they must stay. A
page may be mapped and unmapped in the kernel half as long as its removal leaves an entry in one
of the tables above it.
-/

namespace KernelModel.Vmm

open Runs

/-- The indices on the way to an address, the last one first. -/
def path (virtualAddress : ℕ) : List ℕ :=
  [index virtualAddress 12, index virtualAddress 21, index virtualAddress 30,
    index virtualAddress 39]

/-- The entry at a path. -/
def entryAt (s : State) : List ℕ → ℕ
  | [] => s.toplevel 0
  | x :: r => (tableAt s r).elim 0 fun t => s.mem t x

/-- A page starts at the address, and its entry is at the path. -/
def IsPage (s : State) (virtualAddress : ℕ) (p : List ℕ) : Prop :=
  2 ≤ p.length ∧ entryAt s p ≠ 0 ∧ (p.length = 4 ∨ large (entryAt s p)) ∧
    virtualAddress % 2 ^ (48 - 9 * p.length) = 0

/-- The page at the address is the only one in its slot of the kernel's page map: no table
above it has another entry. -/
def LastPage (s : State) (virtualAddress : ℕ) : Prop :=
  ∃ p ∈ (path virtualAddress).tails, IsPage s virtualAddress p ∧
    ∀ u ∈ p.tail.tails, u ≠ [] → ∀ t ∈ tableAt s u, entries s t ≤ 1

/-- The length of the path to a page that is mapped with these flags. -/
def depth (flags : ℕ) : ℕ := if extraLarge flags then 2 else if large flags then 3 else 4

/-- The address lies in a page that is larger than one with these flags. -/
def BelowPage (s : State) (virtualAddress flags : ℕ) : Prop :=
  ∃ p ∈ (path virtualAddress).tails, 2 ≤ p.length ∧ p.length < depth flags ∧
    large (entryAt s p) = true

section

variable {s s' : State} {n x q e v flags phys : ℕ} {a : ℕ → ℕ} {owed : List ℕ → ℤ} {r : List ℕ}
  {table : Loc} {pick : Finset ℕ → Option ℕ}

lemma index_lt (v shift : ℕ) : index v shift < 512 := Nat.mod_lt _ (by norm_num)

lemma entryAt_cons (h : tableAt s r = some q) : entryAt s (x :: r) = s.mem q x := by
  rw [entryAt, h]
  rfl

lemma mem_tails_path (v : ℕ) (p : List ℕ) : p ∈ (path v).tails ↔
    p = path v ∨ p = [index v 21, index v 30, index v 39] ∨ p = [index v 30, index v 39] ∨
      p = [index v 39] ∨ p = [] := by
  simp [path, List.tails]

/-! ### Mapping -/

lemma present_eq (e : ℕ) : present e = e.testBit 0 := by
  rw [Nat.testBit_eq_decide_div_mod_eq, pow_zero, Nat.div_one]
  rfl

lemma large_eq (e : ℕ) : large e = e.testBit 7 := (Nat.testBit_eq_decide_div_mod_eq).symm

lemma pageEntry_lt (hflags : flags < 2 ^ 64) : pageEntry phys flags < 2 ^ 64 := by
  refine Nat.or_lt_two_pow ?_ ((Nat.and_le_left).trans_lt hflags)
  rw [address]
  omega

lemma present_pageEntry (phys : ℕ) (hpres : present flags = true) :
    present (pageEntry phys flags) = true := by
  rw [present_eq] at hpres ⊢
  have hmask : (2 ^ 64 - 1 - 2 ^ 50).testBit 0 = true := by decide
  rw [pageEntry, Nat.testBit_or, Nat.testBit_and, hpres, hmask]
  simp

lemma largeEntry (phys : ℕ) (hflags : flags < 2 ^ 64) (hpres : present flags = true) :
    pageEntry phys flags ||| 2 ^ 7 < 2 ^ 64 ∧ present (pageEntry phys flags ||| 2 ^ 7) = true ∧
      large (pageEntry phys flags ||| 2 ^ 7) = true := by
  refine ⟨Nat.or_lt_two_pow (pageEntry_lt hflags) (by norm_num), ?_, ?_⟩
  · have h := present_pageEntry phys hpres
    rw [present_eq] at h ⊢
    rw [Nat.testBit_or, h, Bool.true_or]
  · have hseven : (2 ^ 7).testBit 7 = true := by decide
    rw [large_eq, Nat.testBit_or, hseven, Bool.or_true]

/-- **Mapping a page** keeps the tables and their counts right. -/
lemma vmmMapPage_spec (hpick : PicksFree pick) (hs : Shared s n a fun _ => 0)
    (hv : 256 ≤ index v 39) (hflags : flags < 2 ^ 64) (hpres : present flags = true)
    (hbelow : ¬ BelowPage s v flags) (hrun : vmmMapPage pick s 0 phys v flags = some s') :
    Shared s' n a (fun _ => 0) ∧ s'.toplevel = s.toplevel := by
  unfold vmmMapPage at hrun
  obtain ⟨halloc, h₃⟩ := allocChildTable_upper pick hs hv (index_lt v 39)
  rw [halloc, Option.bind_some] at hrun
  obtain ⟨hlt, hpres', hlarge'⟩ := largeEntry phys hflags hpres
  by_cases hextra : extraLarge flags = true
  · simp only [hextra, if_true] at hrun
    split_ifs at hrun with halign
    exact placeEntry_spec hs h₃ (by simp) (by simp) (index_lt v 30) hlt hpres' (.inr hlarge') hrun
  · simp only [hextra, Bool.false_eq_true, if_false] at hrun
    rw [Option.bind_eq_some_iff] at hrun
    obtain ⟨⟨pml2, s₂⟩, halloc₂, hrun⟩ := hrun
    have hsmall : large (s.mem (a (index v 39)) (index v 30)) = false := by
      rw [← entryAt_cons h₃.tableAt, Bool.eq_false_iff]
      refine fun hl => hbelow ⟨[index v 30, index v 39], ?_, by simp, ?_, hl⟩
      · rw [mem_tails_path]
        exact .inr (.inr (.inl rfl))
      · rw [depth, if_neg hextra]
        split_ifs <;> simp
    obtain ⟨hs₂, htop₂, q₂, h₂, hq₂⟩ :=
      allocChildTable_spec hpick hs h₃ (by simp) (by simp) (index_lt v 30) hsmall halloc₂
    by_cases hlarge : large flags = true
    · simp only [hlarge, if_true] at hrun
      split_ifs at hrun with halign
      obtain ⟨hs', htop⟩ := placeEntry_spec hs₂ h₂ (by simp) (by simp) (index_lt v 21) hlt hpres'
        (.inr hlarge') hrun
      exact ⟨hs', htop.trans htop₂⟩
    · simp only [hlarge, Bool.false_eq_true, if_false] at hrun
      split_ifs at hrun with halign
      rw [Option.bind_eq_some_iff] at hrun
      obtain ⟨⟨pml1, s₁⟩, halloc₁, hrun⟩ := hrun
      have hsmall₁ : large (s₂.mem q₂ (index v 21)) = false := by
        rcases hq₂ with rfl | hzero
        · rw [← entryAt_cons h₂.tableAt, Bool.eq_false_iff]
          refine fun hl =>
            hbelow ⟨[index v 21, index v 30, index v 39], ?_, by simp, ?_, hl⟩
          · rw [mem_tails_path]
            exact .inr (.inl rfl)
          · rw [depth, if_neg hextra, if_neg hlarge]
            simp
        · rw [hzero]
          rfl
      obtain ⟨hs₁, htop₁, q₁, h₁, -⟩ :=
        allocChildTable_spec hpick hs₂ h₂ (by simp) (by simp) (index_lt v 21) hsmall₁ halloc₁
      obtain ⟨hs', htop⟩ := placeEntry_spec hs₁ h₁ (by simp) (by simp) (index_lt v 12)
        (pageEntry_lt hflags) (present_pageEntry phys hpres) (.inl rfl) hrun
      exact ⟨hs', (htop.trans htop₁).trans htop₂⟩

/-! ### Unmapping -/

lemma At.getChildTable (h : At s table r q) (hs : Shared s n a owed) (x : ℕ) :
    getChildTable s table x = if s.mem q x ≠ 0 then some (.entry q x) else none := by
  unfold Vmm.getChildTable
  rw [h.child hs]
  rfl

lemma getChildTable_upper (hs : Shared s n a owed) (hv : 256 ≤ index v 39) :
    Vmm.getChildTable s (.toplevel 0) (index v 39)
      = some (.entry (s.toplevel 0) (index v 39)) := by
  have hup := hs.upper 0 n.zero_le _ hv (index_lt v 39)
  rw [At.top.getChildTable hs, if_pos]
  intro h0
  rw [h0] at hup
  cases hup

lemma Shared.clear_leaf (hs : Shared s n a fun _ => 0) (hr : r ≠ []) (hlen : r.length ≤ 3)
    (hq : tableAt s r = some q) (hx : x < 512) (hne : s.mem q x ≠ 0)
    (hleaf : IsLeaf r (s.mem q x)) :
    Shared (s.write (.entry q x) 0) n a (owe r) ∧
      (∀ u : List ℕ, u.length ≤ 3 → tableAt (s.write (.entry q x) 0) u = tableAt s u) ∧
      ∀ t, (entries (s.write (.entry q x) 0) t : ℤ) = entries s t - if t = q then 1 else 0 := by
  obtain ⟨hw, hpath⟩ := hs.write_leaf hr hlen hq hx (e := 0) (by norm_num) (fun h => absurd rfl h)
    (.inr hleaf) (.inl rfl)
  refine ⟨hw.congr fun u _ _ => ?_, hpath, fun t => ?_⟩
  · simp only [owe, hne, ne_eq, not_true_eq_false, not_false_eq_true, if_true, if_false]
    split_ifs <;> rfl
  · simp only [entries_write hx, hne, ne_eq, not_true_eq_false, not_false_eq_true, if_true,
      if_false]
    split_ifs <;> ring

/-- Where a page is not the last of its slot, some table above it has another entry. -/
lemma exists_entries {p : List ℕ} (hlast : ¬ LastPage s v) (hp : p ∈ (path v).tails)
    (hpage : IsPage s v p) :
    ∃ u ∈ p.tail.tails, u ≠ [] ∧ ∃ t, tableAt s u = some t ∧ 1 < entries s t := by
  by_contra hc
  push Not at hc
  exact hlast ⟨p, hp, hpage, fun u hu hne t ht => hc u hu hne t ht⟩

section

variable {i j k l q₁ q₂ q₃ : ℕ} {pml1 pml2 pml3 : Loc}

lemma unmap_extraLarge (hs : Shared s n a fun _ => 0) (h₃ : At s pml3 [i] q₃)
    (hlast : ¬ LastPage s v) (hpath : [j, i] ∈ (path v).tails) (hj : j < 512)
    (hlarge : large (s.mem q₃ j) = true) (hal : v % 2 ^ 30 = 0) :
    Shared (decreaseLength (s.write (.entry q₃ j) 0) pml3).2 n a (fun _ => 0) ∧
      (decreaseLength (s.write (.entry q₃ j) 0) pml3).2.toplevel = s.toplevel := by
  have hne : s.mem q₃ j ≠ 0 := by
    intro h0
    rw [h0] at hlarge
    cases hlarge
  obtain ⟨hs', hkeep, hent⟩ := hs.clear_leaf (by simp) (by simp) h₃.tableAt hj hne (.inr hlarge)
  obtain ⟨u, hu, hune, t, ht, hlt⟩ := exists_entries hlast hpath
    ⟨by simp, by rwa [entryAt_cons h₃.tableAt], by rw [entryAt_cons h₃.tableAt]; exact .inr hlarge,
      hal⟩
  obtain rfl : u = [i] := by simpa [List.tails, hune] using hu
  obtain rfl : q₃ = t := by
    rw [h₃.tableAt] at ht
    exact Option.some.inj ht
  have hq := hent q₃
  rw [if_pos rfl] at hq
  have h₃' := h₃.mono (s.write (.entry q₃ j) 0) rfl
    fun u hu => hkeep u (hu.length_le.trans (by simp))
  obtain ⟨-, hs'', htop⟩ := decreaseLength_keeps hs' h₃' (by simp) (by omega)
  exact ⟨hs'', htop⟩

lemma unmap_large (hs : Shared s n a fun _ => 0) (h₂ : At s pml2 [j, i] q₂) (h₃ : At s pml3 [i] q₃)
    (hlast : ¬ LastPage s v) (hpath : [k, j, i] ∈ (path v).tails) (hk : k < 512)
    (hlarge : large (s.mem q₂ k) = true) (hal : v % 2 ^ 21 = 0) :
    ∀ r, r = decreaseLength (s.write (.entry q₂ k) 0) pml2 →
    Shared (if r.1 then (decreaseLength r.2 pml3).2 else r.2) n a (fun _ => 0) ∧
      (if r.1 then (decreaseLength r.2 pml3).2 else r.2).toplevel = s.toplevel := by
  rintro r rfl
  have hne : s.mem q₂ k ≠ 0 := by
    intro h0
    rw [h0] at hlarge
    cases hlarge
  obtain ⟨hs', hkeep, hent⟩ := hs.clear_leaf (by simp) (by simp) h₂.tableAt hk hne (.inr hlarge)
  obtain ⟨u, hu, hune, t, ht, hlt⟩ := exists_entries hlast hpath
    ⟨by simp, by rwa [entryAt_cons h₂.tableAt], by rw [entryAt_cons h₂.tableAt]; exact .inr hlarge,
      hal⟩
  have hu : u = [j, i] ∨ u = [i] := by simpa [List.tails, hune] using hu
  have hne₃ : q₃ ≠ q₂ := by
    rintro rfl
    have := hs.inj [i] [j, i] q₃ (by simp) (by simp) h₃.tableAt h₂.tableAt
    simp at this
  have hone : entries s q₂ ≤ 1 → 1 < entries s q₃ := by
    rcases hu with rfl | rfl
    · rw [h₂.tableAt] at ht
      rw [← Option.some.inj ht] at hlt
      omega
    · rw [h₃.tableAt] at ht
      rw [← Option.some.inj ht] at hlt
      exact fun _ => hlt
  have hq₂ := hent q₂
  have hq₃ := hent q₃
  rw [if_pos rfl] at hq₂
  rw [if_neg hne₃] at hq₃
  have h₂' := h₂.mono (s.write (.entry q₂ k) 0) rfl
    fun u hu => hkeep u (hu.length_le.trans (by simp))
  have h₃' := h₃.mono (s.write (.entry q₂ k) 0) rfl
    fun u hu => hkeep u (hu.length_le.trans (by simp))
  exact decreaseLength_two hs' h₂' h₃' (by omega)

lemma unmap_small (hs : Shared s n a fun _ => 0) (h₁ : At s pml1 [k, j, i] q₁)
    (h₂ : At s pml2 [j, i] q₂) (h₃ : At s pml3 [i] q₃) (hlast : ¬ LastPage s v)
    (hpath : [l, k, j, i] ∈ (path v).tails) (hl : l < 512) (hne : s.mem q₁ l ≠ 0)
    (hal : v % 2 ^ 12 = 0) :
    ∀ r, r = decreaseLength (s.write (.entry q₁ l) 0) pml1 →
    Shared (if r.1 then if (decreaseLength r.2 pml2).1
        then (decreaseLength (decreaseLength r.2 pml2).2 pml3).2 else (decreaseLength r.2 pml2).2
      else r.2) n a (fun _ => 0) ∧
    (if r.1 then if (decreaseLength r.2 pml2).1
        then (decreaseLength (decreaseLength r.2 pml2).2 pml3).2 else (decreaseLength r.2 pml2).2
      else r.2).toplevel = s.toplevel := by
  obtain ⟨hs', hkeep, hent⟩ := hs.clear_leaf (by simp) (by simp) h₁.tableAt hl hne (.inl rfl)
  obtain ⟨u, hu, hune, t, ht, hlt⟩ := exists_entries hlast hpath
    ⟨by simp, by rwa [entryAt_cons h₁.tableAt], .inl rfl, hal⟩
  have hu : u = [k, j, i] ∨ u = [j, i] ∨ u = [i] := by simpa [List.tails, hune] using hu
  have hne₂ : q₂ ≠ q₁ := by
    rintro rfl
    have := hs.inj [j, i] [k, j, i] q₂ (by simp) (by simp) h₂.tableAt h₁.tableAt
    simp at this
  have hne₃ : q₃ ≠ q₁ := by
    rintro rfl
    have := hs.inj [i] [k, j, i] q₃ (by simp) (by simp) h₃.tableAt h₁.tableAt
    simp at this
  have hone : entries s q₁ ≤ 1 → entries s q₂ ≤ 1 → 1 < entries s q₃ := by
    rcases hu with rfl | rfl | rfl
    · rw [h₁.tableAt] at ht
      rw [← Option.some.inj ht] at hlt
      omega
    · rw [h₂.tableAt] at ht
      rw [← Option.some.inj ht] at hlt
      omega
    · rw [h₃.tableAt] at ht
      rw [← Option.some.inj ht] at hlt
      exact fun _ _ => hlt
  have hq₁ := hent q₁
  have hq₂ := hent q₂
  have hq₃ := hent q₃
  rw [if_pos rfl] at hq₁
  rw [if_neg hne₂] at hq₂
  rw [if_neg hne₃] at hq₃
  have h₁' := h₁.mono (s.write (.entry q₁ l) 0) rfl
    fun u hu => hkeep u (hu.length_le.trans (by simp))
  have h₂' := h₂.mono (s.write (.entry q₁ l) 0) rfl
    fun u hu => hkeep u (hu.length_le.trans (by simp))
  have h₃' := h₃.mono (s.write (.entry q₁ l) 0) rfl
    fun u hu => hkeep u (hu.length_le.trans (by simp))
  exact decreaseLength_three hs' h₁' h₂' h₃' (by omega)

end

/-- **Unmapping a page** that is not the last of its slot. -/
lemma vmmUnmapPage_spec (hs : Shared s n a fun _ => 0) (hv : 256 ≤ index v 39)
    (hlast : ¬ LastPage s v) :
    Shared (vmmUnmapPage s 0 v).2 n a (fun _ => 0) ∧
      (vmmUnmapPage s 0 v).2.toplevel = s.toplevel := by
  unfold vmmUnmapPage
  split_ifs with hal
  · exact ⟨hs, rfl⟩
  rw [not_not] at hal
  obtain ⟨-, h₃⟩ := allocChildTable_upper (fun _ => none) hs hv (index_lt v 39)
  unfold unmapPage
  simp only [getChildTable_upper hs hv, h₃.child hs, State.read, h₃.getChildTable hs]
  by_cases hlarge₃ : large (s.mem (a (index v 39)) (index v 30)) = true
  · simp only [hlarge₃, if_true]
    split_ifs with hal₃
    · exact ⟨hs, rfl⟩
    · exact unmap_extraLarge hs h₃ hlast ((mem_tails_path v _).mpr (by simp))
        (index_lt v 30) hlarge₃
        (not_not.mp hal₃)
  by_cases hne₃ : s.mem (a (index v 39)) (index v 30) = 0
  · simp only [hne₃, ne_eq, not_true_eq_false, if_false]
    exact ⟨hs, rfl⟩
  have h₂ := h₃.entry_of_small (index_lt v 30) hne₃ (by simpa using hlarge₃)
  simp only [hlarge₃, hne₃, ne_eq, not_false_eq_true, if_true, Bool.false_eq_true, if_false,
    h₂.child hs, h₂.getChildTable hs]
  generalize hq₂ : address (s.mem (a (index v 39)) (index v 30)) = q₂ at h₂
  by_cases hlarge₂ : large (s.mem q₂ (index v 21)) = true
  · simp only [hlarge₂, if_true]
    by_cases hal₂ : v % 2 ^ 21 = 0
    · simp only [hal₂, not_true_eq_false, if_false]
      exact unmap_large hs h₂ h₃ hlast ((mem_tails_path v _).mpr (by simp)) (index_lt v 21) hlarge₂
        hal₂ _ rfl
    · simp only [hal₂, not_false_eq_true, if_true]
      exact ⟨hs, trivial⟩
  by_cases hne₂ : s.mem q₂ (index v 21) = 0
  · simp only [hne₂, not_true_eq_false, if_false]
    exact ⟨hs, rfl⟩
  have h₁ := h₂.entry_of_small (index_lt v 21) hne₂ (by simpa using hlarge₂)
  simp only [hlarge₂, hne₂, not_false_eq_true, if_true, Bool.false_eq_true, if_false, h₁.child hs]
  generalize hq₁ : address (s.mem q₂ (index v 21)) = q₁ at h₁
  by_cases hne₁ : s.mem q₁ (index v 12) = 0
  · simp only [hne₁, if_true]
    exact ⟨hs, trivial⟩
  · simp only [hne₁, if_false]
    exact unmap_small hs h₁ h₂ h₃ hlast ((mem_tails_path v _).mpr (.inl rfl)) (index_lt v 12) hne₁
      hal _ rfl

end

end KernelModel.Vmm
