import KernelModel.VmmRun

/-!
Page maps that are given up.

`vmm_pagemap_deinit` walks over the tables below the top level and gives each back to the
allocator, the top level last. The walk looks at the flags of the word that points to a table
before it follows it. The word in the page map itself is the bare address that the allocator
returned, so that the walk ends before its first step.
-/

namespace KernelModel.Vmm

open Runs

/-! ### The walk -/

/-- A word that the walk follows to a table. -/
def isTable (e : ℕ) : Bool := present e && !large e

/-- `_delete_pagemap_recursive`, with the pages that are given back. -/
def deletePagemapRecursive : ℕ → Loc → ℕ → State × List ℕ → State × List ℕ
  | 0, _, _, r => r
  | level + 1, table, limit, r =>
    let entry := r.1.read table
    if !present entry || large entry then r
    else
      let r :=
        if level + 1 > 1 then
          (List.range limit).foldl
            (fun r i => deletePagemapRecursive level (.entry (address entry) i) 512 r) r
        else r
      (pmmDealloc r.1 (address entry), r.2 ++ [address entry])

def vmmPagemapDeinit (s : State) (pagemap : ℕ) : State × List ℕ :=
  deletePagemapRecursive 4 (.toplevel pagemap) 256 (s, [])

/-! ### What a page map leads to -/

/-- The word that the indices lead to, from a word that points to a table. -/
def wordAt (s : State) (e : ℕ) : List ℕ → Option ℕ
  | [] => some e
  | i :: is => if isTable e then wordAt s (s.mem (address e) i) is else none

/-- A page of tables below the entries from `lo` to `hi` of the top level. -/
def TableIn (s : State) (pagemap lo hi p : ℕ) : Prop :=
  ∃ i, lo ≤ i ∧ i < hi ∧ ∃ is e, is.length ≤ 2 ∧ (∀ x ∈ is, x < 512) ∧
    wordAt s (s.mem (address (s.toplevel pagemap)) i) is = some e ∧ isTable e = true ∧ address e = p

/-- A page that is mapped below the entries from `lo` to `hi` of the top level. -/
def DataIn (s : State) (pagemap lo hi p : ℕ) : Prop :=
  ∃ i, lo ≤ i ∧ i < hi ∧ ∃ is e, (is.length = 3 ∨ large e = true) ∧ is.length ≤ 3 ∧
    (∀ x ∈ is, x < 512) ∧
    wordAt s (s.mem (address (s.toplevel pagemap)) i) is = some e ∧ present e = true ∧ address e = p

/-- The pages are the top level and the tables of the lower half, each once, and none that the
kernel half leads to or that is mapped. -/
structure Returned (s : State) (pagemap : ℕ) (pages : List ℕ) : Prop where
  nodup : pages.Nodup
  exactly : ∀ p, p ∈ pages ↔ p = address (s.toplevel pagemap) ∨ TableIn s pagemap 0 256 p
  kernel : ∀ p ∈ pages, ¬ TableIn s pagemap 256 512 p ∧ ¬ DataIn s pagemap 256 512 p
  data : ∀ p ∈ pages, ¬ DataIn s pagemap 0 256 p

/-! ### The word in the page map -/

section

variable {s s' : State} {pick : Finset ℕ → Option ℕ} {m : ℕ} {table : Loc}

/-- The number of entries is not kept in this place. -/
def Uncounted (s : State) (table : Loc) : Prop :=
  ∀ n, table = .toplevel n → present (s.toplevel n) = false

lemma uncounted_entry (s : State) (p i : ℕ) : Uncounted s (.entry p i) := by
  intro n h
  cases h

lemma increaseLength_toplevel (h : Uncounted s table) :
    (increaseLength s table).toplevel = s.toplevel := by
  unfold increaseLength
  cases table with
  | toplevel n => simp only [State.read, h n rfl, Bool.false_eq_true, if_false]
  | entry p i =>
    dsimp only
    split_ifs
    · rfl
    · rfl

lemma decreaseLength_toplevel (p i : ℕ) :
    (decreaseLength s (.entry p i)).2.toplevel = s.toplevel := by
  unfold decreaseLength
  dsimp only
  split_ifs <;> rfl

lemma allocChildTable_toplevel (h : Uncounted s table) {i : ℕ} {r : Loc × State}
    (hr : allocChildTable pick s table i = some r) :
    r.2.toplevel = s.toplevel ∧ ∀ t, Uncounted t r.1 := by
  unfold allocChildTable at hr
  dsimp only at hr
  split_ifs at hr with hne
  · obtain rfl := Option.some.inj hr
    exact ⟨rfl, fun t => uncounted_entry t _ _⟩
  · rw [pmmAlloc, Option.map_map, Option.map_eq_some_iff] at hr
    obtain ⟨p, -, rfl⟩ := hr
    exact ⟨increaseLength_toplevel h, fun t => uncounted_entry t _ _⟩

lemma placeEntry_toplevel (h : Uncounted s table) {i e : ℕ}
    (hs : placeEntry s table i e = some s') : s'.toplevel = s.toplevel := by
  unfold placeEntry at hs
  dsimp only at hs
  split_ifs at hs with hp
  obtain rfl := Option.some.inj hs
  unfold increaseLengthIfEntryEmpty
  split_ifs
  · exact increaseLength_toplevel h
  · rfl

lemma vmmMapPage_toplevel {phys v flags : ℕ} (h : present (s.toplevel m) = false)
    (hs : vmmMapPage pick s m phys v flags = some s') : s'.toplevel = s.toplevel := by
  have htop : Uncounted s (.toplevel m) := by
    intro n hn
    obtain rfl := Loc.toplevel.inj hn
    exact h
  rw [vmmMapPage, Option.bind_eq_some_iff] at hs
  obtain ⟨r₃, hr₃, hs⟩ := hs
  obtain ⟨he₃, hu₃⟩ := allocChildTable_toplevel htop hr₃
  by_cases hextra : extraLarge flags = true
  · simp only [hextra, if_true] at hs
    split_ifs at hs with hal
    exact (placeEntry_toplevel (hu₃ _) hs).trans he₃
  · rw [Bool.not_eq_true] at hextra
    simp only [hextra, Bool.false_eq_true, if_false] at hs
    rw [Option.bind_eq_some_iff] at hs
    obtain ⟨r₂, hr₂, hs⟩ := hs
    obtain ⟨he₂, hu₂⟩ := allocChildTable_toplevel (hu₃ _) hr₂
    by_cases hlarge : large flags = true
    · simp only [hlarge, if_true] at hs
      split_ifs at hs with hal
      exact ((placeEntry_toplevel (hu₂ _) hs).trans he₂).trans he₃
    · rw [Bool.not_eq_true] at hlarge
      simp only [hlarge, Bool.false_eq_true, if_false] at hs
      split_ifs at hs with hal
      rw [Option.bind_eq_some_iff] at hs
      obtain ⟨r₁, hr₁, hs⟩ := hs
      obtain ⟨he₁, hu₁⟩ := allocChildTable_toplevel (hu₂ _) hr₁
      exact (((placeEntry_toplevel (hu₁ _) hs).trans he₁).trans he₂).trans he₃

lemma getChildTable_eq {i : ℕ} {loc : Loc} (h : getChildTable s table i = some loc) :
    loc = child s table i := by
  unfold getChildTable at h
  split_ifs at h
  exact (Option.some.inj h).symm

/-- A page is taken out of its table, and the tables above that are empty then are. -/
lemma unmapPage_toplevel (v : ℕ) : (unmapPage s m v).2.toplevel = s.toplevel := by
  have hdec : ∀ (t : State) (table : Loc) (u : State) (j : ℕ), t.toplevel = s.toplevel →
      (decreaseLength t (child u table j)).2.toplevel = s.toplevel := fun t table u j ht =>
    (decreaseLength_toplevel _ _).trans ht
  unfold unmapPage
  split
  · rfl
  rename_i pml3 h₃
  obtain rfl := getChildTable_eq h₃
  dsimp only
  split
  · split
    · rfl
    · exact hdec _ _ _ _ rfl
  split
  · rfl
  rename_i pml2 h₂
  obtain rfl := getChildTable_eq h₂
  split
  · split
    · rfl
    · dsimp only
      split
      · exact hdec _ _ _ _ (hdec _ _ _ _ rfl)
      · exact hdec _ _ _ _ rfl
  split
  · rfl
  rename_i pml1 h₁
  obtain rfl := getChildTable_eq h₁
  split
  · rfl
  dsimp only
  split
  · split
    · exact hdec _ _ _ _ (hdec _ _ _ _ (hdec _ _ _ _ rfl))
    · exact hdec _ _ _ _ (hdec _ _ _ _ rfl)
  · exact hdec _ _ _ _ rfl

lemma vmmUnmapPage_toplevel (v : ℕ) : (vmmUnmapPage s m v).2.toplevel = s.toplevel := by
  unfold vmmUnmapPage
  split_ifs
  · rfl
  · exact unmapPage_toplevel v

lemma copyEntries_toplevel : ∀ (is : List ℕ) (s : State),
    (copyEntries s m is).toplevel = s.toplevel
  | [], _ => rfl
  | _ :: is, _ => copyEntries_toplevel is _

lemma vmmPagemapInit_toplevel (hpick : PicksFree pick) (h : vmmPagemapInit pick s m = some s') :
    present (s'.toplevel m) = false := by
  rw [vmmPagemapInit, pmmAlloc, Option.map_map, Option.map_eq_some_iff] at h
  obtain ⟨p, hp, rfl⟩ := h
  obtain ⟨-, hal, -⟩ := hpick _ _ hp
  rw [Function.comp_apply, copyEntries_toplevel]
  simp only [State.write, Function.update_self, present, decide_eq_false_iff_not]
  omega

end

/-! ### Runs -/

/-- What is called for the page map of a process. -/
inductive PageOp
  | map (physicalAddress virtualAddress flags : ℕ)
  | unmap (virtualAddress : ℕ)
  deriving DecidableEq, Repr

def pageStep (pick : Finset ℕ → Option ℕ) (pagemap : ℕ) (s : State) : PageOp → Option State
  | .map phys v flags => vmmMapPage pick s pagemap phys v flags
  | .unmap v => some (vmmUnmapPage s pagemap v).2

section

variable {s₀ s₁ s : State} {pick : Finset ℕ → Option ℕ} {m : ℕ}

lemma pageStep_toplevel {op : PageOp} {s' : State} (h : present (s.toplevel m) = false)
    (hstep : pageStep pick m s op = some s') : present (s'.toplevel m) = false := by
  cases op with
  | map phys v flags => rwa [vmmMapPage_toplevel h hstep]
  | unmap v =>
    obtain rfl := Option.some.inj hstep
    rwa [vmmUnmapPage_toplevel]

lemma vmmPagemapDeinit_eq (h : present (s.toplevel m) = false) :
    vmmPagemapDeinit s m = (s, []) := by
  simp only [vmmPagemapDeinit, deletePagemapRecursive, State.read, h, Bool.not_false, Bool.true_or,
    if_true]

/-- **A page map that is given up returns nothing**: no page comes back to the allocator, and its
top level should. -/
theorem vmmPagemapDeinit_returns_nothing (hpick : PicksFree pick)
    (hinit : vmmPagemapInit pick s₀ m = some s₁) (ops : List PageOp)
    (hrun : run (pageStep pick m) s₁ ops = some s) :
    vmmPagemapDeinit s m = (s, []) ∧ ¬ Returned s m (vmmPagemapDeinit s m).2 := by
  have hword : present (s.toplevel m) = false := by
    have hstep : ∀ t op t', present (t.toplevel m) = false → True → pageStep pick m t op = some t' →
        present (t'.toplevel m) = false := fun t op t' ht _ hstep => pageStep_toplevel ht hstep
    exact run_inv hstep ops s₁ s (vmmPagemapInit_toplevel hpick hinit) (along_true s₁ ops) hrun
  rw [vmmPagemapDeinit_eq hword]
  refine ⟨rfl, fun h => ?_⟩
  have htop := (h.exactly (address (s.toplevel m))).mpr (.inl rfl)
  cases htop

end

/-! ### A page map with a page in it -/

section

variable {s : State} {pick : Finset ℕ → Option ℕ} {m p v : ℕ}

lemma vmmMapPage_isSome (phys flags : ℕ) (hpick : PicksFree pick) (hp : pick s.used = some p)
    (hword : present (s.toplevel m) = false)
    (hzero : s.read (child s (.toplevel m) (index v 39)) = 0)
    (hne : index v 30 ≠ index v 39) (hflags : extraLarge flags = true)
    (hphys : phys % 2 ^ 30 = 0) (hal : v % 2 ^ 30 = 0) :
    ∃ s', vmmMapPage pick s m phys v flags = some s' := by
  obtain ⟨-, halp, hlt⟩ := hpick _ _ hp
  have hinc : increaseLength s (.toplevel m) = s := by
    simp only [increaseLength, State.read, hword, Bool.false_eq_true, if_false]
  have hcode : address (p ||| 7) = p := by
    rw [or_seven halp, address]
    omega
  have hempty : present (if p = address (s.toplevel m) ∧ index v 30 = index v 39 then p ||| 7
      else 0) = false := by
    rw [if_neg (fun h => hne h.2)]
    rfl
  have halloc : allocChildTable pick s (.toplevel m) (index v 39)
      = some (child s (.toplevel m) (index v 39),
        State.write { s with
          mem := Function.update s.mem p fun _ => 0
          used := insert p s.used } (child s (.toplevel m) (index v 39)) (p ||| 7)) := by
    simp only [allocChildTable, hzero, ne_eq, not_true_eq_false, if_false, hinc, pmmAlloc, hp,
      Option.map_some]
  rw [vmmMapPage, halloc, Option.bind_some]
  simp only [hflags, if_true, hphys, hal, ne_eq, not_true_eq_false, or_self, if_false, placeEntry,
    child, State.read, write_mem, and_self, hcode, Function.update_self, hempty,
    Bool.false_eq_true]
  exact ⟨_, rfl⟩

lemma newPagemap_lower {q : ℕ} (hal : q % 2 ^ 12 = 0) (hlt : q < 2 ^ 48)
    (hal₀ : s.toplevel 0 % 2 ^ 12 = 0) (hlt₀ : s.toplevel 0 < 2 ^ 48) (hne : q ≠ s.toplevel 0)
    (hm : m ≠ 0) {is : List ℕ} (his : ∀ i ∈ is, 256 ≤ i) :
    ∀ s₂, copyEntries (State.write { s with
      mem := Function.update s.mem q fun _ => 0
      used := insert q s.used } (.toplevel m) q) m is = s₂ →
    s₂.used = insert q s.used ∧ ∀ i < 256, s₂.read (child s₂ (.toplevel m) i) = 0 := by
  rintro s₂ rfl
  obtain ⟨htop, hused, hmem⟩ := copyEntries_eq (n := m) (q := q) (t := s.toplevel 0)
    (s := State.write { s with
      mem := Function.update s.mem q fun _ => 0
      used := insert q s.used } (.toplevel m) q)
    (fun x => by
      rw [child_toplevel]
      all_goals simp only [State.write, Function.update_self, hal, hlt])
    (fun x => by
      rw [child_toplevel]
      all_goals simp only [State.write, Function.update_of_ne hm.symm, hal₀, hlt₀]) hne is
  have haddr : address q = q := by
    rw [address]
    omega
  refine ⟨hused, fun i hi => ?_⟩
  simp only [child, State.read, htop]
  simp only [State.write, Function.update_self, haddr] at hmem ⊢
  rw [hmem, if_neg (fun h => absurd (his i h.2) (by omega)), Function.update_self]

end

/-- A page map of a process after the kernel has started, with an extra large page. -/
lemma exists_process : ∃ s₀ s₁ s₂, vmmInit nextPage blank = some s₀ ∧
    vmmPagemapInit nextPage s₀ 1 = some s₁ ∧
    run (pageStep nextPage 1) s₁ [.map 0 (2 ^ 30) extra] = some s₂ := by
  obtain ⟨s₀, hinit, hsup⟩ := vmmInit_isSome (s := blank) (k := 0) nextPage_findsBelow
    (by simp [blank]) (by norm_num)
  obtain ⟨a, hb⟩ := vmmInit_spec picksFree_nextPage hinit
  obtain ⟨q, hq, hsup₁⟩ := nextPage_findsBelow s₀.used _ hsup (by norm_num)
  obtain ⟨hfree, hal, hlt⟩ := picksFree_nextPage _ _ hq
  obtain ⟨s₁, hs₁⟩ : ∃ s₁, vmmPagemapInit nextPage s₀ 1 = some s₁ :=
    vmmPagemapInit_isSome nextPage_findsBelow hsup (by norm_num)
  have hcopy := hs₁
  rw [vmmPagemapInit, pmmAlloc, hq, Option.map_some, Option.map_some, Option.some.injEq] at hcopy
  obtain ⟨hused, hlower⟩ := newPagemap_lower hal hlt hb.aligned.1 hb.aligned.2
    (fun heq => hfree (heq ▸ hb.used)) one_ne_zero
    (fun i hi => (List.mem_range'_1.mp hi).1) s₁ hcopy
  obtain ⟨p, hp, -⟩ := nextPage_findsBelow s₁.used _ (hused ▸ hsup₁) (by norm_num)
  have hindex : index (2 ^ 30) 39 = 0 ∧ index (2 ^ 30) 30 = 1 := by decide
  obtain ⟨s₂, hs₂⟩ := vmmMapPage_isSome (v := 2 ^ 30) 0 extra
    picksFree_nextPage hp (vmmPagemapInit_toplevel picksFree_nextPage hs₁)
    (hlower _ (by rw [hindex.1]; norm_num)) (by rw [hindex.1, hindex.2]; norm_num) (by decide)
    (by norm_num) (by norm_num)
  refine ⟨s₀, s₁, s₂, hinit, hs₁, ?_⟩
  rw [run_cons, pageStep, hs₂, Option.bind_some, run_nil]

theorem vmmPagemapDeinit_process : ∃ s₀ s₁ s, vmmInit nextPage blank = some s₀ ∧
    vmmPagemapInit nextPage s₀ 1 = some s₁ ∧
    run (pageStep nextPage 1) s₁ [.map 0 (2 ^ 30) extra] = some s ∧
    vmmPagemapDeinit s 1 = (s, []) := by
  obtain ⟨s₀, s₁, s, hinit, hs₁, hrun⟩ := exists_process
  exact ⟨s₀, s₁, s, hinit, hs₁, hrun,
    (vmmPagemapDeinit_returns_nothing picksFree_nextPage hs₁ _ hrun).1⟩

/-- The page map of a process with one page: its top level is not given back. -/
theorem not_returned_process : ∃ s₀ s₁ s, vmmInit nextPage blank = some s₀ ∧
    vmmPagemapInit nextPage s₀ 1 = some s₁ ∧
    run (pageStep nextPage 1) s₁ [.map 0 (2 ^ 30) extra] = some s ∧
    ¬ Returned s 1 (vmmPagemapDeinit s 1).2 := by
  obtain ⟨s₀, s₁, s, hinit, hs₁, hrun⟩ := exists_process
  refine ⟨s₀, s₁, s, hinit, hs₁, hrun, fun h => ?_⟩
  have hword : present (s.toplevel 1) = false := by
    rw [run_cons, Option.bind_eq_some_iff] at hrun
    obtain ⟨t, hstep, hrun⟩ := hrun
    rw [run_nil, Option.some.injEq] at hrun
    exact hrun ▸ pageStep_toplevel (vmmPagemapInit_toplevel picksFree_nextPage hs₁) hstep
  rw [vmmPagemapDeinit_eq hword] at h
  cases (h.exactly (address (s.toplevel 1))).mpr (.inl rfl)

end KernelModel.Vmm
