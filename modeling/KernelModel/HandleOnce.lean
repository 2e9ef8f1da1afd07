import KernelModel.Handle

/-!
A handle is deleted once, unless two releases or a release and a lookup come too close.

While the count of a handle is positive nobody is deleting it; once it is zero it stays so, and
exactly one release carries the handle from there to its callback.
-/

namespace KernelModel.Handles

open Runs

variable {κ η : Type} [DecidableEq κ] [DecidableEq η] [Fintype κ]

/-- A release of `h` between its decrement and the removal from the tree. -/
@[simp] def Pc.closing (h : η) : Pc η → Bool
  | .test k | .delete k | .lock k | .retest k | .remove k => k = h
  | _ => false

/-- A release of `h` that has removed it from the tree. -/
@[simp] def Pc.closed (h : η) : Pc η → Bool
  | .unlock k true | .callback k => k = h
  | _ => false

/-- The condition on one move. A release does not bring the count to zero while another one has
still to read it, a lookup does not take its reference while a release that brought the count to
zero has still to remove the handle, and the counter has room. -/
def Spaced (s : State κ η) (l : κ × Action η) : Prop :=
  match l.2 with
  | .acquire h => (s.handle h).rc + 1 < 2 ^ 64
  | .release h => (s.handle h).rc = 1 → ∀ j, s.pc j ≠ .test h
  | .step =>
    match s.pc l.1 with
    | .lookupAcquire h => (s.handle h).rc + 1 < 2 ^ 64 ∧
        ((s.handle h).rc = 0 → ∀ j, (s.pc j).closing h = false)
    | _ => True
  | _ => True

instance (s : State κ η) (l : κ × Action η) : Decidable (Spaced s l) := by
  unfold Spaced
  split
  · infer_instance
  · infer_instance
  · split <;> infer_instance
  · infer_instance

/-- A lookup of `h` that has counted its reference and not yet returned it. -/
@[simp] def Pc.pending (h : η) (p : Pc η) : ℕ := if p = .lookupUnlock h true then 1 else 0

def pending (s : State κ η) (h : η) : ℕ := ∑ i, (s.pc i).pending h

/-- A release of `h` that has not come to its callback. -/
@[simp] def Pc.deleting (h : η) (p : Pc η) : Bool := p.closing h || p.closed h

structure Inv (s : State κ η) : Prop where
  writer : ∀ i j, (s.pc i).writes = true → j ≠ i →
    (s.pc j).reads = false ∧ (s.pc j).writes = false
  found : ∀ i h, s.pc i = .lookupAcquire h → (s.handle h).inTree = true
  count : ∀ h, (s.handle h).rc = (s.handle h).refs + pending s h
  bound : ∀ h, (s.handle h).rc < 2 ^ 64
  fresh : ∀ h, (s.handle h).created = false →
    (s.handle h).rc = 0 ∧ (s.handle h).inTree = false ∧ (s.handle h).callbacks = 0 ∧
      ∀ i, (s.pc i).deleting h = false
  positive : ∀ h, (s.handle h).rc ≠ 0 → (s.handle h).callbacks = 0 ∧
    (s.handle h).dropped = false ∧ ∀ i, (s.pc i).deleting h = true → s.pc i = .test h
  alone : ∀ h, (s.handle h).rc = 0 →
    ∀ i j, (s.pc i).deleting h = true → (s.pc j).deleting h = true → i = j
  zero : ∀ h, (s.handle h).rc = 0 → (s.handle h).created = true → (s.handle h).callbacks = 0 →
    ∃ i, (s.pc i).deleting h = true
  removed : ∀ h i, (s.pc i).closed h = true → (s.handle h).inTree = false
  done : ∀ h, (s.handle h).callbacks ≠ 0 → (s.handle h).callbacks = 1 ∧
    (s.handle h).inTree = false ∧ ∀ i, (s.pc i).deleting h = false
  lookups : ∀ r ∈ s.returned, r.dropped = false ∧ r.callbacks = 0

omit [DecidableEq κ] in
lemma initial_inv : Inv (initial κ η) where
  writer := by simp [initial, Pc.writes]
  found := by simp [initial]
  count := by simp [initial, notCreated, pending, Pc.pending]
  bound := by simp [initial, notCreated]
  fresh := by simp [initial, notCreated, Pc.deleting, Pc.closing, Pc.closed]
  positive := by simp [initial, notCreated]
  alone := by simp [initial, Pc.deleting, Pc.closing, Pc.closed]
  zero := by simp [initial, notCreated]
  removed := by simp [initial, Pc.closed]
  done := by simp [initial, notCreated]
  lookups := by simp [initial]

variable {s s' : State κ η} {i j : κ} {h k : η} {p : Pc η} {x : Handle}

omit [Fintype κ] [DecidableEq η] in
@[simp, grind =] lemma goto_pc : (s.goto i p).pc j = if j = i then p else s.pc j := by
  simp [State.goto, Function.update_apply]

omit [Fintype κ] [DecidableEq η] in
@[simp, grind =] lemma goto_handle : (s.goto i p).handle h = s.handle h := rfl

omit [Fintype κ] [DecidableEq κ] in
@[simp, grind =] lemma setHandle_handle :
    (s.setHandle h x).handle k = if k = h then x else s.handle k := by
  simp [State.setHandle, Function.update_apply]

omit [Fintype κ] [DecidableEq κ] in
@[simp, grind =] lemma setHandle_pc : (s.setHandle h x).pc j = s.pc j := rfl

lemma pending_eq (hpc : ∀ j, s'.pc j = if j = i then p else s.pc j) :
    pending s' h + (s.pc i).pending h = pending s h + p.pending h := by
  have hupdate : s'.pc = Function.update s.pc i p := by
    funext j
    rw [hpc, Function.update_apply]
  unfold pending
  rw [hupdate]
  exact sum_update _ s.pc i p

omit [DecidableEq η] [Fintype κ] in
lemma pc_of_goto (hpc : ∀ j, s'.pc j = if j = i then p else s.pc j) :
    ∀ j, j ≠ i → s.pc j = s'.pc j := by
  intro j hj
  rw [hpc, if_neg hj]

lemma Inv.goto (hinv : Inv s)
    (hsame : ∀ h, p.deleting h = (s.pc i).deleting h ∧ p.closed h = (s.pc i).closed h ∧
      p.pending h = (s.pc i).pending h)
    (hzero : ∀ h, p.deleting h = true → (s.handle h).rc = 0)
    (hfound : ∀ h, p = .lookupAcquire h → (s.handle h).inTree = true)
    (hreads : p.reads = true → ∀ j, j ≠ i → (s.pc j).writes = false)
    (hwrites : p.writes = true →
      ∀ j, j ≠ i → (s.pc j).reads = false ∧ (s.pc j).writes = false) :
    Inv (s.goto i p) := by
  obtain ⟨s', hs'⟩ : ∃ s', s' = s.goto i p := ⟨_, rfl⟩
  have hpc : ∀ j, s'.pc j = if j = i then p else s.pc j := fun j => hs' ▸ goto_pc
  have hhandle : ∀ h, s'.handle h = s.handle h := fun h => hs' ▸ rfl
  have hret : s'.returned = s.returned := hs' ▸ rfl
  rw [← hs']
  have hothers := pc_of_goto hpc
  have hsum := fun h => pending_eq (h := h) hpc
  obtain ⟨h1, h2, h3, h4, h5, h6, h7, h8, h9, h10, h11⟩ := hinv
  constructor <;> grind -linarith

lemma Inv.test (hinv : Inv s) (hi : s.pc i = .test k) (hrc : (s.handle k).rc ≠ 0)
    (hpc : ∀ j, s'.pc j = if j = i then .idle else s.pc j)
    (hhandle : ∀ h, s'.handle h = s.handle h) (hret : s'.returned = s.returned) : Inv s' := by
  have hothers := pc_of_goto hpc
  have hsum := fun h => pending_eq (h := h) hpc
  obtain ⟨h1, h2, h3, h4, h5, h6, h7, h8, h9, h10, h11⟩ := hinv
  constructor <;>
    grind -linarith [Pc.closing, Pc.closed, Pc.deleting, Pc.pending, Pc.writes, Pc.reads]

lemma Inv.remove (hinv : Inv s) (hi : s.pc i = .remove k)
    (hpc : ∀ j, s'.pc j = if j = i then .unlock k true else s.pc j)
    (hhandle : ∀ h, s'.handle h =
      if h = k then { s.handle k with inTree := false } else s.handle h)
    (hret : s'.returned = s.returned) : Inv s' := by
  have hothers := pc_of_goto hpc
  have hsum := fun h => pending_eq (h := h) hpc
  obtain ⟨h1, h2, h3, h4, h5, h6, h7, h8, h9, h10, h11⟩ := hinv
  constructor <;>
    grind -linarith [Pc.closing, Pc.closed, Pc.deleting, Pc.pending, Pc.writes, Pc.reads]

lemma Inv.callback (hinv : Inv s) (hi : s.pc i = .callback k)
    (hpc : ∀ j, s'.pc j = if j = i then .idle else s.pc j)
    (hhandle : ∀ h, s'.handle h =
      if h = k then { s.handle k with callbacks := (s.handle k).callbacks + 1 } else s.handle h)
    (hret : s'.returned = s.returned) : Inv s' := by
  have hothers := pc_of_goto hpc
  have hsum := fun h => pending_eq (h := h) hpc
  obtain ⟨h1, h2, h3, h4, h5, h6, h7, h8, h9, h10, h11⟩ := hinv
  constructor <;>
    grind -linarith [Pc.closing, Pc.closed, Pc.deleting, Pc.pending, Pc.writes, Pc.reads]

lemma increment_eq (hroom : x.rc + 1 < 2 ^ 64) : x.increment = { x with rc := x.rc + 1 } := by
  simp only [Handle.increment, Nat.mod_eq_of_lt hroom]

omit [DecidableEq κ] in
/-- A handle that is in the tree while no release is about to remove it has a reference. -/
lemma Inv.rc_ne_zero_of_inTree (hinv : Inv s) (htree : (s.handle k).inTree = true)
    (hspaced : (s.handle k).rc = 0 → ∀ j, (s.pc j).closing k = false) : (s.handle k).rc ≠ 0 := by
  intro hzero
  have hcreated : (s.handle k).created = true := by
    by_contra hc
    simp [(hinv.fresh k (by simpa using hc)).2.1] at htree
  by_cases hcb : (s.handle k).callbacks = 0
  · obtain ⟨j, hj⟩ := hinv.zero k hzero hcreated hcb
    rw [Pc.deleting, hspaced hzero j, Bool.false_or] at hj
    simp [hinv.removed k j hj] at htree
  · simp [(hinv.done k hcb).2.1] at htree

lemma Inv.lookupAcquire (hinv : Inv s) (hi : s.pc i = .lookupAcquire k)
    (hroom : (s.handle k).rc + 1 < 2 ^ 64)
    (hspaced : (s.handle k).rc = 0 → ∀ j, (s.pc j).closing k = false)
    (hpc : ∀ j, s'.pc j = if j = i then .lookupUnlock k true else s.pc j)
    (hhandle : ∀ h, s'.handle h = if h = k then (s.handle k).increment else s.handle h)
    (hret : s'.returned = s.returned) : Inv s' := by
  have hrc := hinv.rc_ne_zero_of_inTree (hinv.found i k hi) hspaced
  rw [increment_eq hroom] at hhandle
  have hothers := pc_of_goto hpc
  have hsum := fun h => pending_eq (h := h) hpc
  obtain ⟨h1, h2, h3, h4, h5, h6, h7, h8, h9, h10, h11⟩ := hinv
  constructor <;>
    grind -linarith [Pc.closing, Pc.closed, Pc.deleting, Pc.pending, Pc.writes, Pc.reads]

omit [DecidableEq κ] in
lemma pending_pos (hi : s.pc i = .lookupUnlock h true) : 0 < pending s h := by
  have hle : (s.pc i).pending h ≤ pending s h :=
    Finset.single_le_sum (f := fun j => (s.pc j).pending h) (fun _ _ => Nat.zero_le _)
      (Finset.mem_univ i)
  rw [hi] at hle
  simp only [Pc.pending, if_true] at hle
  omega

lemma Inv.lookupReturn (hinv : Inv s) (hi : s.pc i = .lookupUnlock k true)
    (hpc : ∀ j, s'.pc j = if j = i then .idle else s.pc j)
    (hhandle : ∀ h, s'.handle h =
      if h = k then { s.handle k with refs := (s.handle k).refs + 1 } else s.handle h)
    (hret : s'.returned = ⟨k, (s.handle k).dropped, (s.handle k).callbacks⟩ :: s.returned) :
    Inv s' := by
  have hpos := pending_pos hi
  have hothers := pc_of_goto hpc
  have hsum := fun h => pending_eq (h := h) hpc
  obtain ⟨h1, h2, h3, h4, h5, h6, h7, h8, h9, h10, h11⟩ := hinv
  constructor <;>
    grind -linarith [Pc.closing, Pc.closed, Pc.deleting, Pc.pending, Pc.writes, Pc.reads]

omit [DecidableEq κ] in
lemma Inv.new (hinv : Inv s) (hcr : (s.handle k).created = false)
    (hpc : ∀ j, s'.pc j = s.pc j)
    (hhandle : ∀ h, s'.handle h = if h = k then handleNew else s.handle h)
    (hret : s'.returned = s.returned) : Inv s' := by
  have hpend : ∀ h, pending s' h = pending s h := by
    intro h
    simp only [pending, hpc]
  obtain ⟨h1, h2, h3, h4, h5, h6, h7, h8, h9, h10, h11⟩ := hinv
  constructor <;> grind -linarith [handleNew, Pc.deleting]

omit [DecidableEq κ] in
lemma Inv.acquire (hinv : Inv s) (hroom : (s.handle k).rc + 1 < 2 ^ 64)
    (hrefs : 0 < (s.handle k).refs)
    (hpc : ∀ j, s'.pc j = s.pc j)
    (hhandle : ∀ h, s'.handle h =
      if h = k then { (s.handle k).increment with refs := (s.handle k).refs + 1 } else s.handle h)
    (hret : s'.returned = s.returned) : Inv s' := by
  have hpend : ∀ h, pending s' h = pending s h := by
    intro h
    simp only [pending, hpc]
  rw [increment_eq hroom] at hhandle
  obtain ⟨h1, h2, h3, h4, h5, h6, h7, h8, h9, h10, h11⟩ := hinv
  constructor <;> grind -linarith

/-- A release decrements. If it is the last one, nobody else is inside of a release. -/
lemma Inv.release (hinv : Inv s) (hi : s.pc i = .idle) (hrefs : 0 < (s.handle k).refs)
    (hspaced : (s.handle k).rc = 1 → ∀ j, s.pc j ≠ .test k)
    (hpc : ∀ j, s'.pc j = if j = i then .test k else s.pc j)
    (hhandle : ∀ h, s'.handle h = if h = k then (s.handle k).decrement else s.handle h)
    (hret : s'.returned = s.returned) : Inv s' := by
  have hcount := hinv.count k
  have hbound := hinv.bound k
  have hrc : ((s.handle k).rc + 2 ^ 64 - 1) % 2 ^ 64 = (s.handle k).rc - 1 := by omega
  simp only [Handle.decrement, hrc] at hhandle
  have hothers := pc_of_goto hpc
  have hsum := fun h => pending_eq (h := h) hpc
  obtain ⟨h1, h2, h3, h4, h5, h6, h7, h8, h9, h10, h11⟩ := hinv
  constructor <;>
    grind -linarith [Pc.closing, Pc.closed, Pc.deleting, Pc.pending, Pc.writes, Pc.reads]

/-! ### The steps -/

lemma access_inv (hinv : Inv s) (hspaced : Spaced s (i, .step)) (hs : access s i = some s') :
    Inv s' := by
  -- past its own read of the count a release knows that nobody has a reference
  have hlast : ∀ k, (s.pc i).deleting k = true → s.pc i ≠ .test k → (s.handle k).rc = 0 := by
    intro k hk htest
    by_contra hrc
    exact htest ((hinv.positive k hrc).2.2 i hk)
  simp only [Spaced] at hspaced
  unfold access at hs
  split at hs
  · simp at hs
  · -- the search, which runs while nobody writes
    rename_i k hpc
    have hnone : ∀ j, j ≠ i → (s.pc j).writes = false := by
      intro j hj
      by_contra hw
      have := (hinv.writer j i (by simpa using hw) hj.symm).1
      simp [hpc] at this
    obtain rfl := Option.some.inj hs
    split
    · rename_i hfound
      exact hinv.goto (by simp [hpc]) (by simp) (by simpa using hfound) (fun _ => hnone) (by simp)
    · exact hinv.goto (by simp [hpc]) (by simp) (by simp) (fun _ => hnone) (by simp)
  · -- the lookup counts its reference
    rename_i k hpc
    rw [hpc] at hspaced
    obtain rfl := Option.some.inj hs
    exact hinv.lookupAcquire hpc hspaced.1 hspaced.2 (fun _ => goto_pc) (fun _ => setHandle_handle)
      rfl
  · -- the lookup returns
    rename_i k found hpc
    split at hs
    · rename_i hfound
      rw [hfound] at hpc
      obtain rfl := Option.some.inj hs
      exact hinv.lookupReturn hpc (fun _ => goto_pc) (fun _ => setHandle_handle) rfl
    · rename_i hfound
      obtain rfl := Option.some.inj hs
      exact hinv.goto (by simp [hpc, hfound]) (by simp) (by simp) (by simp) (by simp)
  · -- the release reads the count
    rename_i k hpc
    obtain rfl := Option.some.inj hs
    split
    · rename_i hrc
      exact hinv.test hpc hrc (fun _ => goto_pc) (fun _ => rfl) rfl
    · rename_i hrc
      exact hinv.goto (by simp [hpc]) (by simpa using hrc) (by simp) (by simp) (by simp)
  · -- the first read of `_handle_delete_internal`
    rename_i k hpc
    have hrc := hlast k (by simp [hpc]) (by simp [hpc])
    obtain rfl := Option.some.inj hs
    simp only [hrc, ne_eq, not_true_eq_false, if_false]
    exact hinv.goto (by simp [hpc]) (by simpa using hrc) (by simp) (by simp) (by simp)
  · -- the write lock
    rename_i k hpc
    have hrc := hlast k (by simp [hpc]) (by simp [hpc])
    split at hs
    · rename_i hfree
      obtain rfl := Option.some.inj hs
      exact hinv.goto (by simp [hpc]) (by simpa using hrc) (by simp) (by simp)
        (fun _ j _ => hfree j)
    · simp at hs
  · -- the second read
    rename_i k hpc
    have hrc := hlast k (by simp [hpc]) (by simp [hpc])
    have halone := fun j => hinv.writer i j (by simp [hpc])
    obtain rfl := Option.some.inj hs
    simp only [hrc, ne_eq, not_true_eq_false, if_false]
    exact hinv.goto (by simp [hpc]) (by simpa using hrc) (by simp) (by simp) (fun _ => halone)
  · rename_i k hpc
    obtain rfl := Option.some.inj hs
    exact hinv.remove hpc (fun _ => goto_pc) (fun _ => setHandle_handle) rfl
  · -- the write lock is given back
    rename_i k removed hpc
    obtain rfl := Option.some.inj hs
    cases removed with
    | true =>
      have hrc := hlast k (by simp [hpc]) (by simp [hpc])
      exact hinv.goto (by simp [hpc]) (by simpa using hrc) (by simp) (by simp) (by simp)
    | false => exact hinv.goto (by simp [hpc]) (by simp) (by simp) (by simp) (by simp)
  · rename_i k hpc
    obtain rfl := Option.some.inj hs
    exact hinv.callback hpc (fun _ => goto_pc) (fun _ => setHandle_handle) rfl

lemma step_inv {l : κ × Action η} (hinv : Inv s) (hspaced : Spaced s l)
    (hs : step s l = some s') : Inv s' := by
  obtain ⟨i, a⟩ := l
  cases a with
  | step => exact access_inv hinv hspaced hs
  | new k =>
    simp only [step] at hs
    split at hs
    · rename_i hnew
      obtain rfl := Option.some.inj hs
      exact hinv.new hnew.2.1 (fun _ => rfl) (fun _ => setHandle_handle) rfl
    · simp at hs
  | lookup k =>
    simp only [step] at hs
    split at hs
    · rename_i hlock
      obtain rfl := Option.some.inj hs
      exact hinv.goto (by simp [hlock.1]) (by simp) (by simp) (fun _ j _ => hlock.2 j) (by simp)
    · simp at hs
  | acquire k =>
    simp only [step] at hs
    split at hs
    · rename_i hrefs
      obtain rfl := Option.some.inj hs
      exact hinv.acquire hspaced hrefs.2 (fun _ => rfl) (fun _ => setHandle_handle) rfl
    · simp at hs
  | release k =>
    simp only [step] at hs
    split at hs
    · rename_i hrefs
      obtain rfl := Option.some.inj hs
      exact hinv.release hrefs.1 hrefs.2 hspaced (fun _ => goto_pc) (fun _ => setHandle_handle) rfl
    · simp at hs

lemma concerns_of_deleting (hp : p.deleting h = true) : p.concerns h = true := by
  cases p with
  | unlock k removed => cases removed <;> simp_all [Pc.concerns]
  | _ => simp_all [Pc.concerns]

omit [DecidableEq κ] in
lemma Inv.once (hinv : Inv s) : Once s := by
  have hran : ∀ h, (s.handle h).callbacks ≠ 0 → (s.handle h).rc = 0 := by
    intro h hcb
    by_contra hrc
    exact hcb (hinv.positive h hrc).1
  refine ⟨?_, ?_, ?_, hinv.lookups⟩
  · intro h
    by_cases hcb : (s.handle h).callbacks = 0
    · omega
    · exact (hinv.done h hcb).1.le
  · intro h hcb
    have hcount := hinv.count h
    rw [hran h hcb] at hcount
    exact ⟨by omega, hran h hcb⟩
  · intro h hcreated hrefs hquiet
    have hpend : pending s h = 0 := by
      refine Finset.sum_eq_zero fun i _ => ?_
      have := hquiet i
      grind -linarith [Pc.concerns, Pc.pending]
    have hrc : (s.handle h).rc = 0 := by
      rw [hinv.count h, hrefs, hpend]
    by_cases hcb : (s.handle h).callbacks = 0
    · obtain ⟨i, hi⟩ := hinv.zero h hrc hcreated hcb
      have := hquiet i
      simp [concerns_of_deleting hi] at this
    · exact (hinv.done h hcb).1

/-- **A handle is deleted once** in every run whose releases and lookups keep apart: the callback
runs once, after the last reference is gone, and no lookup returns a handle past that point. -/
theorem once_of_spaced {moves : List (κ × Action η)}
    (hspaced : Along step Spaced (initial κ η) moves)
    (hrun : run step (initial κ η) moves = some s) : Once s :=
  (run_inv (fun _ _ _ h hk hs => step_inv h hk hs) moves _ _ initial_inv hspaced hrun).once

/-- CPU `1` looks the handle up and releases it after CPU `0` has released the creation
reference; its release deletes the handle. -/
def lookupThenDelete : List (Fin 2 × Action Unit) :=
  [(0, .new ()), (1, .lookup ()), (1, .step), (1, .step), (1, .step), (0, .release ()), (0, .step),
    (1, .release ()), (1, .step), (1, .step), (1, .step), (1, .step), (1, .step), (1, .step),
    (1, .step)]

theorem lookupThenDelete_once : ∃ s, run step (initial (Fin 2) Unit) lookupThenDelete = some s ∧
    (s.handle ()).callbacks = 1 ∧ s.returned.length = 1 ∧ Once s := by
  have hmap : (run step (initial (Fin 2) Unit) lookupThenDelete).map
      (fun s => ((s.handle ()).callbacks, s.returned.length)) = some (1, 1) := by decide +kernel
  obtain ⟨s, hs, heq⟩ := Option.map_eq_some_iff.mp hmap
  obtain ⟨hcb, hret⟩ := Prod.mk.inj heq
  have hspaced : Along step Spaced (initial (Fin 2) Unit) lookupThenDelete := by decide +kernel
  exact ⟨s, hs, hcb, hret, once_of_spaced hspaced hs⟩

/-- Both CPUs decrement before either of them reads the count. -/
def deleteTwice : List (Fin 2 × Action Unit) :=
  ([(0, .new ()), (0, .acquire ()), (0, .release ()), (1, .release ())] :
      List (Fin 2 × Action Unit)) ++
    List.replicate 7 (0, Action.step) ++ List.replicate 7 (1, Action.step)

/-- Both of them see zero, and the callback runs twice. -/
theorem deleteTwice_not_once :
    ¬ ∀ (moves : List (Fin 2 × Action Unit)) (s : State (Fin 2) Unit),
      run step (initial (Fin 2) Unit) moves = some s → Once s := by
  intro h
  have hmap : (run step (initial (Fin 2) Unit) deleteTwice).map
      (fun s => (s.handle ()).callbacks) = some 2 := by decide +kernel
  obtain ⟨s, hs, hcb⟩ := Option.map_eq_some_iff.mp hmap
  have := (h _ s hs).atMost ()
  omega

end KernelModel.Handles
