import KernelModel.HierBitmap
import KernelModel.LoadBalancer
import KernelModel.Places
import KernelModel.Runs

/-!
The run queues keep their threads.

The invariant says which threads each queue has, that a thread is in one queue or in the hands of
one CPU, and that the bit of a queue is right unless the holder of its lock is about to change it.
-/

namespace KernelModel.LoadBalancer

open HierBitmap LinkedQueue Places Runs
open Scheduler (Thread lowest schedulerLoadBalancerQueueCount priorityToMinQueueIndex
  priorityToMaxQueueIndex)

/-! ### Masks -/

lemma getLsbD_eq (m : BitVec 64) (i : ℕ) : m.getLsbD i = m.toNat.testBit i := rfl

lemma lowest_eq_some {m : BitVec 64} {i : ℕ} : lowest m = some i ↔ i < 64 ∧ IsLowest m.toNat i := by
  unfold lowest IsLowest
  rw [List.find?_range_eq_some]
  simp only [getLsbD_eq, List.mem_range]
  constructor
  · rintro ⟨h, hi, hlow⟩
    exact ⟨hi, h, fun j hj => by simpa using hlow j hj⟩
  · rintro ⟨hi, h, hlow⟩
    exact ⟨h, hi, fun j hj => by simp [hlow j hj]⟩

lemma lowest_eq_none {m : BitVec 64} : lowest m = none ↔ ∀ i < 64, m.getLsbD i = false := by
  unfold lowest
  rw [List.find?_eq_none]
  simp

lemma getLsbD_clear {m : BitVec 64} {i j : ℕ} (h : lowest m = some i) (hj : j < 64) :
    (~~~m ||| (m - 1)).getLsbD j = decide (j ≠ i) := by
  obtain ⟨hi, hlow⟩ := lowest_eq_some.mp h
  have hpred : (m - 1).toNat = m.toNat - 1 := by
    have := hlow.ne_zero
    have := m.isLt
    rw [BitVec.toNat_sub]
    simp only [BitVec.ofNat_eq_ofNat, BitVec.toNat_ofNat]
    omega
  rw [BitVec.getLsbD_or, BitVec.getLsbD_not, getLsbD_eq (m - 1), hpred, testBit_pred hlow,
    getLsbD_eq]
  rcases lt_trichotomy j i with hji | rfl | hji
  · simp [hji, hji.ne]
  · simp [hlow.1]
  · simp [show ¬ j < i by omega, hji.ne', hj]

variable {ι κ : Type} [DecidableEq ι] [DecidableEq κ]

/-! ### The invariant -/

/-- The range of queues of a thread without a forced one. -/
def InBand (x : Thread) : Prop :=
  x.queueIndex < schedulerLoadBalancerQueueCount ∧ (x.forcedQueueIndex = 0 →
    x.queueIndexOffset + priorityToMinQueueIndex x.priority ≤ x.queueIndex ∧
      x.queueIndex ≤ x.queueIndexOffset + priorityToMaxQueueIndex x.priority)

/-- The CPU has the thread in its hands. -/
@[simp] def Pc.owns (t : ι) : Pc ι → Bool
  | .addIndex u | .addLock u | .addLink u => u = t
  | .clear _ _ out | .unlock _ _ out => out = some t
  | _ => false

/-- The queue whose lock the CPU holds. -/
@[simp] def Pc.held (thread : ι → Thread) : Pc ι → Option ℕ
  | .addLink t | .addBit t | .addUnlock t => some (thread t).queueIndex
  | .look i _ | .clear i _ _ | .unlock i _ _ => some i
  | _ => none

/-- The queue whose bit the CPU is about to change. -/
@[simp] def Pc.stale (thread : ι → Thread) : Pc ι → Option ℕ
  | .addBit t => some (thread t).queueIndex
  | .clear i _ _ => some i
  | _ => none

/-- What the CPU relies on. -/
@[simp] def Pc.Relies (thread : ι → Thread) (q : ℕ → List ι) : Pc ι → Prop
  | .addLock t | .addLink t => InBand (thread t)
  | .addBit t | .addUnlock t => t ∈ q (thread t).queueIndex
  | .look i mask | .unlock i mask _ => lowest mask = some i
  | .clear i mask _ => lowest mask = some i ∧ q i = []
  | _ => True

/-- The queues have the threads `q`. -/
structure Inv (s : State ι κ) (q : ℕ → List ι) : Prop where
  linked : ∀ i, Linked s.next (s.head i) (s.tail i) (q i)
  places : InOnePlace (fun c t => (s.pc c).owns t = true) q
  added : ∀ t, s.added t = true ↔ (∃ c, (s.pc c).owns t = true) ∨ ∃ i, t ∈ q i
  fifo : ∀ i, s.entered i = s.left i ++ q i
  forced : ∀ t, (s.thread t).forcedQueueIndex < schedulerLoadBalancerQueueCount
  band : ∀ i t, t ∈ q i → (s.thread t).queueIndex = i ∧ InBand (s.thread t)
  lock : ∀ c i, (s.pc c).held s.thread = some i ↔ s.lock i = some c
  bits : ∀ i < 64, (∀ c, (s.pc c).stale s.thread ≠ some i) →
    (s.bitmap.getLsbD i = true ↔ q i ≠ [])
  relies : ∀ c, (s.pc c).Relies s.thread q

lemma queueIndexOffset_band (x : Thread) :
    x.queueIndexOffset + priorityToMinQueueIndex x.priority
        ≤ x.queueIndexOffset + priorityToMaxQueueIndex x.priority ∧
      x.queueIndexOffset + priorityToMaxQueueIndex x.priority <
        schedulerLoadBalancerQueueCount := by
  have hoff : x.queueIndexOffset = 0 ∨ x.queueIndexOffset = 32 := by
    unfold Thread.queueIndexOffset
    split_ifs
    · exact .inl rfl
    · exact .inr rfl
  have hcount : schedulerLoadBalancerQueueCount = 64 := rfl
  rcases hoff with h | h <;> cases hp : x.priority <;>
    simp only [h, hcount, priorityToMinQueueIndex, priorityToMaxQueueIndex] <;> omega

/-- The index that is chosen lies in the thread's band, or is the forced one. -/
lemma inBand_updateQueueIndex {x : Thread}
    (h : x.forcedQueueIndex < schedulerLoadBalancerQueueCount) :
    InBand x.updateQueueIndex ∧ x.updateQueueIndex.forcedQueueIndex = x.forcedQueueIndex := by
  obtain ⟨hle, hlt⟩ := queueIndexOffset_band x
  by_cases hforced : x.forcedQueueIndex ≠ 0
  · have heq : x.updateQueueIndex = { x with queueIndex := x.forcedQueueIndex } := by
      rw [Thread.updateQueueIndex, if_pos hforced]
    rw [heq]
    exact ⟨⟨h, fun h0 => absurd h0 hforced⟩, rfl⟩
  · obtain ⟨i, heq⟩ : ∃ i, x.updateQueueIndex = { x with
        queueIndex := if i < x.queueIndexOffset + priorityToMinQueueIndex x.priority
          then x.queueIndexOffset + priorityToMinQueueIndex x.priority
          else if i > x.queueIndexOffset + priorityToMaxQueueIndex x.priority
            then x.queueIndexOffset + priorityToMaxQueueIndex x.priority else i
        earlyYield := false
        ioYield := false } := by
      rw [Thread.updateQueueIndex, if_neg hforced]
      exact ⟨_, rfl⟩
    have hoff : x.updateQueueIndex.queueIndexOffset = x.queueIndexOffset := by
      rw [heq]
      rfl
    unfold InBand
    rw [hoff, heq]
    refine ⟨?_, rfl⟩
    simp only
    split_ifs <;> omega

section

variable {s : State ι κ} {q : ℕ → List ι} {c : κ} {p : Pc ι} {t : ι}

omit [DecidableEq ι] in
lemma goto_pc (s : State ι κ) (c : κ) (p : Pc ι) (c' : κ) :
    (s.goto c p).pc c' = if c' = c then p else s.pc c' := by
  simp [State.goto, Function.update_apply]

omit [DecidableEq κ] in
lemma Inv.held_unique (h : Inv s q) {c c' : κ} {i : ℕ} (hc : (s.pc c).held s.thread = some i)
    (hc' : (s.pc c').held s.thread = some i) : c = c' := by
  rw [h.lock] at hc hc'
  rw [hc] at hc'
  exact Option.some.inj hc'

lemma owns_goto (howns : ∀ t, p.owns t = (s.pc c).owns t) (c' : κ) (t : ι) :
    ((s.goto c p).pc c').owns t = (s.pc c').owns t := by
  rw [goto_pc]
  split_ifs with hc
  · rw [howns, hc]
  · rfl

omit [DecidableEq ι] in
lemma stale_goto {i : ℕ} (hstale : (s.pc c).stale s.thread = none)
    (hs : ∀ c', ((s.goto c p).pc c').stale s.thread ≠ some i) (c' : κ) :
    (s.pc c').stale s.thread ≠ some i := by
  by_cases hc : c' = c
  · rw [hc, hstale]
    simp
  · have := hs c'
    rwa [goto_pc, if_neg hc] at this

omit [DecidableEq ι] in
lemma relies_goto {thread : ι → Thread} (hrelies : p.Relies thread q)
    (h : ∀ c', (s.pc c').Relies thread q) (c' : κ) : ((s.goto c p).pc c').Relies thread q := by
  rw [goto_pc]
  split_ifs
  · exact hrelies
  · exact h c'

lemma Inv.goto (h : Inv s q) (howns : ∀ t, p.owns t = (s.pc c).owns t)
    (hheld : p.held s.thread = (s.pc c).held s.thread) (hstale : (s.pc c).stale s.thread = none)
    (hrelies : p.Relies s.thread q) : Inv (s.goto c p) q where
  linked := h.linked
  places := by
    simp only [owns_goto howns]
    exact h.places
  added t := by
    simp only [owns_goto howns]
    exact h.added t
  fifo := h.fifo
  forced := h.forced
  band := h.band
  lock c' i := by
    rw [goto_pc]
    split_ifs with hc
    · rw [hc]
      exact (iff_of_eq (congrArg (· = some i) hheld)).trans (h.lock c i)
    · exact h.lock c' i
  bits i hi hs := by
    exact h.bits i hi (stale_goto hstale hs)
  relies := relies_goto hrelies h.relies

lemma Inv.acquire {i : ℕ} (h : Inv s q) (howns : ∀ t, p.owns t = (s.pc c).owns t)
    (hfree : s.lock i = none) (hheld : (s.pc c).held s.thread = none)
    (hheld' : p.held s.thread = some i) (hstale : (s.pc c).stale s.thread = none)
    (hrelies : p.Relies s.thread q) : Inv ((s.setLock i (some c)).goto c p) q where
  linked := h.linked
  places := by
    simp only [owns_goto (s := s.setLock i (some c)) howns]
    exact h.places
  added t := by
    simp only [owns_goto (s := s.setLock i (some c)) howns]
    exact h.added t
  fifo := h.fifo
  forced := h.forced
  band := h.band
  lock c' j := by
    have hold := h.lock c' j
    have hlock : ((s.setLock i (some c)).goto c p).lock j
        = if j = i then some c else s.lock j := by
      simp [State.goto, State.setLock, Function.update_apply]
    rw [goto_pc, hlock]
    by_cases hc : c' = c
    · subst hc
      rw [if_pos rfl]
      rw [hheld] at hold
      refine (iff_of_eq (congrArg (· = some j) hheld')).trans ?_
      split_ifs with hj
      · simp [hj]
      · rw [← hold]
        simpa using Ne.symm hj
    · rw [if_neg hc]
      refine hold.trans ?_
      split_ifs with hj
      · rw [hj, hfree]
        simpa using Ne.symm hc
      · exact Iff.rfl
  bits j hj hs := by
    exact h.bits j hj (stale_goto hstale hs)
  relies := relies_goto hrelies h.relies

lemma Inv.release {i : ℕ} (h : Inv s q) (howns : ∀ t, p.owns t = (s.pc c).owns t)
    (hheld : (s.pc c).held s.thread = some i) (hheld' : p.held s.thread = none)
    (hstale : (s.pc c).stale s.thread = none) (hrelies : p.Relies s.thread q) :
    Inv ((s.setLock i none).goto c p) q where
  linked := h.linked
  places := by
    simp only [owns_goto (s := s.setLock i none) howns]
    exact h.places
  added t := by
    simp only [owns_goto (s := s.setLock i none) howns]
    exact h.added t
  fifo := h.fifo
  forced := h.forced
  band := h.band
  lock c' j := by
    have hold := h.lock c' j
    have hlock : ((s.setLock i none).goto c p).lock j = if j = i then none else s.lock j := by
      simp [State.goto, State.setLock, Function.update_apply]
    rw [goto_pc, hlock]
    by_cases hc : c' = c
    · subst hc
      rw [if_pos rfl]
      refine (iff_of_eq (congrArg (· = some j) hheld')).trans ?_
      rw [hheld] at hold
      split_ifs with hj
      · simp
      · rw [← hold]
        simpa using Ne.symm hj
    · rw [if_neg hc]
      refine hold.trans ?_
      split_ifs with hj
      · -- only the CPU itself held it
        rw [hj, (h.lock c i).mp hheld]
        simpa using Ne.symm hc
      · exact Iff.rfl
  bits j hj hs := by
    exact h.bits j hj (stale_goto hstale hs)
  relies := relies_goto hrelies h.relies

lemma Inv.setBitmap {i : ℕ} {bitmap : BitVec 64} (h : Inv s q)
    (howns : ∀ t, p.owns t = (s.pc c).owns t)
    (hheld : p.held s.thread = (s.pc c).held s.thread)
    (hstale : (s.pc c).stale s.thread = some i) (hrelies : p.Relies s.thread q)
    (hbit : i < 64 → (bitmap.getLsbD i = true ↔ q i ≠ []))
    (hother : ∀ j < 64, j ≠ i → bitmap.getLsbD j = s.bitmap.getLsbD j) :
    Inv ({ s with bitmap := bitmap }.goto c p) q where
  linked := h.linked
  places := by
    simp only [owns_goto (s := { s with bitmap := bitmap }) howns]
    exact h.places
  added t := by
    simp only [owns_goto (s := { s with bitmap := bitmap }) howns]
    exact h.added t
  fifo := h.fifo
  forced := h.forced
  band := h.band
  lock c' j := by
    rw [goto_pc]
    split_ifs with hc
    · rw [hc]
      exact (iff_of_eq (congrArg (· = some j) hheld)).trans (h.lock c j)
    · exact h.lock c' j
  bits j hj hs := by
    by_cases hji : j = i
    · rw [hji]
      exact hbit (hji ▸ hj)
    · refine (iff_of_eq (congrArg (· = true) (hother j hj hji))).trans (h.bits j hj fun c' => ?_)
      by_cases hc : c' = c
      · rw [hc, hstale]
        simpa using Ne.symm hji
      · have := hs c'
        rwa [goto_pc, if_neg hc] at this
  relies := relies_goto hrelies h.relies

/-! ### Records of threads -/

/-- The thread whose record the CPU is going to read. -/
@[simp] def Pc.reads : Pc ι → Option ι
  | .addLock t | .addLink t | .addBit t | .addUnlock t => some t
  | _ => none

lemma reads_update {x : Thread} {thread : ι → Thread} (h : p.reads ≠ some t) :
    p.held (Function.update thread t x) = p.held thread ∧
      p.stale (Function.update thread t x) = p.stale thread ∧
      (p.Relies (Function.update thread t x) q ↔ p.Relies thread q) := by
  cases p <;> simp_all

omit [DecidableEq κ] in
/-- **The record of a thread changes** that is in no queue. -/
lemma Inv.setThread {x : Thread} (h : Inv s q) (hq : ∀ i, t ∉ q i)
    (hpc : ∀ c, s.pc c ≠ .addLock t ∧ s.pc c ≠ .addLink t)
    (hx : x.forcedQueueIndex < schedulerLoadBalancerQueueCount) :
    Inv { s with thread := Function.update s.thread t x } q := by
  have hreads : ∀ c, (s.pc c).reads ≠ some t := by
    intro c
    have hrel := h.relies c
    have hne := hpc c
    cases hp : s.pc c <;> simp_all
    all_goals
      rintro rfl
      exact hq _ hrel
  exact
    { linked := h.linked
      places := h.places
      added := h.added
      fifo := h.fifo
      forced := fun u => by
        by_cases hu : u = t
        · subst hu
          simpa using hx
        · simpa [hu] using h.forced u
      band := fun i u hu => by
        have hut : u ≠ t := by
          rintro rfl
          exact hq i hu
        simpa [hut] using h.band i u hu
      lock := fun c i => by
        simp only [(reads_update (q := q) (hreads c)).1]
        exact h.lock c i
      bits := fun i hi hs => by
        refine h.bits i hi fun c => ?_
        have := hs c
        rwa [(reads_update (q := q) (hreads c)).2.1] at this
      relies := fun c => (reads_update (hreads c)).2.2.mpr (h.relies c) }

/-! ### Threads come and go -/

omit [DecidableEq κ] in
lemma quiet_spec (thread : ι → Thread) (h : p.quiet = true) :
    (∀ t, p.owns t = false) ∧ p.held thread = none ∧ p.stale thread = none := by
  cases p <;> simp_all

lemma Inv.addCall (h : Inv s q) (hquiet : (s.pc c).quiet = true) (ht : s.added t = false) :
    Inv ({ s with added := Function.update s.added t true }.goto c (.addIndex t)) q := by
  have hfree := (not_congr (h.added t)).mp (by simp [ht])
  push Not at hfree
  obtain ⟨hold, hheld, hstale⟩ := quiet_spec s.thread hquiet
  have howns : ∀ c' u, ((s.goto c (.addIndex t)).pc c').owns u = true ↔
      (s.pc c').owns u = true ∨ c' = c ∧ u = t := by
    intro c' u
    rw [goto_pc]
    by_cases hc : c' = c
    · subst hc
      rw [if_pos rfl, hold u]
      simp only [Pc.owns, decide_eq_true_eq, Bool.false_eq_true, true_and, false_or]
      exact eq_comm
    · simp [hc]
  exact
    { linked := h.linked
      places := h.places.take (fun c' => by simpa using hfree.1 c') hfree.2
        fun c' u hu => (howns c' u).mp hu
      added := fun u => by
        by_cases hu : u = t
        · subst hu
          refine iff_of_true (by simp [State.goto]) (.inl ⟨c, ?_⟩)
          exact (howns c u).mpr (.inr ⟨rfl, rfl⟩)
        · have hadded : ({ s with added := Function.update s.added t true }.goto c
              (.addIndex t)).added u = s.added u := by
            simp [State.goto, hu]
          rw [hadded, h.added u]
          refine or_congr_left (exists_congr fun c' => ?_)
          exact ((howns c' u).trans (by simp [hu])).symm
      fifo := h.fifo
      forced := h.forced
      band := h.band
      lock := fun c' i => by
        rw [goto_pc]
        split_ifs with hc
        · subst hc
          refine (iff_of_eq ?_).trans (h.lock c' i)
          rw [hheld]
          rfl
        · exact h.lock c' i
      bits := fun i hi hs => h.bits i hi (stale_goto hstale hs)
      relies := relies_goto trivial h.relies }

lemma Inv.drop {i : ℕ} {mask : BitVec 64} (h : Inv s q) (hc : s.pc c = .unlock i mask (some t)) :
    Inv ({ s with added := Function.update s.added t false }.goto c (.unlock i mask none)) q := by
  have hown : (s.pc c).owns t = true := by simp [hc]
  have howns : ∀ c' u, ((s.goto c (.unlock i mask none)).pc c').owns u = true ↔
      (s.pc c').owns u = true ∧ u ≠ t := by
    intro c' u
    rw [goto_pc]
    by_cases hcc : c' = c
    · subst hcc
      rw [if_pos rfl, hc]
      simp [eq_comm]
    · rw [if_neg hcc]
      refine ⟨fun hu => ⟨hu, ?_⟩, fun hu => hu.1⟩
      rintro rfl
      exact hcc (h.places.alone c' c u hu hown)
  exact
    { linked := h.linked
      places := h.places.shrink fun c' u hu => ((howns c' u).mp hu).1
      added := fun u => by
        by_cases hu : u = t
        · subst hu
          refine iff_of_false (by simp [State.goto]) ?_
          rintro (⟨c', hc'⟩ | ⟨j, hj⟩)
          · exact ((howns c' u).mp hc').2 rfl
          · exact h.places.notQueued c u j hown hj
        · have hadded : ({ s with added := Function.update s.added t false }.goto c
              (.unlock i mask none)).added u = s.added u := by
            simp [State.goto, hu]
          rw [hadded, h.added u]
          refine or_congr_left (exists_congr fun c' => ?_)
          exact ((howns c' u).trans (by simp [hu])).symm
      fifo := h.fifo
      forced := h.forced
      band := h.band
      lock := fun c' j => by
        rw [goto_pc]
        split_ifs with hcc
        · subst hcc
          refine (iff_of_eq ?_).trans (h.lock c' j)
          rw [hc]
          rfl
        · exact h.lock c' j
      bits := fun j hj hs => h.bits j hj (stale_goto (by rw [hc]; rfl) hs)
      relies := relies_goto (by have := h.relies c; rw [hc] at this; exact this) h.relies }

/-! ### Links -/

omit [DecidableEq ι] in
lemma relies_congr {thread : ι → Thread} {q' : ℕ → List ι} (h : p.Relies thread q)
    (hq : ∀ j, p.held thread = some j → q' j = q j) : p.Relies thread q' := by
  cases p <;> simp_all

lemma Inv.link {i : ℕ} (h : Inv s q) (hc : s.pc c = .addLink t) (hi : (s.thread t).queueIndex = i) :
    Inv ((s.link i t).goto c (.addBit t)) (Function.update q i (q i ++ [t])) := by
  have hown : (s.pc c).owns t = true := by simp [hc]
  have hnot : ∀ j, t ∉ q j := fun j => h.places.notQueued c t j hown
  have hheld : (s.pc c).held s.thread = some i := by simp [hc, hi]
  have hband : InBand (s.thread t) := by simpa [hc] using h.relies c
  have howns : ∀ c' u, ((s.goto c (.addBit t)).pc c').owns u = true ↔
      (s.pc c').owns u = true ∧ u ≠ t := by
    intro c' u
    rw [goto_pc]
    by_cases hcc : c' = c
    · subst hcc
      rw [if_pos rfl, hc]
      simp [eq_comm]
    · rw [if_neg hcc]
      refine ⟨fun hu => ⟨hu, ?_⟩, fun hu => hu.1⟩
      rintro rfl
      exact hcc (h.places.alone c' c u hu hown)
  have hmem : ∀ j u, u ∈ Function.update q i (q i ++ [t]) j ↔ u ∈ q j ∨ j = i ∧ u = t := by
    intro j u
    by_cases hj : j = i
    · subst hj
      simp
    · simp [hj]
  exact
    { linked := fun j => by
        have hlink := h.linked i
        by_cases hj : j = i
        · subst hj
          cases htail : s.tail j with
          | none =>
            rw [htail] at hlink
            obtain ⟨hnil, hnew⟩ := hlink.append_nil (t := t)
            simpa [State.link, State.goto, htail, hnil] using hnew
          | some u =>
            rw [htail] at hlink
            have hnew := hlink.append (h.places.nodup j) (hnot j)
            simpa [State.link, State.goto, htail] using hnew
        · have hold := h.linked j
          cases htail : s.tail i with
          | none =>
            have hnew : Linked (Function.update s.next t none) (s.head j) (s.tail j) (q j) :=
              hold.congr fun u hu => Function.update_of_ne (ne_of_mem_of_not_mem hu (hnot j)) _ _
            simpa [State.link, State.goto, htail, hj] using hnew
          | some v =>
            have hv : v ∈ q i := by
              have := hlink.last
              rw [htail] at this
              exact List.mem_of_getLast? this.symm
            have hnew : Linked (Function.update (Function.update s.next t none) v (some t))
                (s.head j) (s.tail j) (q j) := hold.congr fun u hu => by
              have huv : u ≠ v := by
                rintro rfl
                exact hj (h.places.oneQueue u j i hu hv)
              rw [Function.update_of_ne huv,
                Function.update_of_ne (ne_of_mem_of_not_mem hu (hnot j))]
            simpa [State.link, State.goto, htail, hj] using hnew
      places := h.places.append hown fun c' u hu => (howns c' u).mp hu
      added := fun u => by
        refine (h.added u).trans ?_
        constructor
        · rintro (⟨c', hc'⟩ | ⟨j, hj⟩)
          · by_cases hu : u = t
            · exact .inr ⟨i, (hmem i u).mpr (.inr ⟨rfl, hu⟩)⟩
            · exact .inl ⟨c', (howns c' u).mpr ⟨hc', hu⟩⟩
          · exact .inr ⟨j, (hmem j u).mpr (.inl hj)⟩
        · rintro (⟨c', hc'⟩ | ⟨j, hj⟩)
          · exact .inl ⟨c', ((howns c' u).mp hc').1⟩
          · rcases (hmem j u).mp hj with hj | ⟨-, rfl⟩
            · exact .inr ⟨j, hj⟩
            · exact .inl ⟨c, hown⟩
      fifo := fun j => by
        by_cases hj : j = i
        · subst hj
          simp [State.link, State.goto, h.fifo j]
        · simpa [State.link, State.goto, hj] using h.fifo j
      forced := h.forced
      band := fun j u hu => by
        rcases (hmem j u).mp hu with hu | ⟨rfl, rfl⟩
        · exact h.band j u hu
        · exact ⟨hi, hband⟩
      lock := fun c' j => by
        rw [goto_pc]
        split_ifs with hcc
        · subst hcc
          refine (iff_of_eq ?_).trans (h.lock c' j)
          rw [hc]
          rfl
        · exact h.lock c' j
      bits := fun j hj hs => by
        have hji : j ≠ i := by
          have := hs c
          rw [goto_pc, if_pos rfl] at this
          rintro rfl
          exact this (by simp [State.link, State.goto, hi])
        rw [Function.update_of_ne hji]
        exact h.bits j hj (stale_goto (by rw [hc]; rfl) hs)
      relies := fun c' => by
        rw [goto_pc]
        split_ifs with hcc
        · exact (hmem _ t).mpr (.inr ⟨hi, rfl⟩)
        · refine relies_congr (h.relies c') fun j hj => Function.update_of_ne ?_ _ _
          rintro rfl
          exact hcc (h.held_unique hj hheld) }

lemma Inv.unlink {i : ℕ} {mask : BitVec 64} (h : Inv s q) (hc : s.pc c = .look i mask)
    (hhead : s.head i = some t) :
    ∃ rest, q i = t :: rest ∧ Inv ((s.unlink i t).goto c
      (if s.next t = none then .clear i mask (some t) else .unlock i mask (some t)))
        (Function.update q i rest) := by
  have hlink := h.linked i
  rw [hhead] at hlink
  obtain ⟨rest, hq, hrest⟩ := hlink.pop
  have hheld : (s.pc c).held s.thread = some i := by simp [hc]
  have hmask : lowest mask = some i := by simpa [hc] using h.relies c
  set p : Pc ι :=
    if s.next t = none then .clear i mask (some t) else .unlock i mask (some t) with hp
  have hpowns : ∀ u, p.owns u = true ↔ u = t := fun u => by
    rw [hp]
    split_ifs <;> simp [eq_comm]
  have hpheld : p.held s.thread = some i := by
    rw [hp]
    split_ifs <;> rfl
  have hempty : s.next t = none ↔ rest = [] := by
    rw [hrest.head_eq, List.head?_eq_none_iff]
  have howns : ∀ c' u, ((s.goto c p).pc c').owns u = true ↔
      (s.pc c').owns u = true ∨ c' = c ∧ u = t := by
    intro c' u
    rw [goto_pc]
    by_cases hcc : c' = c
    · subst hcc
      rw [if_pos rfl, hc, hpowns]
      simp
    · simp [hcc]
  have hmem : ∀ j u, u ∈ q j ↔ u ∈ Function.update q i rest j ∨ j = i ∧ u = t := by
    intro j u
    by_cases hj : j = i
    · subst hj
      simp [hq, or_comm]
    · simp [hj]
  refine ⟨rest, hq, ?_⟩
  exact
    { linked := fun j => by
        by_cases hj : j = i
        · subst hj
          by_cases hnext : s.next t = none
          · simpa [State.unlink, State.goto, hnext] using hrest
          · simpa [State.unlink, State.goto, hnext] using hrest
        · have hold := h.linked j
          by_cases hnext : s.next t = none
          · simpa [State.unlink, State.goto, hnext, hj] using hold
          · simpa [State.unlink, State.goto, hnext, hj] using hold
      places := h.places.pop hq fun c' u hu => (howns c' u).mp hu
      added := fun u => by
        refine (h.added u).trans ?_
        constructor
        · rintro (⟨c', hc'⟩ | ⟨j, hj⟩)
          · exact .inl ⟨c', (howns c' u).mpr (.inl hc')⟩
          · rcases (hmem j u).mp hj with hj | ⟨-, rfl⟩
            · exact .inr ⟨j, hj⟩
            · exact .inl ⟨c, (howns c u).mpr (.inr ⟨rfl, rfl⟩)⟩
        · rintro (⟨c', hc'⟩ | ⟨j, hj⟩)
          · rcases (howns c' u).mp hc' with hc' | ⟨-, rfl⟩
            · exact .inl ⟨c', hc'⟩
            · exact .inr ⟨i, by simp [hq]⟩
          · exact .inr ⟨j, (hmem j u).mpr (.inl hj)⟩
      fifo := fun j => by
        by_cases hj : j = i
        · subst hj
          simp [State.unlink, State.goto, h.fifo j, hq]
        · simpa [State.unlink, State.goto, hj] using h.fifo j
      forced := h.forced
      band := fun j u hu => h.band j u ((hmem j u).mpr (.inl hu))
      lock := fun c' j => by
        rw [goto_pc]
        split_ifs with hcc
        · subst hcc
          refine (iff_of_eq ?_).trans (h.lock c' j)
          rw [hheld]
          exact congrArg (· = some j) hpheld
        · exact h.lock c' j
      bits := fun j hj hs => by
        have hold : ∀ c', (s.pc c').stale s.thread ≠ some j := stale_goto (by rw [hc]; rfl) hs
        by_cases hji : j = i
        · subst hji
          -- the queue has another thread, or its bit is about to be cleared
          have hpstale := hs c
          rw [goto_pc, if_pos rfl] at hpstale
          have hnext : s.next t ≠ none := by
            intro hnext
            rw [hp, if_pos hnext] at hpstale
            exact hpstale rfl
          rw [Function.update_self]
          refine iff_of_true ((h.bits j hj hold).mpr (by simp [hq])) ?_
          exact fun hnil => hnext (hempty.mpr hnil)
        · rw [Function.update_of_ne hji]
          exact h.bits j hj hold
      relies := fun c' => by
        rw [goto_pc]
        split_ifs with hcc
        · rw [hp]
          split_ifs with hnext
          · exact ⟨hmask, by rw [Function.update_self]; exact hempty.mp hnext⟩
          · exact hmask
        · refine relies_congr (h.relies c') fun j hj => Function.update_of_ne ?_ _ _
          rintro rfl
          exact hcc (h.held_unique hj hheld) }

/-! ### Steps and runs -/

omit [DecidableEq κ] in
lemma Inv.index_lt (h : Inv s q) {i : ℕ} (ht : t ∈ q i) : i < 64 := by
  obtain ⟨rfl, hlt, -⟩ := h.band i t ht
  exact hlt

lemma cpuStep_inv {s' : State ι κ} (h : Inv s q) (hstep : cpuStep s c = some s') :
    ∃ q', Inv s' q' := by
  have hrel := h.relies c
  unfold cpuStep at hstep
  split at hstep
  case h_1 | h_2 => cases hstep
  case h_3 t hc =>
    obtain rfl := Option.some.inj hstep
    have hown : (s.pc c).owns t = true := by simp [hc]
    obtain ⟨hband, hforced⟩ := inBand_updateQueueIndex (h.forced t)
    have hset := h.setThread (x := (s.thread t).updateQueueIndex)
      (fun i => h.places.notQueued c t i hown)
      (fun c' => by
        constructor <;> intro hc'
        all_goals
          obtain rfl := h.places.alone c' c t (by simp [hc']) hown
          rw [hc] at hc'
          cases hc')
      (by rw [hforced]; exact h.forced t)
    refine ⟨q, hset.goto (c := c) ?_ ?_ ?_ ?_⟩
    · intro u
      simp [hc]
    · simp [hc]
    · simp [hc]
    · simpa using hband
  case h_4 t hc =>
    rw [hc] at hrel
    split_ifs at hstep with hlock
    obtain rfl := Option.some.inj hstep
    refine ⟨q, h.acquire (fun u => by simp [hc]) (by simpa using hlock) (by simp [hc]) rfl
      (by simp [hc]) hrel⟩
  case h_5 t hc =>
    obtain rfl := Option.some.inj hstep
    exact ⟨_, h.link hc rfl⟩
  case h_6 t hc =>
    rw [hc] at hrel
    have hlt := h.index_lt hrel
    obtain rfl := Option.some.inj hstep
    refine ⟨q, h.setBitmap (i := (s.thread t).queueIndex) (fun u => by simp [hc]) (by simp [hc])
      (by simp [hc]) hrel (fun hi => ?_) fun j hj hne => ?_⟩
    · refine iff_of_true ?_ (List.ne_nil_of_mem hrel)
      simp [hi]
    · have : ¬ (j = (s.thread t).queueIndex) := hne
      simp [hj]
      omega
  case h_7 t hc =>
    obtain rfl := Option.some.inj hstep
    exact ⟨q, h.release (fun u => by simp [hc]) (by simp [hc]) rfl (by simp [hc]) trivial⟩
  case h_8 hc =>
    obtain rfl := Option.some.inj hstep
    exact ⟨q, h.goto (fun u => by simp [hc]) (by simp [hc]) (by simp [hc]) trivial⟩
  case h_9 mask hc =>
    split at hstep
    · obtain rfl := Option.some.inj hstep
      exact ⟨q, h.goto (fun u => by simp [hc]) (by simp [hc]) (by simp [hc]) trivial⟩
    · rename_i i hi
      split_ifs at hstep with hlock
      · obtain rfl := Option.some.inj hstep
        exact ⟨q, h.goto (fun u => by simp [hc]) (by simp [hc]) (by simp [hc]) trivial⟩
      · obtain rfl := Option.some.inj hstep
        exact ⟨q, h.acquire (fun u => by simp [hc]) (by simpa using hlock) (by simp [hc]) rfl
          (by simp [hc]) hi⟩
  case h_10 i mask hc =>
    rw [hc] at hrel
    split at hstep
    · rename_i hhead
      obtain rfl := Option.some.inj hstep
      have hnil : q i = [] := by
        have := (h.linked i).head_eq
        rw [hhead] at this
        exact List.head?_eq_none_iff.mp this.symm
      exact ⟨q, h.goto (fun u => by simp [hc]) (by simp [hc]) (by simp [hc]) ⟨hrel, hnil⟩⟩
    · rename_i t hhead
      obtain rfl := Option.some.inj hstep
      obtain ⟨rest, -, hinv⟩ := h.unlink hc hhead
      exact ⟨_, hinv⟩
  case h_11 i mask out hc =>
    rw [hc] at hrel
    obtain rfl := Option.some.inj hstep
    refine ⟨q, h.setBitmap (i := i) (fun u => by simp [hc]) (by simp [hc]) (by simp [hc]) hrel.1
      (fun hi => ?_) fun j hj hne => ?_⟩
    · rw [BitVec.getLsbD_and, getLsbD_clear hrel.1 hi]
      simp [hrel.2]
    · rw [BitVec.getLsbD_and, getLsbD_clear hrel.1 hj]
      simp [hne]
  case h_12 i mask out hc =>
    rw [hc] at hrel
    split at hstep
    · obtain rfl := Option.some.inj hstep
      exact ⟨q, h.release (fun u => by simp [hc]) (by simp [hc]) rfl (by simp [hc]) trivial⟩
    · rename_i t
      obtain rfl := Option.some.inj hstep
      have hdrop := h.drop hc
      have hrelease := hdrop.release (c := c) (i := i) (p := .got (some t) (queueTimeUs i))
        (fun u => by simp [goto_pc]) (by simp [goto_pc]) rfl (by simp [goto_pc]) trivial
      refine ⟨q, ?_⟩
      simpa [State.goto, State.setLock] using hrelease

/-- A thread has a forced queue that there is, if any. -/
def Move.Called : Move ι κ → Prop
  | .change _ x => x.forcedQueueIndex < schedulerLoadBalancerQueueCount
  | _ => True

lemma step_inv {s' : State ι κ} {m : Move ι κ} (h : Inv s q) (hm : m.Called)
    (hstep : step s m = some s') : ∃ q', Inv s' q' := by
  cases m with
  | add c t =>
    rw [step] at hstep
    split_ifs at hstep with hc
    obtain rfl := Option.some.inj hstep
    exact ⟨q, h.addCall hc.1 hc.2⟩
  | get c =>
    rw [step] at hstep
    split_ifs at hstep with hc
    obtain rfl := Option.some.inj hstep
    obtain ⟨hold, hheld, hstale⟩ := quiet_spec s.thread hc
    exact ⟨q, h.goto (fun u => (hold u).symm) hheld.symm hstale trivial⟩
  | cpu c => exact cpuStep_inv h hstep
  | change t x =>
    rw [step] at hstep
    split_ifs at hstep with ht
    obtain rfl := Option.some.inj hstep
    have hfree := (not_congr (h.added t)).mp (by simp [ht])
    push Not at hfree
    refine ⟨q, h.setThread hfree.2 (fun c => ?_) hm⟩
    have := hfree.1 c
    constructor <;> intro hc <;> simp [hc] at this

omit [DecidableEq κ] in
lemma initial_inv {thread : ι → Thread}
    (h : ∀ t, (thread t).forcedQueueIndex < schedulerLoadBalancerQueueCount) :
    Inv (initial κ thread) fun _ => [] where
  linked _ := linked_nil _
  places := ⟨by simp [initial], by simp, by simp, by simp⟩
  added t := by simp [initial]
  fifo _ := rfl
  forced := h
  band _ _ ht := by simp at ht
  lock c i := by simp [initial]
  bits i _ _ := by simp [initial]
  relies _ := trivial

/-! ### No call in progress -/

/-- The CPU comes to the end of `scheduler_load_balancer_get` if nothing else runs. -/
def Returns (c : κ) (s : State ι κ) (out : Option ι) : Prop :=
  ∃ n s' timeUs, run step s (List.replicate n (.cpu c)) = some s' ∧ s'.pc c = .got out timeUs

/-- What the call gives then: the first thread of the lowest queue that has one, or none if no
queue has. -/
def GetsLowest (s : State ι κ) (q : ℕ → List ι) (c : κ) : Prop :=
  ∃ s₁ out, step s (.get c) = some s₁ ∧ Returns c s₁ out ∧ (out = none → ∀ i, q i = []) ∧
    ∀ t, out = some t → ∃ i rest, q i = t :: rest ∧ ∀ j < i, q j = []

lemma returns_got {out : Option ι} {timeUs : ℕ} (h : s.pc c = .got out timeUs) : Returns c s out :=
  ⟨0, s, timeUs, rfl, h⟩

lemma Returns.of_step (s' : State ι κ) {out : Option ι} (h : Returns c s' out)
    (hstep : cpuStep s c = some s') : Returns c s out := by
  obtain ⟨n, s'', timeUs, hrun, hpc⟩ := h
  refine ⟨n + 1, s'', timeUs, ?_, hpc⟩
  rw [List.replicate_succ, run_cons, step, hstep, Option.bind_some, hrun]

omit [DecidableEq κ] in
lemma Inv.lock_free (h : Inv s q) (hquiet : ∀ c, (s.pc c).quiet = true) (i : ℕ) :
    s.lock i = none := by
  cases hl : s.lock i with
  | none => rfl
  | some c =>
    have := (h.lock c i).mpr hl
    rw [(quiet_spec _ (hquiet c)).2.1] at this
    cases this

omit [DecidableEq κ] in
lemma Inv.bits_quiet (h : Inv s q) (hquiet : ∀ c, (s.pc c).quiet = true) {i : ℕ} (hi : i < 64) :
    s.bitmap.getLsbD i = true ↔ q i ≠ [] := by
  refine h.bits i hi fun c => ?_
  rw [(quiet_spec _ (hquiet c)).2.2]
  simp

omit [DecidableEq κ] in
lemma Inv.nil_of_not_mem (h : Inv s q) {i : ℕ} (hi : ¬ i < 64) : q i = [] :=
  List.eq_nil_iff_forall_not_mem.mpr fun _ ht => hi (h.index_lt ht)

omit [DecidableEq ι] in
lemma goto_pc_self (s : State ι κ) (c : κ) (p : Pc ι) : (s.goto c p).pc c = p := by
  rw [goto_pc, if_pos rfl]

/-- From the first queue that it looks at, the call returns with the first thread. -/
lemma returns_look {i : ℕ} {mask : BitVec 64} (hpc : s.pc c = .look i mask)
    (hhead : s.head i = some t) : Returns c s (some t) := by
  have hunlock : ∀ s : State ι κ, s.pc c = .unlock i mask (some t) → Returns c s (some t) := by
    intro s hpc
    refine Returns.of_step
      (({ s with added := Function.update s.added t false }.setLock i none).goto c
        (.got (some t) (queueTimeUs i))) (returns_got (goto_pc_self _ _ _)) ?_
    simp only [cpuStep, hpc]
  by_cases hnext : s.next t = none
  · have hclear : Returns c ((s.unlink i t).goto c (.clear i mask (some t))) (some t) := by
      refine Returns.of_step (State.goto
        { (s.unlink i t).goto c (.clear i mask (some t)) with
          bitmap := s.bitmap &&& (~~~mask ||| (mask - 1)) } c (.unlock i mask (some t)))
        (hunlock _ (goto_pc_self _ _ _)) ?_
      simp only [cpuStep, goto_pc_self]
      rfl
    refine Returns.of_step _ hclear ?_
    simp only [cpuStep, hpc, hhead, hnext, if_true]
  · refine Returns.of_step _
      (hunlock _ (goto_pc_self (s.unlink i t) c (.unlock i mask (some t)))) ?_
    simp only [cpuStep, hpc, hhead, hnext, if_false]

lemma Inv.getsLowest (h : Inv s q) (hquiet : ∀ c, (s.pc c).quiet = true) (c : κ) :
    GetsLowest s q c := by
  have hget : step s (.get c) = some (s.goto c .getRead) := by rw [step, if_pos (hquiet c)]
  have hread : cpuStep (s.goto c .getRead) c
      = some ((s.goto c .getRead).goto c (.scan s.bitmap)) := by
    simp only [cpuStep, goto_pc_self]
    rfl
  cases hlow : lowest s.bitmap with
  | none =>
    have hscan : cpuStep ((s.goto c .getRead).goto c (.scan s.bitmap)) c
        = some (((s.goto c .getRead).goto c (.scan s.bitmap)).goto c (.got none 2500)) := by
      simp only [cpuStep, goto_pc_self, hlow]
    refine ⟨_, none, hget, ((returns_got (goto_pc_self _ _ _)).of_step _ hscan).of_step _ hread,
      fun _ i => ?_, fun t ht => by cases ht⟩
    by_cases hi : i < 64
    · have := lowest_eq_none.mp hlow i hi
      by_contra hne
      rw [(h.bits_quiet hquiet hi).mpr hne] at this
      cases this
    · exact h.nil_of_not_mem hi
  | some i =>
    obtain ⟨hi, hset, hbelow⟩ := lowest_eq_some.mp hlow
    obtain ⟨t, rest, hq⟩ := List.exists_cons_of_ne_nil ((h.bits_quiet hquiet hi).mp hset)
    have hhead : s.head i = some t := by
      rw [(h.linked i).head_eq, hq]
      rfl
    have hscan : cpuStep ((s.goto c .getRead).goto c (.scan s.bitmap)) c
        = some ((((s.goto c .getRead).goto c (.scan s.bitmap)).setLock i (some c)).goto c
          (.look i s.bitmap)) := by
      have hfree : (((s.goto c .getRead).goto c (.scan s.bitmap)).lock i).isSome = false := by
        simp only [State.goto, h.lock_free hquiet i, Option.isSome_none]
      simp only [cpuStep, goto_pc_self, hlow, hfree, Bool.false_eq_true, if_false]
    have hlook := returns_look (goto_pc_self (((s.goto c .getRead).goto c
      (.scan s.bitmap)).setLock i (some c)) c (.look i s.bitmap)) hhead
    refine ⟨_, some t, hget, (hlook.of_step _ hscan).of_step _ hread, (fun h => by cases h),
      fun u hu => ?_⟩
    obtain rfl := Option.some.inj hu
    refine ⟨i, rest, hq, fun j hj => ?_⟩
    by_contra hne
    have := (h.bits_quiet hquiet (by omega)).mpr hne
    rw [getLsbD_eq, hbelow j hj] at this
    cases this

/-- What holds of the run queues when no call is in progress. -/
structure Consistent (s : State ι κ) (q : ℕ → List ι) : Prop where
  linked : ∀ i, Linked s.next (s.head i) (s.tail i) (q i)
  /-- the queued threads are those added and not taken since -/
  added : ∀ t, s.added t = true ↔ ∃ i < 64, t ∈ q i
  nodup : ∀ i, (q i).Nodup
  oneQueue : ∀ t i j, t ∈ q i → t ∈ q j → i = j
  /-- threads leave a queue in the order in which they entered it -/
  fifo : ∀ i, s.entered i = s.left i ++ q i
  bits : ∀ i < 64, s.bitmap.getLsbD i = true ↔ q i ≠ []
  band : ∀ i t, t ∈ q i → (s.thread t).forcedQueueIndex = 0 →
    (s.thread t).queueIndexOffset + priorityToMinQueueIndex (s.thread t).priority ≤ i ∧
      i ≤ (s.thread t).queueIndexOffset + priorityToMaxQueueIndex (s.thread t).priority
  lowest : ∀ c, GetsLowest s q c

/-- **Run queues neither lose nor duplicate threads**, whatever calls of whatever CPUs have been
interleaved. -/
theorem queues_consistent {thread : ι → Thread}
    (hforced : ∀ t, (thread t).forcedQueueIndex < schedulerLoadBalancerQueueCount)
    (ms : List (Move ι κ)) (hcalled : Along step (fun _ m => m.Called) (initial κ thread) ms)
    (hrun : run step (initial κ thread) ms = some s) (hquiet : ∀ c, (s.pc c).quiet = true) :
    ∃ q, Consistent s q := by
  obtain ⟨q, h⟩ := run_inv (I := fun s : State ι κ => ∃ q, Inv s q)
    (fun s m s' hs hm hstep => hs.elim fun q hq => step_inv hq hm hstep) ms _ s
    ⟨_, initial_inv hforced⟩ hcalled hrun
  refine ⟨q, h.linked, fun t => ?_, h.places.nodup, h.places.oneQueue, h.fifo,
    fun i hi => h.bits_quiet hquiet hi, fun i t ht hf => ?_, h.getsLowest hquiet⟩
  · rw [h.added t]
    constructor
    · rintro (⟨c, hc⟩ | ⟨i, ht⟩)
      · rw [(quiet_spec s.thread (hquiet c)).1] at hc
        cases hc
      · exact ⟨i, h.index_lt ht, ht⟩
    · rintro ⟨i, -, ht⟩
      exact .inr ⟨i, ht⟩
  · obtain ⟨hi, -, hband⟩ := h.band i t ht
    rw [← hi]
    exact hband hf

end

instance : (m : Move ι κ) → Decidable m.Called
  | .change _ x => inferInstanceAs (Decidable
    (x.forcedQueueIndex < schedulerLoadBalancerQueueCount))
  | .add _ _ | .get _ | .cpu _ => isTrue trivial

/-- Two CPUs add a thread each, and one of them takes one meanwhile. -/
def twoCpus : List (Move Bool Bool) :=
  [.add true true, .add false false, .cpu true, .cpu false, .cpu true, .cpu true, .cpu true,
    .cpu true, .cpu false, .get true, .cpu true, .cpu false, .cpu true, .cpu false, .cpu true,
    .cpu false, .get true, .cpu true, .cpu true, .cpu true, .cpu true]

def newThread : Thread := ⟨.none, false, true, .normal, 0, 0, false, false⟩

theorem queues_consistent_two : ∃ (s : State Bool Bool) (q : ℕ → List Bool),
    run step (initial Bool fun _ => newThread) twoCpus = some s ∧ Consistent s q := by
  have hrun : (run step (initial Bool fun _ => newThread) twoCpus).map
      (fun s : State Bool Bool => decide (∀ c, (s.pc c).quiet = true)) = some true := by
    decide +kernel
  obtain ⟨s, hs, hquiet⟩ := Option.map_eq_some_iff.mp hrun
  obtain ⟨q, hq⟩ := queues_consistent (fun _ => by decide) _ (by decide +kernel) hs
    (of_decide_eq_true hquiet)
  exact ⟨s, q, hs, hq⟩

end KernelModel.LoadBalancer
