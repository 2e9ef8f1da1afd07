import KernelModel.Places
import KernelModel.Scheduler

/-!
Where a thread is, and what its state says there.

At any time a thread belongs to one place: the CPU that runs it or switches away from it or to it, a
run queue, the caller that is about to put it into one, or nobody. The invariant says so, and which
states of the thread go with which place. The steps of the CPUs keep it.
-/

namespace KernelModel.Scheduler

open Events Places Runs

variable {ι κ α : Type} [DecidableEq ι] [DecidableEq κ]

/-- The condition on a step of a caller other than `_switch_thread`: a dispatch changes a thread
that still waits; an enqueue finds under the thread's lock that the thread is queued already, or
that it is neither queued nor running, has its registers saved, and that no CPU has still to read
its state. -/
def AgentKept (s : State ι κ α) : AgentPc ι → Prop
  | .wake t => (s.thread t).state = .awaitingEvent
  | .enqueue t .lock => (s.thread t).state = .queued ∨
      (s.thread t).state = .none ∧ (s.thread t).regStateNotPresent = false ∧
        ∀ c, s.pc c ≠ .saved t
  | _ => True

/-- The condition on one move. -/
def Kept (s : State ι κ α) : Move ι κ α → Prop
  | .agent a => AgentKept s (s.agent a)
  | _ => True

instance [Fintype κ] (s : State ι κ α) : (p : AgentPc ι) → Decidable (AgentKept s p)
  | .wake t => inferInstanceAs (Decidable ((s.thread t).state = .awaitingEvent))
  | .enqueue _ .lock => inferInstanceAs (Decidable (_ ∨ _ ∧ _ ∧ ∀ _, _))
  | .idle | .start _ | .spin _ | .enqueue _ .add | .enqueue _ .append | .enqueue _ .mark =>
    isTrue trivial

instance [Fintype κ] (s : State ι κ α) : (m : Move ι κ α) → Decidable (Kept s m)
  | .agent a => inferInstanceAs (Decidable (AgentKept s (s.agent a)))
  | .preempt _ | .cpu _ _ | .await _ _ | .cancel _ | .terminate _ | .earlyYield _ | .start _ _
  | .enqueue _ _ | .select _ _ => isTrue trivial

/-- The lock of the thread is held. -/
@[simp] def Enqueue.locked : Enqueue → Bool
  | .lock => false
  | _ => true

/-- The thread belongs to the CPU while this is its next step. -/
@[simp] def CpuPc.owns (t : ι) : CpuPc ι → Bool
  | .save k | .saved k | .start k | .run k => k = t
  | .enqueue k e => k = t ∧ e ≠ .mark
  | .running | .get | .scan _ => false

/-- The thread belongs to the caller while this is its next step. -/
@[simp] def AgentPc.owns (t : ι) : AgentPc ι → Bool
  | .enqueue k e => k = t ∧ e ≠ .lock ∧ e ≠ .mark
  | .idle | .start _ | .wake _ | .spin _ => false

/-- The thread belongs to this CPU or caller. -/
def Owns (s : State ι κ α) : κ ⊕ α → ι → Prop
  | .inl c, t => s.current c = some t ∨ (s.pc c).owns t = true
  | .inr a, t => (s.agent a).owns t = true

/-- The states of the threads at their places, and who holds their locks. -/
structure Marks (s : State ι κ α) : Prop where
  current : ∀ c t, s.current c = some t → s.pc c = .running
  lockCpu : ∀ c t e, s.pc c = .enqueue t e → e.locked = true → s.lock t = some (.inl c)
  lockAgent : ∀ a t e, s.agent a = .enqueue t e → e.locked = true → s.lock t = some (.inr a)
  running : ∀ c t, s.current c = some t ∨ s.pc c = .save t →
    (s.thread t).state ≠ .queued ∧
      ((s.thread t).state = .none ∨ (s.thread t).state = .awaitingEvent →
        (s.thread t).regStateNotPresent = true)
  saved : ∀ c t, s.pc c = .saved t → (s.thread t).state ≠ .queued
  enqueue : ∀ c t e, s.pc c = .enqueue t e → e ≠ .mark → (s.thread t).state = .running
  queued : ∀ t i, t ∈ s.queue i → s.lock t = none → (s.thread t).state = .queued
  start : ∀ c t, s.pc c = .start t → s.lock t = none → (s.thread t).state = .queued
  run : ∀ c t, s.pc c = .run t → (s.thread t).state = .running
  markCpu : ∀ c t, s.pc c = .enqueue t .mark →
    ∀ d, s.current d ≠ some t ∧ ((s.pc d).owns t = true → s.pc d = .start t)
  markAgent : ∀ a t, s.agent a = .enqueue t .mark →
    ∀ d, s.current d ≠ some t ∧ ((s.pc d).owns t = true → s.pc d = .start t)

structure Inv (s : State ι κ α) : Prop where
  places : InOnePlace (Owns s) s.queue
  marks : Marks s

omit [DecidableEq κ] in
lemma initial_inv (thread : ι → Thread) : Inv (initial κ α thread) where
  places :=
    { alone := by simp [Owns, initial]
      notQueued := by simp [initial]
      nodup := by simp [initial]
      oneQueue := by simp [initial] }
  marks :=
    { current := by simp [initial]
      lockCpu := by simp [initial]
      lockAgent := by simp [initial]
      running := by simp [initial]
      saved := by simp [initial]
      enqueue := by simp [initial]
      queued := by simp [initial]
      start := by simp [initial]
      run := by simp [initial]
      markCpu := by simp [initial]
      markAgent := by simp [initial] }

variable {s s' : State ι κ α} {c : κ} {a : α} {t : ι}

omit [DecidableEq κ] in
lemma Inv.others (h : Inv s) (hc : Owns s (.inl c) t) :
    ∀ d, d ≠ c → s.current d ≠ some t ∧ (s.pc d).owns t = false := by
  intro d hd
  constructor
  · intro hcur
    exact hd (Sum.inl.inj (h.places.alone _ _ t (.inl hcur) hc))
  · by_contra howns
    exact hd (Sum.inl.inj (h.places.alone _ _ t (.inr (by simpa using howns)) hc))

omit [DecidableEq κ] in
lemma Inv.not_owns_of_mem (h : Inv s) {i : ℕ} (hmem : t ∈ s.queue i) (d : κ) :
    s.current d ≠ some t ∧ (s.pc d).owns t = false := by
  constructor
  · intro hcur
    exact h.places.notQueued (.inl d) t i (.inl hcur) hmem
  · by_contra howns
    exact h.places.notQueued (.inl d) t i (.inr (by simpa using howns)) hmem

/-! ### The current thread -/

omit [DecidableEq κ] in
lemma changeCurrent_inv {f : Thread → Option Thread} (h : Inv s)
    (hs : changeCurrent s c f = some s')
    (hf : ∀ x y, f x = some y → x.state ≠ .queued →
      (x.state = .none ∨ x.state = .awaitingEvent → x.regStateNotPresent = true) →
      y.state ≠ .queued ∧
        (y.state = .none ∨ y.state = .awaitingEvent → y.regStateNotPresent = true)) :
    Inv s' := by
  unfold changeCurrent at hs
  split at hs
  · simp at hs
  · rename_i t hcur
    split at hs
    · simp at hs
    · obtain ⟨y, hy, rfl⟩ := Option.map_eq_some_iff.mp hs
      have hothers := h.others (.inl hcur)
      have hnq : ∀ i, t ∉ s.queue i := fun i => h.places.notQueued (.inl c) t i (.inl hcur)
      have hpc := h.marks.current c t hcur
      have hy' := hf _ y hy (h.marks.running c t (.inl hcur)).1 (h.marks.running c t (.inl hcur)).2
      refine ⟨h.places, ?_⟩
      obtain ⟨h1, h2, h3, h4, h5, h6, h7, h8, h9, h10, h11⟩ := h.marks
      constructor
      all_goals simp only [State.setThread, Function.update_apply]
      all_goals grind -linarith [CpuPc.owns]

/-! ### The CPUs -/

lemma preempt_inv (h : Inv s) (hpc : s.pc c = .running) :
    Inv ((s.setCurrent c none).goto c ((s.current c).elim .get .save)) := by
  refine ⟨h.places.shrink ?_, ?_⟩
  · rintro (d | a) u howns
    · simp only [Owns, State.setCurrent, State.goto, Function.update_apply] at howns ⊢
      cases hcur : s.current c with
      | none => grind -linarith [CpuPc.owns]
      | some t => grind -linarith [CpuPc.owns]
    · exact howns
  · obtain ⟨h1, h2, h3, h4, h5, h6, h7, h8, h9, h10, h11⟩ := h.marks
    cases hcur : s.current c with
    | none =>
      constructor
      all_goals simp only [State.setCurrent, State.goto, Function.update_apply]
      all_goals grind -linarith [CpuPc.owns]
    | some t =>
      constructor
      all_goals simp only [State.setCurrent, State.goto, Function.update_apply]
      all_goals grind -linarith [CpuPc.owns]

omit [DecidableEq κ] in
/-- A CPU that is in `_switch_thread` has no current thread. -/
lemma Inv.current_eq_none (h : Inv s) (hpc : s.pc c ≠ .running) : s.current c = none := by
  cases hcur : s.current c with
  | none => rfl
  | some t => exact absurd (h.marks.current c t hcur) hpc

/-- A CPU goes on without changing a thread, a lock or a queue, and takes no thread. -/
lemma Inv.goto {p : CpuPc ι} (h : Inv s) (howns : ∀ t, p.owns t = true → (s.pc c).owns t = true)
    (hpc : s.pc c ≠ .running) (hstart : ∀ t, s.pc c ≠ .start t)
    (hp : p = .running ∨ p = .get ∨ (∃ mask, p = .scan mask) ∨
      ∃ t, p = .enqueue t .lock ∧ (s.thread t).state = .running) :
    Inv (s.goto c p) := by
  have hcur := h.current_eq_none hpc
  refine ⟨h.places.shrink ?_, ?_⟩
  · rintro (d | a) u hu
    · simp only [Owns, State.goto, Function.update_apply] at hu ⊢
      grind -linarith
    · exact hu
  · have hnm : ∀ t, p.owns t = true →
        (∀ d, s.pc d ≠ .enqueue t .mark) ∧ ∀ a, s.agent a ≠ .enqueue t .mark := by
      intro t ht
      exact ⟨fun d hd => hstart t ((h.marks.markCpu d t hd c).2 (howns t ht)),
        fun a ha => hstart t ((h.marks.markAgent a t ha c).2 (howns t ht))⟩
    obtain ⟨h1, h2, h3, h4, h5, h6, h7, h8, h9, h10, h11⟩ := h.marks
    constructor
    all_goals simp only [State.goto, Function.update_apply]
    all_goals grind -linarith [CpuPc.owns, Enqueue.locked]

lemma save_inv (h : Inv s) (hpc : s.pc c = .save t) :
    Inv ((s.setThread t { s.thread t with regStateNotPresent := false }).goto c (.saved t)) := by
  have hcur := h.current_eq_none (c := c) (by simp [hpc])
  have hothers := h.others (c := c) (t := t) (.inr (by simp [hpc]))
  refine ⟨h.places.shrink ?_, ?_⟩
  · rintro (d | a) u hu
    · simp only [Owns, State.goto, State.setThread, Function.update_apply] at hu ⊢
      grind -linarith [CpuPc.owns]
    · exact hu
  · obtain ⟨h1, h2, h3, h4, h5, h6, h7, h8, h9, h10, h11⟩ := h.marks
    constructor
    all_goals simp only [State.goto, State.setThread, Function.update_apply]
    all_goals grind -linarith [CpuPc.owns]

lemma start_inv (h : Inv s) (hpc : s.pc c = .start t) (hlock : s.lock t = none) :
    Inv ((s.setThread t { s.thread t with state := .running }).goto c (.run t)) := by
  have hcur := h.current_eq_none (c := c) (by simp [hpc])
  have hothers := h.others (c := c) (t := t) (.inr (by simp [hpc]))
  have hnq : ∀ i, t ∉ s.queue i :=
    fun i => h.places.notQueued (.inl c) t i (.inr (by simp [hpc]))
  refine ⟨h.places.shrink ?_, ?_⟩
  · rintro (d | a) u hu
    · simp only [Owns, State.goto, State.setThread, Function.update_apply] at hu ⊢
      grind -linarith [CpuPc.owns]
    · exact hu
  · obtain ⟨h1, h2, h3, h4, h5, h6, h7, h8, h9, h10, h11⟩ := h.marks
    constructor
    all_goals simp only [State.goto, State.setThread, Function.update_apply]
    all_goals grind -linarith [CpuPc.owns, Enqueue.locked]

lemma run_inv (h : Inv s) (hpc : s.pc c = .run t) :
    Inv ((s.setCurrent c (some t)).goto c .running) := by
  have hcur := h.current_eq_none (c := c) (by simp [hpc])
  refine ⟨h.places.shrink ?_, ?_⟩
  · rintro (d | a) u hu
    · simp only [Owns, State.goto, State.setCurrent, Function.update_apply] at hu ⊢
      grind -linarith [CpuPc.owns]
    · exact hu
  · obtain ⟨h1, h2, h3, h4, h5, h6, h7, h8, h9, h10, h11⟩ := h.marks
    constructor
    all_goals simp only [State.goto, State.setCurrent, Function.update_apply]
    all_goals grind -linarith [CpuPc.owns]

lemma pop_inv {mask bitmap : BitVec 64} {i : ℕ} {rest : List ι} (h : Inv s)
    (hpc : s.pc c = .scan mask) (hcons : s.queue i = t :: rest) :
    Inv (({ s with bitmap := bitmap }.setQueue i rest).goto c (.start t)) := by
  have hcur := h.current_eq_none (c := c) (by simp [hpc])
  have hnot := h.not_owns_of_mem (t := t) (i := i) (by simp [hcons])
  have hstate := h.marks.queued t i (by simp [hcons])
  refine ⟨h.places.pop (p := .inl c) hcons ?_, ?_⟩
  · rintro (d | a) u hu
    · simp only [Owns, State.goto, State.setQueue, Function.update_apply] at hu ⊢
      grind -linarith [CpuPc.owns]
    · exact .inl hu
  · have hmem : ∀ u j, u ∈ Function.update s.queue i rest j → u ∈ s.queue j := by
      intro u j hu
      grind -linarith [Function.update_apply]
    obtain ⟨h1, h2, h3, h4, h5, h6, h7, h8, h9, h10, h11⟩ := h.marks
    constructor
    case queued => exact fun u j hu hlock => h7 u j (hmem u j hu) hlock
    all_goals simp only [State.goto, State.setQueue, Function.update_apply]
    all_goals grind -linarith [CpuPc.owns]

/-! ### Enqueueing -/

@[simp] lemma updateQueueIndex_state (x : Thread) : x.updateQueueIndex.state = x.state := by
  unfold Thread.updateQueueIndex
  split <;> rfl

@[simp] lemma updateQueueIndex_regStateNotPresent (x : Thread) :
    x.updateQueueIndex.regStateNotPresent = x.regStateNotPresent := by
  unfold Thread.updateQueueIndex
  split <;> rfl

/-! The regions of `scheduler_enqueue_thread` that a CPU makes for the thread it preempts. -/

lemma enqueueLock_inv (h : Inv s) (hpc : s.pc c = .enqueue t .lock) (hlock : s.lock t = none) :
    Inv ((s.setLock t (some (.inl c))).goto c (.enqueue t .add)) := by
  have hcur := h.current_eq_none (c := c) (by simp [hpc])
  have hstate := h.marks.enqueue c t .lock hpc (by simp)
  have hothers := h.others (c := c) (t := t) (.inr (by simp [hpc]))
  refine ⟨h.places.shrink ?_, ?_⟩
  · rintro (d | a) u hu
    · simp only [Owns, State.goto, State.setLock, Function.update_apply] at hu ⊢
      grind -linarith [CpuPc.owns]
    · exact hu
  · obtain ⟨h1, h2, h3, h4, h5, h6, h7, h8, h9, h10, h11⟩ := h.marks
    constructor
    all_goals simp only [State.goto, State.setLock, Function.update_apply]
    all_goals grind -linarith [CpuPc.owns, Enqueue.locked]

lemma enqueueAdd_inv (h : Inv s) (hpc : s.pc c = .enqueue t .add) :
    Inv ((s.setThread t (s.thread t).updateQueueIndex).goto c (.enqueue t .append)) := by
  have hcur := h.current_eq_none (c := c) (by simp [hpc])
  refine ⟨h.places.shrink ?_, ?_⟩
  · rintro (d | a) u hu
    · simp only [Owns, State.goto, State.setThread, Function.update_apply] at hu ⊢
      grind -linarith [CpuPc.owns]
    · exact hu
  · obtain ⟨h1, h2, h3, h4, h5, h6, h7, h8, h9, h10, h11⟩ := h.marks
    constructor
    all_goals simp only [State.goto, State.setThread, Function.update_apply]
    all_goals grind -linarith [CpuPc.owns, Enqueue.locked, updateQueueIndex_state,
      updateQueueIndex_regStateNotPresent]

lemma enqueueAppend_inv {i : ℕ} {bitmap : BitVec 64} (h : Inv s)
    (hpc : s.pc c = .enqueue t .append) :
    Inv (({ s with bitmap := bitmap }.setQueue i (s.queue i ++ [t])).goto c
      (.enqueue t .mark)) := by
  have hcur := h.current_eq_none (c := c) (by simp [hpc])
  have howns : Owns s (.inl c) t := .inr (by simp [hpc])
  have hothers := h.others howns
  have hlock := h.marks.lockCpu c t .append hpc rfl
  refine ⟨h.places.append howns ?_, ?_⟩
  · rintro q u hu
    have hu' : Owns s q u ∧ q ≠ .inl c := by
      obtain d | a := q
      · simp only [Owns, State.goto, State.setQueue, Function.update_apply] at hu ⊢
        grind -linarith [CpuPc.owns]
      · exact ⟨hu, by simp⟩
    refine ⟨hu'.1, ?_⟩
    rintro rfl
    exact hu'.2 (h.places.alone _ _ u hu'.1 howns)
  · have hqueued : ∀ u j, u ∈ Function.update s.queue i (s.queue i ++ [t]) j → s.lock u = none →
        (s.thread u).state = .queued := by
      intro u j hu hfree
      have hmem : u ∈ s.queue j ∨ u = t := by
        rw [Function.update_apply] at hu
        grind -linarith
      rcases hmem with hmem | rfl
      · exact h.marks.queued u j hmem hfree
      · rw [hlock] at hfree
        simp at hfree
    obtain ⟨h1, h2, h3, h4, h5, h6, -, h8, h9, h10, h11⟩ := h.marks
    constructor
    case queued => exact hqueued
    all_goals simp only [State.goto, State.setQueue, Function.update_apply]
    all_goals grind -linarith [CpuPc.owns, Enqueue.locked]

lemma enqueueMark_inv (h : Inv s) (hpc : s.pc c = .enqueue t .mark) :
    Inv (((s.setThread t { s.thread t with state := .queued }).setLock t none).goto c .get) := by
  have hcur := h.current_eq_none (c := c) (by simp [hpc])
  have hmark := h.marks.markCpu c t hpc
  have hlock := h.marks.lockCpu c t .mark hpc rfl
  refine ⟨h.places.shrink ?_, ?_⟩
  · rintro (d | a) u hu
    · simp only [Owns, State.goto, State.setThread, State.setLock, Function.update_apply] at hu ⊢
      grind -linarith [CpuPc.owns]
    · exact hu
  · obtain ⟨h1, h2, h3, h4, h5, h6, h7, h8, h9, h10, h11⟩ := h.marks
    constructor
    all_goals simp only [State.goto, State.setThread, State.setLock, Function.update_apply]
    all_goals grind -linarith [CpuPc.owns, Enqueue.locked]

lemma enqueueCpu_inv {e : Enqueue} {r : State ι κ α × Option Enqueue} (h : Inv s)
    (hpc : s.pc c = .enqueue t e) (hr : enqueueStep s (.inl c) t e = some r) :
    Inv (r.1.goto c (r.2.elim .get fun e' => .enqueue t e')) := by
  cases e with
  | lock =>
    have hstate := h.marks.enqueue c t .lock hpc (by simp)
    simp only [enqueueStep, hstate] at hr
    split at hr
    · simp at hr
    · rename_i hlock
      obtain rfl := Option.some.inj hr
      exact enqueueLock_inv h hpc (by simpa using hlock)
  | add =>
    obtain rfl := Option.some.inj hr
    exact enqueueAdd_inv h hpc
  | append =>
    obtain rfl := Option.some.inj hr
    exact enqueueAppend_inv h hpc
  | mark =>
    obtain rfl := Option.some.inj hr
    exact enqueueMark_inv h hpc

end KernelModel.Scheduler
