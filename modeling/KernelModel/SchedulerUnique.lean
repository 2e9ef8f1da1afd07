import KernelModel.SchedulerPlaces

/-!
A thread is queued once, unless it is enqueued by somebody whose look at it is out of date.
-/

namespace KernelModel.Scheduler

open Events Places Runs

variable {ι κ α : Type} [DecidableEq ι] [DecidableEq κ] [DecidableEq α]
  {s s' : State ι κ α} {c : κ} {a : α} {t : ι}

/-! ### The callers -/

omit [DecidableEq κ] in
/-- A caller goes on without changing a thread, a lock or a queue, and takes no thread. -/
lemma Inv.agentGoto {p : AgentPc ι} (h : Inv s) (hp : ∀ k e, p = .enqueue k e → e = .lock) :
    Inv (s.agentGoto a p) := by
  have howns : ∀ u, p.owns u = false := by
    intro u
    cases p with
    | enqueue k e => simp [hp k e rfl]
    | _ => rfl
  refine ⟨h.places.shrink ?_, ?_⟩
  · rintro (d | b) u hu
    · exact hu
    · simp only [Owns, State.agentGoto, Function.update_apply] at hu ⊢
      grind -linarith
  · have hlock := h.marks.lockAgent
    have hmark := h.marks.markAgent
    refine { h.marks with
      lockAgent := ?_
      markAgent := ?_ }
    all_goals simp only [State.agentGoto, Function.update_apply]
    · grind -linarith [Enqueue.locked]
    · grind -linarith

omit [DecidableEq κ] [DecidableEq α] in
lemma Inv.free (h : Inv s) (hlock : s.lock t = none) (hstate : (s.thread t).state = .none)
    (hreg : (s.thread t).regStateNotPresent = false) (hsaved : ∀ c, s.pc c ≠ .saved t) :
    (∀ q, ¬ Owns s q t) ∧ ∀ i, t ∉ s.queue i := by
  have hm := h.marks
  refine ⟨?_, ?_⟩
  · rintro (d | b) hu
    · obtain hu | hu := hu
      · have := (hm.running d t (.inl hu)).2 (.inl hstate)
        simp [hreg] at this
      · cases hpc : s.pc d with
        | save k =>
          obtain rfl : k = t := by simpa [hpc] using hu
          have := (hm.running d k (.inr hpc)).2 (.inl hstate)
          simp [hreg] at this
        | saved k =>
          obtain rfl : k = t := by simpa [hpc] using hu
          exact hsaved d hpc
        | enqueue k e =>
          obtain ⟨rfl, he⟩ : k = t ∧ e ≠ .mark := by simpa [hpc] using hu
          have := hm.enqueue d k e hpc he
          simp [hstate] at this
        | start k =>
          obtain rfl : k = t := by simpa [hpc] using hu
          have := hm.start d k hpc hlock
          simp [hstate] at this
        | run k =>
          obtain rfl : k = t := by simpa [hpc] using hu
          have := hm.run d k hpc
          simp [hstate] at this
        | running => simp [hpc] at hu
        | get => simp [hpc] at hu
        | scan mask => simp [hpc] at hu
    · cases hb : s.agent b with
      | enqueue k e =>
        obtain ⟨rfl, he, -⟩ : k = t ∧ e ≠ .lock ∧ e ≠ .mark := by simpa [Owns, hb] using hu
        have := hm.lockAgent b k e hb (by cases e <;> simp_all)
        simp [hlock] at this
      | _ => simp [Owns, hb] at hu
  · intro i hi
    have := hm.queued t i hi hlock
    simp [hstate] at this

omit [DecidableEq κ] in
lemma enqueueAgent_inv {e : Enqueue} {r : State ι κ α × Option Enqueue} (h : Inv s)
    (ha : s.agent a = .enqueue t e) (hkept : AgentKept s (.enqueue t e))
    (hr : enqueueStep s (.inr a) t e = some r) :
    Inv (r.1.agentGoto a (r.2.elim .idle fun e' => .enqueue t e')) := by
  cases e with
  | lock =>
    simp only [enqueueStep] at hr
    split at hr
    · simp at hr
    · rename_i hlock
      have hlock : s.lock t = none := by simpa using hlock
      split at hr
      · obtain rfl := Option.some.inj hr
        exact h.agentGoto (by simp)
      · rename_i hqueued
        obtain ⟨hstate, hreg, hsaved⟩ := hkept.resolve_left hqueued
        obtain ⟨hfree, hnq⟩ := h.free hlock hstate hreg hsaved
        have hcpu : ∀ d, s.current d ≠ some t ∧ (s.pc d).owns t = false := by
          intro d
          have := hfree (.inl d)
          simp only [Owns, not_or, Bool.not_eq_true] at this
          exact this
        obtain rfl := Option.some.inj hr
        refine ⟨h.places.take (t := t) (p := .inr a) hfree hnq ?_, ?_⟩
        · rintro (d | b) u hu
          · exact .inl hu
          · simp only [Owns, State.agentGoto, State.setLock, Function.update_apply] at hu ⊢
            grind -linarith [AgentPc.owns]
        · have hm := h.marks
          refine { h.marks with
            lockCpu := ?_
            lockAgent := ?_
            queued := ?_
            start := ?_
            markAgent := ?_ }
          all_goals simp only [State.agentGoto, State.setLock, Function.update_apply]
          · grind -linarith [hm.lockCpu]
          · grind -linarith [hm.lockAgent, Enqueue.locked]
          · grind -linarith [hm.queued]
          · grind -linarith [hm.start]
          · grind -linarith [hm.markAgent]
  | add =>
    obtain rfl := Option.some.inj hr
    refine ⟨h.places.shrink ?_, ?_⟩
    · rintro (d | b) u hu
      · exact hu
      · simp only [Owns, State.agentGoto, State.setThread, Function.update_apply] at hu ⊢
        grind -linarith [AgentPc.owns]
    · obtain ⟨h1, h2, h3, h4, h5, h6, h7, h8, h9, h10, h11⟩ := h.marks
      constructor
      all_goals simp only [State.agentGoto, State.setThread, Function.update_apply]
      all_goals grind -linarith [CpuPc.owns, Enqueue.locked, updateQueueIndex_state,
        updateQueueIndex_regStateNotPresent]
  | append =>
    have howns : Owns s (.inr a) t := by simp [Owns, ha]
    have hlock := h.marks.lockAgent a t .append ha rfl
    have hcpu : ∀ d, s.current d ≠ some t ∧ (s.pc d).owns t = false := by
      intro d
      have hd : ¬ Owns s (.inl d) t := fun hd => by
        have := h.places.alone _ _ t hd howns
        simp at this
      simp only [Owns, not_or, Bool.not_eq_true] at hd
      exact hd
    obtain rfl := Option.some.inj hr
    refine ⟨h.places.append howns ?_, ?_⟩
    · rintro q u hu
      have hu' : Owns s q u ∧ q ≠ .inr a := by
        obtain d | b := q
        · exact ⟨hu, by simp⟩
        · simp only [Owns, State.agentGoto, State.setQueue, Function.update_apply] at hu ⊢
          grind -linarith [AgentPc.owns]
      refine ⟨hu'.1, ?_⟩
      rintro rfl
      exact hu'.2 (h.places.alone _ _ u hu'.1 howns)
    · have hm := h.marks
      refine { h.marks with
        lockAgent := ?_
        queued := ?_
        markAgent := ?_ }
      all_goals simp only [State.agentGoto, State.setQueue, Function.update_apply]
      · grind -linarith [hm.lockAgent, Enqueue.locked]
      · grind -linarith [hm.queued]
      · grind -linarith [hm.markAgent]
  | mark =>
    have hmark := h.marks.markAgent a t ha
    have hlock := h.marks.lockAgent a t .mark ha rfl
    obtain rfl := Option.some.inj hr
    refine ⟨h.places.shrink ?_, ?_⟩
    · rintro (d | b) u hu
      · exact hu
      · simp only [Owns, State.agentGoto, State.setThread, State.setLock, Function.update_apply]
          at hu ⊢
        grind -linarith [AgentPc.owns]
    · obtain ⟨h1, h2, h3, h4, h5, h6, h7, h8, h9, h10, h11⟩ := h.marks
      constructor
      all_goals simp only [State.agentGoto, State.setThread, State.setLock, Function.update_apply]
      all_goals grind -linarith [CpuPc.owns, Enqueue.locked]

omit [DecidableEq κ] in
lemma wake_inv (h : Inv s) (hlock : s.lock t = none)
    (hstate : (s.thread t).state = .awaitingEvent) :
    Inv ((s.setThread t { s.thread t with state := .none }).agentGoto a (.spin t)) := by
  refine ⟨h.places.shrink ?_, ?_⟩
  · rintro (d | b) u hu
    · exact hu
    · simp only [Owns, State.agentGoto, State.setThread, Function.update_apply] at hu ⊢
      grind -linarith [AgentPc.owns]
  · obtain ⟨h1, h2, h3, h4, h5, h6, h7, h8, h9, h10, h11⟩ := h.marks
    constructor
    all_goals simp only [State.agentGoto, State.setThread, Function.update_apply]
    all_goals grind -linarith

omit [DecidableEq κ] in
lemma agentStep_inv (h : Inv s) (hkept : Kept s (.agent a)) (hs : agentStep s a = some s') :
    Inv s' := by
  simp only [Kept] at hkept
  unfold agentStep at hs
  split at hs
  · simp at hs
  · split at hs
    · simp at hs
    · obtain rfl := Option.some.inj hs
      refine h.agentGoto ?_
      intro k e
      split <;> grind -linarith
  · rename_i t e ha
    obtain ⟨r, hr, rfl⟩ := Option.map_eq_some_iff.mp hs
    exact enqueueAgent_inv h ha (ha ▸ hkept) hr
  · rename_i t ha
    rw [ha] at hkept
    split at hs
    · simp at hs
    · rename_i hlock
      obtain rfl := Option.some.inj hs
      exact wake_inv h (by simpa using hlock) hkept
  · split at hs
    · simp at hs
    · obtain rfl := Option.some.inj hs
      exact h.agentGoto (by simp)

/-! ### The steps -/

omit [DecidableEq α] in
lemma cpuStep_inv {busy : Bool} (h : Inv s) (hs : cpuStep s c busy = some s') : Inv s' := by
  unfold cpuStep at hs
  split at hs
  · simp at hs
  · rename_i t hpc
    repeat' split at hs
    · simp at hs
    · obtain rfl := Option.some.inj hs
      exact h.goto (by simp) (by simp [hpc]) (by simp [hpc]) (.inr (.inl rfl))
    · obtain rfl := Option.some.inj hs
      exact save_inv h hpc
  · rename_i t hpc
    obtain rfl := Option.some.inj hs
    split
    · rename_i hstate
      exact h.goto (by simp [hpc]) (by simp [hpc]) (by simp [hpc])
        (.inr (.inr (.inr ⟨t, rfl, hstate⟩)))
    · exact h.goto (by simp) (by simp [hpc]) (by simp [hpc]) (.inr (.inl rfl))
  · rename_i t e hpc
    obtain ⟨r, hr, rfl⟩ := Option.map_eq_some_iff.mp hs
    exact enqueueCpu_inv h hpc hr
  · rename_i hpc
    obtain rfl := Option.some.inj hs
    exact h.goto (by simp) (by simp [hpc]) (by simp [hpc]) (.inr (.inr (.inl ⟨_, rfl⟩)))
  · -- the scan of the bitmap
    rename_i mask hpc
    split at hs
    · obtain rfl := Option.some.inj hs
      exact h.goto (by simp) (by simp [hpc]) (by simp [hpc]) (.inl rfl)
    · simp only at hs
      split at hs
      · obtain rfl := Option.some.inj hs
        exact h.goto (by simp) (by simp [hpc]) (by simp [hpc]) (.inr (.inr (.inl ⟨_, rfl⟩)))
      · split at hs
        · obtain rfl := Option.some.inj hs
          have hgoto : Inv (s.goto c (.scan (mask &&& (mask - 1)))) :=
            h.goto (by simp) (by simp [hpc]) (by simp [hpc]) (.inr (.inr (.inl ⟨_, rfl⟩)))
          exact ⟨hgoto.places, { hgoto.marks with }⟩
        · rename_i t rest hcons
          obtain rfl := Option.some.inj hs
          exact pop_inv h hpc hcons
  · rename_i t hpc
    split at hs
    · simp at hs
    · rename_i hlock
      obtain rfl := Option.some.inj hs
      exact start_inv h hpc (by simpa using hlock)
  · rename_i t hpc
    obtain rfl := Option.some.inj hs
    exact run_inv h hpc

lemma step_inv {m : Move ι κ α} (h : Inv s) (hkept : Kept s m) (hs : step s m = some s') :
    Inv s' := by
  cases m with
  | preempt c =>
    simp only [step] at hs
    split at hs
    · rename_i hpc
      obtain rfl := Option.some.inj hs
      exact preempt_inv h hpc
    · simp at hs
  | cpu c busy => exact cpuStep_inv h hs
  | await c ioWait =>
    simp only [step] at hs
    exact changeCurrent_inv h hs (by grind -linarith)
  | cancel c =>
    simp only [step] at hs
    exact changeCurrent_inv h hs (by grind -linarith)
  | terminate c =>
    simp only [step] at hs
    exact changeCurrent_inv h hs (by grind -linarith)
  | earlyYield c =>
    simp only [step] at hs
    exact changeCurrent_inv h hs (by grind -linarith)
  | start a t =>
    simp only [step] at hs
    split at hs
    · obtain rfl := Option.some.inj hs
      exact h.agentGoto (by simp)
    · simp at hs
  | enqueue a t =>
    simp only [step] at hs
    split at hs
    · obtain rfl := Option.some.inj hs
      exact h.agentGoto (by simp)
    · simp at hs
  | select a t =>
    simp only [step] at hs
    split at hs
    · obtain rfl := Option.some.inj hs
      exact h.agentGoto (by simp)
    · simp at hs
  | agent a => exact agentStep_inv h hkept hs

omit [DecidableEq κ] [DecidableEq α] in
lemma Inv.unique (h : Inv s) : Unique s where
  once := h.places.nodup
  one := h.places.oneQueue
  idle _ _ c hmem := (h.not_owns_of_mem hmem c).1

/-- **A thread is queued once** and not while it runs, in every run in which a dispatch changes only
threads that still wait, and an enqueue by a start or a wake-up finds the thread queued, or neither
running nor being switched away from. -/
theorem unique_of_kept {thread : ι → Thread} {moves : List (Move ι κ α)}
    (hkept : Along step Kept (initial κ α thread) moves)
    (hrun : Runs.run step (initial κ α thread) moves = some s) : Unique s :=
  (Runs.run_inv (fun _ _ _ h hk hs => step_inv h hk hs) moves _ _ (initial_inv thread) hkept
    hrun).unique

/-- A user thread of normal priority. -/
def userThread : Unit → Thread := fun _ =>
  { state := .none
    regStateNotPresent := false
    isKernel := false
    priority := .normal
    forcedQueueIndex := 0
    queueIndex := 0
    earlyYield := false
    ioYield := false }

/-- The thread is started, runs on the CPU and is preempted. -/
def startAndPreempt : List (Move Unit Unit (Fin 2)) :=
  ([.start 0 ()] : List (Move Unit Unit (Fin 2))) ++ List.replicate 5 (Move.agent 0) ++
    [Move.preempt ()] ++ List.replicate 4 (Move.cpu () false) ++ [Move.preempt ()] ++
    List.replicate 6 (Move.cpu () false)

theorem startAndPreempt_unique :
    ∃ s, Runs.run step (initial Unit (Fin 2) userThread) startAndPreempt = some s ∧
      s.queue 41 = [()] ∧ Unique s := by
  have hmap : (Runs.run step (initial Unit (Fin 2) userThread) startAndPreempt).map
      (fun s => s.queue 41) = some [()] := by decide +kernel
  obtain ⟨s, hs, hqueue⟩ := Option.map_eq_some_iff.mp hmap
  have hkept : Along step Kept (initial Unit (Fin 2) userThread) startAndPreempt := by
    decide +kernel
  exact ⟨s, hs, hqueue, unique_of_kept hkept hs⟩

/-- Two callers find the same new thread not started. One of them enqueues it, the CPU runs it, and
then the other one enqueues it. -/
def startTwice : List (Move Unit Unit (Fin 2)) :=
  ([.start 0 (), .start 1 (), .agent 0, .agent 1] : List (Move Unit Unit (Fin 2))) ++
    List.replicate 4 (Move.agent 0) ++ [Move.preempt ()] ++ List.replicate 4 (Move.cpu () false) ++
    List.replicate 4 (Move.agent 1)

/-- The thread is queued while the CPU runs it. -/
theorem startTwice_not_unique :
    ¬ ∀ (moves : List (Move Unit Unit (Fin 2))) (s : State Unit Unit (Fin 2)),
      Runs.run step (initial Unit (Fin 2) userThread) moves = some s → Unique s := by
  intro h
  have hmap : (Runs.run step (initial Unit (Fin 2) userThread) startTwice).map
      (fun s => (s.queue 41, s.current ())) = some ([()], some ()) := by decide +kernel
  obtain ⟨s, hs, heq⟩ := Option.map_eq_some_iff.mp hmap
  obtain ⟨hqueue, hcur⟩ := Prod.mk.inj heq
  exact (h _ s hs).idle () 41 () (by simp [hqueue]) hcur

end KernelModel.Scheduler
