import KernelModel.Mutex

/-!
No wake-up of a mutex is lost, unless a release finds nobody to wake while a thread that has seen
the mutex held is still about to queue itself.

The invariant follows every waiting thread from its test of the holder to its wake-up, and says
that while the mutex is free somebody is on the way to take it or to wake a waiter.
-/

namespace KernelModel.Mutex

open Events Runs

variable {ι : Type} [DecidableEq ι]

/-- A thread that is going to test the holder or to look for a waiter. -/
def busy (s : State ι) (i : ι) : Bool :=
  match s.pc i with
  | .idle | .await | .queue => false
  | .yield | .asleep => (s.thread i).state = .queued
  | _ => true

/-- The dispatch of `i` comes too early: the mutex is free, a thread that has seen it held is not
yet on the queue, nobody is, and no other thread will look again. -/
def Lost (s : State ι) (i : ι) : Prop :=
  s.pc i = .loop ∧ s.event.queue = [] ∧ s.holder = none ∧
    (∃ j, s.pc j = .await ∨ s.pc j = .queue) ∧ ∀ j, j ≠ i → busy s j = false

/-- The condition on one move. -/
def Kept (s : State ι) (l : ι × Action) : Prop := l.2 = .step → ¬ Lost s l.1

instance [Fintype ι] (s : State ι) (i : ι) : Decidable (Lost s i) :=
  inferInstanceAs (Decidable (s.pc i = .loop ∧ s.event.queue = [] ∧ s.holder = none ∧
    (∃ j, s.pc j = .await ∨ s.pc j = .queue) ∧ ∀ j, j ≠ i → busy s j = false))

instance [Fintype ι] (s : State ι) (l : ι × Action) : Decidable (Kept s l) :=
  inferInstanceAs (Decidable (l.2 = .step → ¬ Lost s l.1))

/-- Thread `i` has queued itself and was not continued since. -/
def Parked (s : State ι) (i : ι) : Prop := s.pc i = .yield ∨ s.pc i = .asleep

/-- Thread `i` is on the queue, or about to be. -/
def Waiting (s : State ι) (i : ι) : Prop :=
  (s.pc i = .await ∨ s.pc i = .queue) ∨ Parked s i ∧ (s.thread i).state = .awaitingEvent

/-- The threads on the event's queue. -/
def waiters (s : State ι) : List ι := s.event.queue.map Container.thread

/-- Neither on the queue nor holding the event's lock. -/
def Pc.plain : Pc ι → Bool
  | .idle | .acquire | .await | .queue | .clear | .dispatch => true
  | _ => false

/-- Holding the event's lock. -/
def Pc.locks : Pc ι → Bool
  | .loop | .wake _ | .spin _ => true
  | _ => false

/-- The queue and the parked threads. -/
structure Queues (s : State ι) : Prop where
  active : s.event.isActive = false
  deleted : s.event.isDeleted = false
  lock : ∀ d, (s.pc d).locks = true → s.eventLock = some d
  queueing : ∀ d, s.pc d = .queue → (s.thread d).state = .awaitingEvent
  nodup : (waiters s).Nodup
  queued : ∀ c ∈ s.event.queue, Parked s c.thread ∧ c.Selects (s.thread c.thread)
  waking : ∀ d c, s.pc d = .wake c →
    Parked s c.thread ∧ (s.thread c.thread).state = .awaitingEvent ∧ c.thread ∉ waiters s
  spinning : ∀ d j, s.pc d = .spin j → Parked s j ∧ (s.thread j).state = .none
  parked : ∀ j, Parked s j →
    (s.thread j).state = .queued ∨ (∃ d, s.pc d = .spin j) ∨
      (s.thread j).state = .awaitingEvent ∧
        (j ∈ waiters s ∨ ∃ d c, s.pc d = .wake c ∧ c.thread = j)

structure Inv (s : State ι) : Prop where
  queues : Queues s
  holder : ∀ i, s.holds i = true ↔ s.holder = some i
  served : s.holder = none → ∀ i, Waiting s i → ∃ j, busy s j = true

omit [DecidableEq ι] in
lemma mutexCreate_inv (thread : ι → Thread) : Inv (mutexCreate thread) where
  queues :=
    { active := rfl
      deleted := rfl
      lock := by simp [mutexCreate, Pc.locks]
      queueing := by simp [mutexCreate]
      nodup := by simp [waiters, mutexCreate, eventCreate]
      queued := by simp [mutexCreate, eventCreate]
      waking := by simp [mutexCreate]
      spinning := by simp [mutexCreate]
      parked := by simp [Parked, mutexCreate] }
  holder := by simp [mutexCreate]
  served := by simp [Waiting, Parked, mutexCreate]

variable {s s' : State ι} {i j : ι} {p : Pc ι} {t : Thread}

@[simp, grind =] lemma goto_pc : (s.goto i p).pc j = if j = i then p else s.pc j := by
  simp [State.goto, Function.update_apply]

@[simp, grind =] lemma goto_thread : (s.goto i p).thread j = s.thread j := rfl
@[simp, grind =] lemma goto_event : (s.goto i p).event = s.event := rfl
@[simp, grind =] lemma goto_eventLock : (s.goto i p).eventLock = s.eventLock := rfl
@[simp, grind =] lemma goto_holder : (s.goto i p).holder = s.holder := rfl
@[simp, grind =] lemma goto_holds : (s.goto i p).holds j = s.holds j := rfl

@[simp, grind =] lemma setThread_thread :
    (s.setThread i t).thread j = if j = i then t else s.thread j := by
  simp [State.setThread, Function.update_apply]

@[simp, grind =] lemma setThread_pc : (s.setThread i t).pc j = s.pc j := rfl
@[simp, grind =] lemma setThread_event : (s.setThread i t).event = s.event := rfl
@[simp, grind =] lemma setThread_eventLock : (s.setThread i t).eventLock = s.eventLock := rfl
@[simp, grind =] lemma setThread_holder : (s.setThread i t).holder = s.holder := rfl
@[simp, grind =] lemma setThread_holds : (s.setThread i t).holds j = s.holds j := rfl

/-! ### The queue -/

/-- A move between two places that are neither on the queue nor under the event's lock. -/
lemma Queues.plain (h : Queues s) (hi : (s.pc i).plain = true) (hp : p.plain = true)
    (hevent : s'.event = s.event) (hlock : s'.eventLock = s.eventLock)
    (hpc : ∀ j, s'.pc j = if j = i then p else s.pc j)
    (hthread : ∀ j, j ≠ i → s'.thread j = s.thread j)
    (hq : p = .queue → (s'.thread i).state = .awaitingEvent) : Queues s' := by
  have hparked : ∀ j, Parked s' j ↔ j ≠ i ∧ Parked s j := by
    intro j
    unfold Parked
    rw [hpc]
    by_cases hj : j = i
    · subst hj
      cases p <;> simp_all [Pc.plain]
    · simp [hj]
  have hne : ∀ j, Parked s j → j ≠ i := by
    rintro j hj rfl
    obtain hj | hj := hj <;> simp [hj, Pc.plain] at hi
  have hold : ∀ d q, q.plain = false → (s'.pc d = q ↔ s.pc d = q) := by
    intro d q hq
    rw [hpc]
    by_cases hd : d = i
    · subst hd
      grind -linarith
    · simp [hd]
  have hwaiters : waiters s' = waiters s := by rw [waiters, hevent, waiters]
  refine ⟨hevent ▸ h.active, hevent ▸ h.deleted, ?_, ?_, hwaiters ▸ h.nodup, ?_, ?_, ?_, ?_⟩
  · intro d hd
    rw [hlock]
    apply h.lock
    rw [hpc] at hd
    split at hd
    · cases p <;> simp_all [Pc.plain, Pc.locks]
    · exact hd
  · intro d hd
    rw [hpc] at hd
    split at hd
    · rename_i hdi
      exact hdi ▸ hq hd
    · rename_i hdi
      rw [hthread d hdi]
      exact h.queueing d hd
  · intro c hc
    rw [hevent] at hc
    obtain ⟨hpark, hsel⟩ := h.queued c hc
    have hci := hne _ hpark
    exact ⟨(hparked _).mpr ⟨hci, hpark⟩, by rwa [hthread _ hci]⟩
  · intro d c hd
    obtain ⟨hpark, hstate, hmem⟩ := h.waking d c ((hold d _ rfl).mp hd)
    have hci := hne _ hpark
    exact ⟨(hparked _).mpr ⟨hci, hpark⟩, by rwa [hthread _ hci], by rwa [hwaiters]⟩
  · intro d j hd
    obtain ⟨hpark, hstate⟩ := h.spinning d j ((hold d _ rfl).mp hd)
    have hji := hne _ hpark
    exact ⟨(hparked _).mpr ⟨hji, hpark⟩, by rwa [hthread _ hji]⟩
  · intro j hj
    obtain ⟨hji, hpark⟩ := (hparked j).mp hj
    rw [hthread j hji, hwaiters]
    obtain hq | ⟨d, hd⟩ | ⟨hstate, hmem | ⟨d, c, hd, hc⟩⟩ := h.parked j hpark
    · exact .inl hq
    · exact .inr (.inl ⟨d, (hold d _ rfl).mpr hd⟩)
    · exact .inr (.inr ⟨hstate, .inl hmem⟩)
    · exact .inr (.inr ⟨hstate, .inr ⟨d, c, (hold d _ rfl).mpr hd, hc⟩⟩)

lemma pc_of_goto (hpc : ∀ j, s'.pc j = if j = i then p else s.pc j) :
    ∀ j, j ≠ i → s.pc j = s'.pc j := by
  intro j hj
  rw [hpc, if_neg hj]

/-- `_await_event`: the thread puts itself at the end of the queue. -/
lemma Queues.queue (h : Queues s) (hi : s.pc i = .queue)
    (hevent : s'.event = (awaitEvent i (s.thread i) s.event 0).2)
    (hlock : s'.eventLock = s.eventLock) (hpc : ∀ j, s'.pc j = if j = i then .yield else s.pc j)
    (hthread : ∀ j, s'.thread j = s.thread j) : Queues s' := by
  simp only [awaitEvent, h.active, h.deleted, Bool.false_eq_true, if_false] at hevent
  have hst := h.queueing i hi
  have hothers := pc_of_goto hpc
  obtain ⟨h1, h2, h3, h4, h5, h6, h7, h8, h9⟩ := h
  constructor <;> grind -linarith [Parked, Pc.locks, waiters, Container.Selects]

lemma Queues.yield (h : Queues s) (hi : s.pc i = .yield) (hevent : s'.event = s.event)
    (hlock : s'.eventLock = s.eventLock) (hpc : ∀ j, s'.pc j = if j = i then .asleep else s.pc j)
    (hthread : ∀ j, s'.thread j = if j = i then (s.thread i).saveRegisters else s.thread j) :
    Queues s' := by
  have hothers := pc_of_goto hpc
  obtain ⟨h1, h2, h3, h4, h5, h6, h7, h8, h9⟩ := h
  constructor <;>
    grind -linarith [Parked, Pc.locks, waiters, Container.Selects, Thread.saveRegisters]

lemma Queues.asleep (h : Queues s) (hi : s.pc i = .asleep) (hst : (s.thread i).state = .queued)
    (hevent : s'.event = s.event) (hlock : s'.eventLock = s.eventLock)
    (hpc : ∀ j, s'.pc j = if j = i then .acquire else s.pc j)
    (hthread : ∀ j, j ≠ i → s'.thread j = s.thread j) : Queues s' := by
  have hothers := pc_of_goto hpc
  obtain ⟨h1, h2, h3, h4, h5, h6, h7, h8, h9⟩ := h
  constructor <;> grind -linarith [Parked, Pc.locks, waiters, Container.Selects]

lemma Queues.dispatch (h : Queues s) (hi : s.pc i = .dispatch) (hfree : s.eventLock = none)
    (hevent : s'.event = s.event) (hlock : s'.eventLock = some i)
    (hpc : ∀ j, s'.pc j = if j = i then .loop else s.pc j)
    (hthread : ∀ j, s'.thread j = s.thread j) : Queues s' := by
  have hothers := pc_of_goto hpc
  obtain ⟨h1, h2, h3, h4, h5, h6, h7, h8, h9⟩ := h
  constructor <;> grind -linarith [Parked, Pc.locks, waiters, Container.Selects]

lemma Queues.ended (h : Queues s) (hi : s.pc i = .loop) (hevent : s'.event = s.event)
    (hpc : ∀ j, s'.pc j = if j = i then .idle else s.pc j)
    (hthread : ∀ j, s'.thread j = s.thread j) : Queues s' := by
  have hothers := pc_of_goto hpc
  obtain ⟨h1, h2, h3, h4, h5, h6, h7, h8, h9⟩ := h
  constructor <;> grind -linarith [Parked, Pc.locks, waiters, Container.Selects]

lemma Queues.pop {c : Container ι} {queue : List (Container ι)} (h : Queues s)
    (hi : s.pc i = .loop) (hcons : s.event.queue = c :: queue)
    (hevent : s'.event = { s.event with queue := queue }) (hlock : s'.eventLock = s.eventLock)
    (hpc : ∀ j, s'.pc j = if j = i then .wake c else s.pc j)
    (hthread : ∀ j, s'.thread j = s.thread j) : Queues s' := by
  have hothers := pc_of_goto hpc
  obtain ⟨h1, h2, h3, h4, h5, h6, h7, h8, h9⟩ := h
  constructor <;> grind -linarith [Parked, Pc.locks, waiters, Container.Selects]

lemma Queues.wake {c : Container ι} (h : Queues s) (hi : s.pc i = .wake c)
    (hevent : s'.event = s.event) (hlock : s'.eventLock = s.eventLock)
    (hpc : ∀ j, s'.pc j = if j = i then .spin c.thread else s.pc j)
    (hthread : ∀ j, s'.thread j =
      if j = c.thread then (s.thread c.thread).wake c.index else s.thread j) : Queues s' := by
  have hothers := pc_of_goto hpc
  obtain ⟨h1, h2, h3, h4, h5, h6, h7, h8, h9⟩ := h
  constructor <;> grind -linarith [Parked, Pc.locks, waiters, Container.Selects, Thread.wake]

lemma Queues.spin {k : ι} (h : Queues s) (hi : s.pc i = .spin k) (hevent : s'.event = s.event)
    (hpc : ∀ j, s'.pc j = if j = i then .idle else s.pc j)
    (hthread : ∀ j, s'.thread j = if j = k then (s.thread k).enqueue else s.thread j) :
    Queues s' := by
  have hothers := pc_of_goto hpc
  obtain ⟨h1, h2, h3, h4, h5, h6, h7, h8, h9⟩ := h
  constructor <;> grind -linarith [Parked, Pc.locks, waiters, Container.Selects, Thread.enqueue]

omit [DecidableEq ι] in
/-- While a dispatch looks at an empty queue, no parked thread waits for a wake-up. -/
lemma Queues.not_parked_awaiting (h : Queues s) (hi : s.pc i = .loop)
    (hnil : s.event.queue = []) (j : ι) :
    ¬ (Parked s j ∧ (s.thread j).state = .awaitingEvent) := by
  rintro ⟨hpark, hst⟩
  have hlock := h.lock i (by rw [hi]; rfl)
  have halone : ∀ d, (s.pc d).locks = true → d = i := by
    intro d hd
    rw [h.lock d hd] at hlock
    exact Option.some.inj hlock
  obtain hq | ⟨d, hd⟩ | ⟨-, hmem | ⟨d, c, hd, -⟩⟩ := h.parked j hpark
  · simp [hst] at hq
  · obtain rfl := halone d (by rw [hd]; rfl)
    simp [hi] at hd
  · simp [waiters, hnil] at hmem
  · obtain rfl := halone d (by rw [hd]; rfl)
    simp [hi] at hd

/-! ### The steps -/

lemma acquireStep_inv (h : Inv s) (hs : acquireStep s i = some s') : Inv s' := by
  obtain ⟨hq, hholder, hserved⟩ := h
  unfold acquireStep at hs
  split at hs
  · -- the test of the holder
    rename_i hpc
    split at hs
    · rename_i hheld
      obtain rfl := Option.some.inj hs
      refine ⟨hq.plain (i := i) (p := .await) (by simp [hpc, Pc.plain]) rfl rfl rfl
        (fun _ => goto_pc) (fun _ _ => rfl) (by simp), hholder, ?_⟩
      intro hnone
      simp only [goto_holder] at hnone
      simp [hnone] at hheld
    · rename_i hfree
      simp only [Option.isSome_iff_ne_none, ne_eq, not_not] at hfree
      obtain rfl := Option.some.inj hs
      refine ⟨hq.plain (i := i) (p := .idle) (by simp [hpc, Pc.plain]) rfl rfl rfl
        (fun _ => goto_pc) (fun _ _ => rfl) (by simp), ?_, by simp⟩
      intro j
      have := hholder j
      rw [hfree] at this
      simp only [goto_holds, goto_holder, Function.update_apply]
      grind -linarith
  · -- the first region of the wait: the thread was waiting before it
    rename_i hpc
    obtain rfl := Option.some.inj hs
    refine ⟨hq.plain (i := i) (p := .queue) (by simp [hpc, Pc.plain]) rfl rfl rfl
        (fun _ => goto_pc) (fun j hj => by simp [hj]) (by simp [Thread.startAwait]), hholder, ?_⟩
    intro hnone j hj
    obtain ⟨b, hb⟩ := hserved hnone i (.inl (.inl hpc))
    refine ⟨b, ?_⟩
    grind -linarith [busy]
  · -- the queueing
    rename_i hpc
    split at hs
    · simp at hs
    · have hawait : (awaitEvent i (s.thread i) s.event 0).1 = false := by
        simp [awaitEvent, hq.active, hq.deleted]
      simp only [hawait, Bool.false_eq_true, if_false] at hs
      obtain rfl := Option.some.inj hs
      refine ⟨hq.queue hpc rfl rfl (fun _ => goto_pc) (fun _ => rfl), hholder, ?_⟩
      intro hnone j hj
      obtain ⟨b, hb⟩ := hserved hnone i (.inl (.inr hpc))
      refine ⟨b, ?_⟩
      grind -linarith [busy]
  · -- the registers are saved
    rename_i hpc
    obtain rfl := Option.some.inj hs
    refine ⟨hq.yield hpc rfl rfl (fun _ => goto_pc) (fun _ => by simp), hholder, ?_⟩
    intro hnone j hj
    obtain ⟨b, hb⟩ := hserved hnone j (by grind -linarith [Waiting, Parked, Thread.saveRegisters])
    exact ⟨b, by grind -linarith [busy, Thread.saveRegisters]⟩
  · -- a woken thread continues, and will test the holder
    rename_i hpc
    split at hs
    · rename_i hst
      obtain rfl := Option.some.inj hs
      refine ⟨hq.asleep hpc hst rfl rfl (fun _ => goto_pc) (fun j hj => by simp [hj]),
        hholder, ?_⟩
      intro hnone j hj
      exact ⟨i, by simp [busy]⟩
    · simp at hs
  · simp at hs

lemma releaseStep_inv (h : Inv s) (hlost : ¬ Lost s i) (hs : releaseStep s i = some s') :
    Inv s' := by
  obtain ⟨hq, hholder, hserved⟩ := h
  unfold releaseStep at hs
  split at hs
  · -- the holder is cleared: from here the thread itself looks for a waiter
    rename_i hpc
    split at hs
    · rename_i hheld
      obtain rfl := Option.some.inj hs
      refine ⟨hq.plain (i := i) (p := .dispatch) (by simp [hpc, Pc.plain]) rfl rfl rfl
        (fun _ => goto_pc) (fun _ _ => rfl) (by simp), ?_, ?_⟩
      · intro j
        have := hholder j
        simp only [goto_holds, goto_holder, Function.update_apply]
        grind -linarith
      · intro _ _ _
        exact ⟨i, by simp [busy]⟩
    · simp at hs
  · -- the dispatch starts
    rename_i hpc
    rw [hq.deleted] at hs
    split at hs
    · simp at hs
    · rename_i hlock
      simp only [Option.isSome_iff_ne_none, ne_eq, not_not] at hlock
      obtain rfl := Option.some.inj hs
      refine ⟨hq.dispatch hpc hlock rfl rfl (fun _ => goto_pc) (fun _ => rfl), hholder, ?_⟩
      intro _ _ _
      exact ⟨i, by simp [busy]⟩
  · -- the head of the queue; with nobody there the condition names another thread
    rename_i hpc
    split at hs
    · rename_i hnil
      obtain rfl := Option.some.inj hs
      refine ⟨hq.ended hpc rfl (fun _ => goto_pc) (fun _ => rfl), hholder, ?_⟩
      intro hnone j hj
      have hj' : s.pc j = .await ∨ s.pc j = .queue := by
        obtain hj | ⟨hpark, hst⟩ := hj
        · grind -linarith
        · exact absurd ⟨by grind -linarith [Parked], hst⟩ (hq.not_parked_awaiting hpc hnil j)
      obtain ⟨b, hbi, hb⟩ : ∃ b, b ≠ i ∧ busy s b = true := by
        by_contra hnb
        push Not at hnb
        exact hlost ⟨hpc, hnil, hnone, ⟨j, hj'⟩, fun b hbi => by simpa using hnb b hbi⟩
      exact ⟨b, by grind -linarith [busy]⟩
    · rename_i c queue hcons
      have hc := hq.queued c (by simp [hcons])
      simp only [hc.2, if_true] at hs
      obtain rfl := Option.some.inj hs
      refine ⟨hq.pop hpc hcons rfl rfl (fun _ => goto_pc) (fun _ => rfl), hholder, ?_⟩
      intro _ _ _
      exact ⟨i, by simp [busy]⟩
  · -- the selected thread is changed
    rename_i c hpc
    obtain rfl := Option.some.inj hs
    refine ⟨hq.wake hpc rfl rfl (fun _ => goto_pc) (fun _ => by simp), hholder, ?_⟩
    intro _ _ _
    exact ⟨i, by simp [busy]⟩
  · -- the selected thread is enqueued and takes over
    rename_i j hpc
    split at hs
    · simp at hs
    · obtain rfl := Option.some.inj hs
      refine ⟨hq.spin hpc rfl (fun _ => goto_pc) (fun _ => by simp), hholder, ?_⟩
      intro _ _ _
      obtain ⟨hpark, -⟩ := hq.spinning i j hpc
      refine ⟨j, ?_⟩
      grind -linarith [busy, Parked, Thread.enqueue]
  · simp at hs

lemma call_inv (h : Inv s) (hpc : s.pc i = .idle) (hp : p = .acquire ∨ p = .clear) :
    Inv (s.goto i p) := by
  obtain ⟨hq, hholder, hserved⟩ := h
  refine ⟨hq.plain (by simp [hpc, Pc.plain]) (by obtain rfl | rfl := hp <;> rfl) rfl rfl
    (fun _ => goto_pc) (fun _ _ => rfl) (by obtain rfl | rfl := hp <;> simp), hholder, ?_⟩
  intro _ _ _
  exact ⟨i, by obtain rfl | rfl := hp <;> simp [busy]⟩

lemma step_inv {l : ι × Action} (h : Inv s) (hkept : Kept s l) (hs : step s l = some s') :
    Inv s' := by
  obtain ⟨i, a⟩ := l
  cases a with
  | acquire =>
    simp only [step] at hs
    split at hs
    · rename_i hpc
      obtain rfl := Option.some.inj hs
      exact call_inv h hpc (.inl rfl)
    · simp at hs
  | release =>
    simp only [step] at hs
    split at hs
    · rename_i hpc
      obtain rfl := Option.some.inj hs
      exact call_inv h hpc (.inr rfl)
    · simp at hs
  | step =>
    simp only [step] at hs
    cases ha : acquireStep s i with
    | some u =>
      rw [ha] at hs
      obtain rfl := Option.some.inj hs
      exact acquireStep_inv h ha
    | none =>
      rw [ha] at hs
      exact releaseStep_inv h (hkept rfl) hs

omit [DecidableEq ι] in
lemma Inv.safe (h : Inv s) : Safe s := by
  refine ⟨?_, ?_⟩
  · intro i j hi hj
    rw [h.holder] at hi hj
    exact Option.some.inj (hi.symm.trans hj)
  · rintro ⟨hnone, hquiet, i, hpc, hst⟩
    have hnobody : ∀ d, busy s d = false ∧ (s.pc d).locks = false := by
      intro d
      obtain hd | ⟨hd, hdst⟩ := hquiet d
      · simp [busy, hd, Pc.locks]
      · simp [busy, hd, hdst, Pc.locks]
    obtain hq | ⟨d, hd⟩ | ⟨hawait, -⟩ := h.queues.parked i (.inr hpc)
    · exact hst hq
    · have := (hnobody d).2
      simp [hd, Pc.locks] at this
    · obtain ⟨b, hb⟩ := h.served hnone i (.inr ⟨.inr hpc, hawait⟩)
      simp [(hnobody b).1] at hb

/-- **No wake-up is lost** in a run in which every dispatch that finds the queue empty does so
while no thread is about to queue itself, the mutex is held or another thread will look again:
every state reached has at most one holder and no forgotten sleeper. -/
theorem safe_of_kept {thread : ι → Thread} {moves : List (ι × Action)}
    (hkept : Along step Kept (mutexCreate thread) moves)
    (hrun : run step (mutexCreate thread) moves = some s) : Safe s :=
  (run_inv (fun _ _ _ h hk hs => step_inv h hk hs) moves _ _ (mutexCreate_inv thread) hkept
    hrun).safe

/-- Two running threads. -/
def twoThreads : Fin 2 → Thread := fun _ =>
  { state := .running
    eventSequenceId := 0
    eventWakeupIndex := 0
    regStateNotPresent := false }

/-- Thread `1` sees the mutex held by thread `0` and goes to sleep; thread `0` then releases it
and wakes thread `1`, which takes the mutex. -/
def handOver : List (Fin 2 × Action) :=
  [(0, .acquire), (0, .step), (1, .acquire), (1, .step), (1, .step), (1, .step), (1, .step),
    (0, .release), (0, .step), (0, .step), (0, .step), (0, .step), (0, .step), (1, .step),
    (1, .step)]

theorem handOver_safe : ∃ s, run step (mutexCreate twoThreads) handOver = some s ∧
    s.holder = some 1 ∧ Safe s := by
  have hmap : (run step (mutexCreate twoThreads) handOver).map State.holder = some (some 1) := by
    decide +kernel
  obtain ⟨s, hs, hholder⟩ := Option.map_eq_some_iff.mp hmap
  have hkept : Along step Kept (mutexCreate twoThreads) handOver := by decide +kernel
  exact ⟨s, hs, hholder, safe_of_kept hkept hs⟩

/-- The release falls between the test of the holder and the queueing of thread `1`. -/
def missedWakeup : List (Fin 2 × Action) :=
  [(0, .acquire), (0, .step), (1, .acquire), (1, .step), (0, .release), (0, .step), (0, .step),
    (0, .step), (1, .step), (1, .step), (1, .step)]

/-- Thread `1` sleeps although the mutex is free and nobody is on the way to wake it. -/
theorem missedWakeup_not_safe :
    ¬ ∀ (moves : List (Fin 2 × Action)) (s : State (Fin 2)),
      run step (mutexCreate twoThreads) moves = some s → Safe s := by
  intro h
  have hmap : (run step (mutexCreate twoThreads) missedWakeup).map
      (fun s => (s.holder, s.pc 0, s.pc 1, (s.thread 1).state)) =
      some (none, .idle, .asleep, .awaitingEvent) := by
    decide +kernel
  obtain ⟨s, hs, heq⟩ := Option.map_eq_some_iff.mp hmap
  simp only [Prod.mk.injEq] at heq
  obtain ⟨hholder, h0, h1, hst⟩ := heq
  have hasleep : Asleep s 1 := ⟨h1, by simp [hst]⟩
  refine (h _ s hs).awake ⟨hholder, ?_, 1, hasleep⟩
  intro i
  fin_cases i
  · exact .inl h0
  · exact .inr hasleep

end KernelModel.Mutex
