import KernelModel.Event
import KernelModel.Runs

/-!
Threads that await sets of events, and dispatches of events.

`event_await` queues its thread on the events of the set one after the other and then switches
away; `event_dispatch` takes containers off the queue of its event, under that event's lock, until
one selects its thread. Each thread and each dispatch makes one locked region at a time. A dispatch
may be made by a thread or by an interrupt; who makes it does not matter here.
-/

namespace KernelModel.EventWait

open Events Runs

/-- What a thread does next; `idle` is outside of `event_await`. -/
inductive Pc (ε : Type)
  | idle
  /-- before the test `i < count`, and `_await_event` of `events[i]` -/
  | await (events : List ε) (i : ℕ)
  /-- `events[i]` was active; before the thread is marked as running again -/
  | cancel (events : List ε) (i : ℕ)
  /-- before `scheduler_yield` has saved the registers -/
  | yield (events : List ε)
  /-- switched away from -/
  | asleep (events : List ε)
  deriving DecidableEq, Repr

/-- What a dispatch does next; `dispatchAll` is the flag of its call. -/
inductive Dispatch (ι ε : Type)
  | idle
  /-- the event's lock is held; before a look at the head of its queue -/
  | loop (e : ε) (dispatchAll : Bool)
  /-- the container selects its thread; before the thread is changed -/
  | wake (e : ε) (dispatchAll : Bool) (c : Container ι)
  /-- waiting for the registers of the thread, to enqueue it then -/
  | spin (e : ε) (dispatchAll : Bool) (j : ι)
  deriving DecidableEq, Repr

structure State (ι ε δ : Type) where
  thread : ι → Thread
  event : ε → Event ι
  /-- who holds the lock of an event from one step to the next -/
  lock : ε → Option δ
  pc : ι → Pc ε
  dispatch : δ → Dispatch ι ε
  /-- the event whose dispatch has ended the thread's wait -/
  wokenBy : ι → Option ε
  /-- when a thread queued itself on the event of an index, in its last call -/
  since : ι → ℕ → ℕ
  clock : ℕ
  /-- how many threads a dispatch has woken -/
  woken : δ → ℕ

def runningThread : Thread :=
  { state := .running
    eventSequenceId := 0
    eventWakeupIndex := 0
    regStateNotPresent := false }

/-- New events, and threads that have never waited. -/
def initial (ι ε δ : Type) : State ι ε δ :=
  { thread := fun _ => runningThread
    event := fun _ => eventCreate
    lock := fun _ => none
    pc := fun _ => .idle
    dispatch := fun _ => .idle
    wokenBy := fun _ => none
    since := fun _ _ => 0
    clock := 0
    woken := fun _ => 0 }

inductive Move (ι ε δ : Type)
  /-- thread `j` calls `event_await` -/
  | await (j : ι) (events : List ε)
  /-- the next region of thread `j` -/
  | thread (j : ι)
  /-- `d` calls `event_dispatch` -/
  | dispatch (d : δ) (e : ε) (setActive dispatchAll : Bool)
  /-- the next region of `d` -/
  | dispatcher (d : δ)
  /-- `event_set_active` -/
  | setActive (e : ε) (isActive : Bool)
  deriving DecidableEq, Repr

variable {ι ε δ : Type}

namespace State

variable {s : State ι ε δ} {j j' : ι} {i k : ℕ} {p : Pc ε} {t : Thread} {e e' : ε} {event : Event ι}

section Threads

variable [DecidableEq ι]

def setThread (s : State ι ε δ) (j : ι) (t : Thread) : State ι ε δ :=
  { s with thread := Function.update s.thread j t }

def goto (s : State ι ε δ) (j : ι) (p : Pc ε) : State ι ε δ :=
  { s with pc := Function.update s.pc j p }

/-- Thread `j` has queued itself as number `i` of its set. -/
def stamp (s : State ι ε δ) (j : ι) (i : ℕ) : State ι ε δ :=
  { s with
    since := Function.update s.since j (Function.update (s.since j) i s.clock)
    clock := s.clock + 1 }

/-- Dispatch `d` of event `e` has woken thread `j`. -/
def recordWake [DecidableEq δ] (s : State ι ε δ) (d : δ) (e : ε) (j : ι) : State ι ε δ :=
  { s with
    wokenBy := Function.update s.wokenBy j (some e)
    woken := Function.update s.woken d (s.woken d + 1) }

@[simp] lemma goto_pc : (s.goto j p).pc j' = if j' = j then p else s.pc j' := by
  simp [goto, Function.update_apply]

@[simp] lemma goto_thread : (s.goto j p).thread j' = s.thread j' := rfl
@[simp] lemma goto_event : (s.goto j p).event e = s.event e := rfl

@[simp] lemma setThread_thread :
    (s.setThread j t).thread j' = if j' = j then t else s.thread j' := by
  simp [setThread, Function.update_apply]

@[simp] lemma setThread_pc : (s.setThread j t).pc j' = s.pc j' := rfl

@[simp] lemma stamp_since : (s.stamp j i).since j' k =
    if j' = j ∧ k = i then s.clock else s.since j' k := by
  simp only [stamp, Function.update_apply]
  by_cases hj : j' = j
  · by_cases hk : k = i <;> simp [hj, hk]
  · simp [hj]

@[simp] lemma stamp_pc : (s.stamp j i).pc j' = s.pc j' := rfl
@[simp] lemma stamp_thread : (s.stamp j i).thread j' = s.thread j' := rfl
@[simp] lemma stamp_event : (s.stamp j i).event e = s.event e := rfl

end Threads

section Events

variable [DecidableEq ε]

def setEvent (s : State ι ε δ) (e : ε) (event : Event ι) : State ι ε δ :=
  { s with event := Function.update s.event e event }

def setLock (s : State ι ε δ) (e : ε) (d : Option δ) : State ι ε δ :=
  { s with lock := Function.update s.lock e d }

@[simp] lemma setEvent_event :
    (s.setEvent e event).event e' = if e' = e then event else s.event e' := by
  simp [setEvent, Function.update_apply]

@[simp] lemma setEvent_pc : (s.setEvent e event).pc j = s.pc j := rfl
@[simp] lemma setEvent_thread : (s.setEvent e event).thread j = s.thread j := rfl

end Events

def setDispatch [DecidableEq δ] (s : State ι ε δ) (d : δ) (p : Dispatch ι ε) : State ι ε δ :=
  { s with dispatch := Function.update s.dispatch d p }

end State

variable [DecidableEq ι] [DecidableEq ε] [DecidableEq δ]

/-- The start of `event_await`. A call with no events returns at once. -/
def eventAwait (s : State ι ε δ) (j : ι) (events : List ε) : Option (State ι ε δ) :=
  if s.pc j = .idle ∧ events ≠ [] then
    some ({ s with wokenBy := Function.update s.wokenBy j none }.setThread j
      (s.thread j).startAwait |>.goto j (.await events 0))
  else none

/-- The next region of a thread inside of `event_await`. -/
def threadStep (s : State ι ε δ) (j : ι) : Option (State ι ε δ) :=
  match s.pc j with
  | .idle => none
  | .await events i =>
    match events[i]? with
    | none => some (s.goto j (.yield events))
    | some e =>
      if (s.lock e).isSome then none
      else
        let r := awaitEvent j (s.thread j) (s.event e) i
        if r.1 then some (s.goto j (.cancel events i))
        else some (((s.setEvent e r.2).stamp j i).goto j (.await events (i + 1)))
  | .cancel _ i => some ((s.setThread j ((s.thread j).cancelAwait i)).goto j .idle)
  | .yield events => some ((s.setThread j (s.thread j).saveRegisters).goto j (.asleep events))
  | .asleep _ =>
    -- the call returns `event_wakeup_index`
    if (s.thread j).state = .queued then
      some ((s.setThread j (s.thread j).continueRunning).goto j .idle)
    else none

/-- The start of `event_dispatch`. -/
def eventDispatch (s : State ι ε δ) (d : δ) (e : ε) (setActive dispatchAll : Bool) :
    Option (State ι ε δ) :=
  if s.dispatch d ≠ .idle ∨ (s.lock e).isSome then none
  else if (s.event e).isDeleted then some s
  else
    let event := { s.event e with isActive := (s.event e).isActive || setActive }
    some ({ s with woken := Function.update s.woken d 0 }.setEvent e event
      |>.setLock e (some d) |>.setDispatch d (.loop e dispatchAll))

/-- The next region of a dispatch. -/
def dispatchStep (s : State ι ε δ) (d : δ) : Option (State ι ε δ) :=
  match s.dispatch d with
  | .idle => none
  | .loop e dispatchAll =>
    match (s.event e).queue with
    | [] => some ((s.setLock e none).setDispatch d .idle)
    | c :: queue =>
      some ((s.setEvent e { s.event e with queue := queue }).setDispatch d
        (if c.Selects (s.thread c.thread) then .wake e dispatchAll c else .loop e dispatchAll))
  | .wake e dispatchAll c =>
    some (((s.setThread c.thread ((s.thread c.thread).wake c.index)).recordWake d e
      c.thread).setDispatch d (.spin e dispatchAll c.thread))
  | .spin e dispatchAll j =>
    if (s.thread j).regStateNotPresent then none
    else if dispatchAll then
      some ((s.setThread j (s.thread j).enqueue).setDispatch d (.loop e dispatchAll))
    else some (((s.setThread j (s.thread j).enqueue).setLock e none).setDispatch d .idle)

def eventSetActive (s : State ι ε δ) (e : ε) (isActive : Bool) : Option (State ι ε δ) :=
  if (s.lock e).isSome then none
  else if (s.event e).isDeleted then some s
  else some (s.setEvent e { s.event e with isActive })

def step (s : State ι ε δ) : Move ι ε δ → Option (State ι ε δ)
  | .await j events => eventAwait s j events
  | .thread j => threadStep s j
  | .dispatch d e setActive dispatchAll => eventDispatch s d e setActive dispatchAll
  | .dispatcher d => dispatchStep s d
  | .setActive e isActive => eventSetActive s e isActive

/-! ### Waiting -/

/-- The set of the call a thread is in. -/
def Pc.events : Pc ε → List ε
  | .idle => []
  | .await events _ | .cancel events _ | .yield events | .asleep events => events

/-- The events of the set on which the thread is queued: the first `queued` ones. -/
def Pc.queued : Pc ε → ℕ
  | .idle | .cancel _ _ => 0
  | .await _ i => i
  | .yield events | .asleep events => events.length

/-- Thread `j` waits for event `e` as number `k` of its set, and was not woken yet. -/
def Waits (s : State ι ε δ) (j : ι) (k : ℕ) (e : ε) : Prop :=
  (s.thread j).state = .awaitingEvent ∧ k < (s.pc j).queued ∧ (s.pc j).events[k]? = some e

/-- What a move may do to waiting threads. -/
structure Fair (s : State ι ε δ) (m : Move ι ε δ) (s' : State ι ε δ) : Prop where
  /-- only the dispatch of an event of its set makes a blocked thread runnable -/
  woken : ∀ j, m ≠ .thread j → (s.thread j).state = .awaitingEvent →
    (s'.thread j).state ≠ .awaitingEvent →
    ∃ d e dispatchAll c, m = .dispatcher d ∧ s.dispatch d = .wake e dispatchAll c ∧
      c.thread = j ∧ (s.pc j).events[c.index]? = some e
  /-- a call that has blocked returns the index of the event that has woken its thread -/
  returned : ∀ j events, m = .thread j → s.pc j = .asleep events →
    ∃ e, s.wokenBy j = some e ∧ events[(s'.thread j).eventWakeupIndex]? = some e
  /-- a dispatch wakes the thread that has waited longest -/
  first : ∀ d e dispatchAll c, m = .dispatcher d → s.dispatch d = .wake e dispatchAll c →
    Waits s c.thread c.index e ∧
      ∀ j k, Waits s j k e → s.since c.thread c.index ≤ s.since j k
  /-- a dispatch without the flag ends when it has woken one thread, or when nobody waits -/
  one : ∀ d e, m = .dispatcher d →
    s.dispatch d = .loop e false ∨ (∃ j, s.dispatch d = .spin e false j) →
    s'.dispatch d = .idle → s.woken d = 1 ∨ s.woken d = 0 ∧ ∀ j k, ¬ Waits s j k e

end KernelModel.EventWait
