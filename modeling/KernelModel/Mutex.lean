import KernelModel.Event
import KernelModel.Runs

/-!
The mutex: a holder and an event.

The holder is tested and changed under the mutex's own lock, the queue of the event under the
event's, and a thread that finds the mutex held has given the first lock back before it asks for
the second. A thread makes one locked region at a time; those of other threads may fall between
any two of them.
-/

namespace KernelModel.Mutex

open Events Runs

/-- What a thread does next; `idle` is outside of the mutex's functions. -/
inductive Pc (ι : Type)
  | idle
  /-- `mutex_acquire`, before a test of the holder -/
  | acquire
  /-- the mutex was held; before the first region of `event_await` -/
  | await
  /-- before `_await_event` -/
  | queue
  /-- before `scheduler_yield` has saved the registers -/
  | yield
  /-- switched away from -/
  | asleep
  /-- `mutex_release`, before it clears the holder -/
  | clear
  /-- before `event_dispatch` takes the event's lock -/
  | dispatch
  /-- the event's lock is held; before a look at the head of its queue -/
  | loop
  /-- the container selects its thread; before the thread is changed -/
  | wake (c : Container ι)
  /-- waiting for the registers of the thread, to enqueue it then -/
  | spin (j : ι)
  deriving DecidableEq, Repr

structure State (ι : Type) where
  holder : Option ι
  event : Event ι
  /-- who holds the event's lock from one step to the next -/
  eventLock : Option ι
  thread : ι → Thread
  pc : ι → Pc ι
  /-- the thread has returned from `mutex_acquire` and not yet released -/
  holds : ι → Bool

/-- `mutex_create`, with every thread outside of the mutex. -/
def mutexCreate {ι : Type} (thread : ι → Thread) : State ι :=
  { holder := none
    event := eventCreate
    eventLock := none
    thread
    pc := fun _ => .idle
    holds := fun _ => false }

inductive Action
  | acquire
  | release
  | step
  deriving DecidableEq, Repr

variable {ι : Type} [DecidableEq ι]

def State.goto (s : State ι) (i : ι) (p : Pc ι) : State ι :=
  { s with pc := Function.update s.pc i p }

def State.setThread (s : State ι) (i : ι) (t : Thread) : State ι :=
  { s with thread := Function.update s.thread i t }

/-- The loop of `mutex_acquire`: the next region of thread `i`. -/
def acquireStep (s : State ι) (i : ι) : Option (State ι) :=
  match s.pc i with
  | .acquire =>
    if s.holder.isSome then some (s.goto i .await)
    else
      some ({ s with
        holder := some i
        holds := Function.update s.holds i true }.goto i .idle)
  | .await => some ((s.setThread i (s.thread i).startAwait).goto i .queue)
  | .queue =>
    if s.eventLock.isSome then none
    else
      let r := awaitEvent i (s.thread i) s.event 0
      if r.1 then some ((s.setThread i ((s.thread i).cancelAwait 0)).goto i .acquire)
      else some ({ s with event := r.2 }.goto i .yield)
  | .yield => some ((s.setThread i (s.thread i).saveRegisters).goto i .asleep)
  | .asleep =>
    if (s.thread i).state = .queued then
      some ((s.setThread i (s.thread i).continueRunning).goto i .acquire)
    else none
  | _ => none

/-- `mutex_release`: the next region of thread `i`. Its dispatch wakes one thread and ends. A
release by a thread that is not the holder panics, and nothing runs after that. -/
def releaseStep (s : State ι) (i : ι) : Option (State ι) :=
  match s.pc i with
  | .clear =>
    if s.holder = some i then
      some ({ s with
        holder := none
        holds := Function.update s.holds i false }.goto i .dispatch)
    else none
  | .dispatch =>
    if s.eventLock.isSome then none
    else if s.event.isDeleted then some (s.goto i .idle)
    else some ({ s with eventLock := some i }.goto i .loop)
  | .loop =>
    match s.event.queue with
    | [] => some ({ s with eventLock := none }.goto i .idle)
    | c :: queue =>
      some ({ s with event := { s.event with queue := queue } }.goto i
        (if c.Selects (s.thread c.thread) then .wake c else .loop))
  | .wake c =>
    some ((s.setThread c.thread ((s.thread c.thread).wake c.index)).goto i (.spin c.thread))
  | .spin j =>
    if (s.thread j).regStateNotPresent then none
    else
      some ({ s with eventLock := none }.setThread j (s.thread j).enqueue |>.goto i .idle)
  | _ => none

/-- One move of thread `l.1`. -/
def step (s : State ι) (l : ι × Action) : Option (State ι) :=
  match l.2 with
  | .acquire => if s.pc l.1 = .idle then some (s.goto l.1 .acquire) else none
  | .release => if s.pc l.1 = .idle then some (s.goto l.1 .clear) else none
  | .step => acquireStep s l.1 <|> releaseStep s l.1

/-- Thread `i` is asleep on the event: switched away from, and in no run queue. -/
def Asleep (s : State ι) (i : ι) : Prop :=
  s.pc i = .asleep ∧ (s.thread i).state ≠ .queued

/-- At most one thread holds the mutex, and it is not the case that the mutex is free, that no
thread is in the middle of an acquire or a release, and that some thread sleeps. -/
structure Safe (s : State ι) : Prop where
  exclusive : ∀ i j, s.holds i = true → s.holds j = true → i = j
  awake : ¬ (s.holder = none ∧ (∀ i, s.pc i = .idle ∨ Asleep s i) ∧ ∃ i, Asleep s i)

end KernelModel.Mutex
