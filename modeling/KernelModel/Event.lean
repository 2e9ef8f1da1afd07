import Mathlib.Tactic

/-!
Events and the threads that wait for them.

A thread waits by putting a container on the queue of every event of its set; a container
records the sequence number the thread had then. A wake-up increases that number, so that the
containers left behind on other events no longer select the thread. The functions here are the
regions of `event_await` and `event_dispatch` that run under one lock; which of them may fall
between which is the matter of the systems built on them.
-/

namespace KernelModel.Events

inductive ThreadState
  | none
  | queued
  | running
  | awaitingEvent
  | terminated
  deriving DecidableEq, Repr

/-- The fields of a thread that events use. -/
structure Thread where
  state : ThreadState
  eventSequenceId : ℕ
  eventWakeupIndex : ℕ
  /-- set while the saved registers are not those the thread will continue with -/
  regStateNotPresent : Bool
  deriving DecidableEq, Repr

/-- `event_thread_container_t` without its links. -/
structure Container (ι : Type) where
  thread : ι
  sequenceId : ℕ
  index : ℕ
  deriving DecidableEq, Repr

structure Event (ι : Type) where
  isActive : Bool
  isDeleted : Bool
  queue : List (Container ι)
  deriving DecidableEq, Repr

variable {ι : Type}

def eventCreate : Event ι :=
  { isActive := false
    isDeleted := false
    queue := [] }

namespace Thread

/-- The first locked region of `event_await`. -/
def startAwait (t : Thread) : Thread :=
  { t with
    state := .awaitingEvent
    regStateNotPresent := true }

/-- The locked region of `event_await` after it has found event `index` active. -/
def cancelAwait (t : Thread) (index : ℕ) : Thread :=
  { t with
    state := .running
    eventWakeupIndex := index }

/-- The locked region of `event_dispatch`. -/
def wake (t : Thread) (index : ℕ) : Thread :=
  { t with
    state := .none
    eventSequenceId := (t.eventSequenceId + 1) % 2 ^ 64
    eventWakeupIndex := index }

/-- What `_switch_thread` does to the thread it switches away from. -/
def saveRegisters (t : Thread) : Thread := { t with regStateNotPresent := false }

/-- `scheduler_enqueue_thread`, as far as the thread is concerned. -/
def enqueue (t : Thread) : Thread := { t with state := .queued }

/-- `_switch_thread` continues a thread it has taken from a run queue. -/
def continueRunning (t : Thread) : Thread := { t with state := .running }

end Thread

/-- `_await_event`: whether the event is active, and the event after it. -/
def awaitEvent (i : ι) (t : Thread) (event : Event ι) (index : ℕ) : Bool × Event ι :=
  if event.isDeleted then (false, event)
  else if event.isActive then (true, event)
  else
    (false,
      { event with queue := event.queue ++ [⟨i, t.eventSequenceId, index⟩] })

/-- The test a dispatch makes of a container it has taken off the queue. -/
def Container.Selects (c : Container ι) (t : Thread) : Prop :=
  t.state = .awaitingEvent ∧ t.eventSequenceId = c.sequenceId

instance (c : Container ι) (t : Thread) : Decidable (c.Selects t) :=
  inferInstanceAs (Decidable (_ ∧ _))

end KernelModel.Events
