import KernelModel.LinkedQueue
import KernelModel.Scheduler

/-!
The run queues of the scheduler, with their links and locks.

Any number of CPUs call `scheduler_load_balancer_add` and `scheduler_load_balancer_get`. One access
to the bitmap or to a lock is one step; the links of a queue are changed by the holder of its lock
only, in one step. A thread counts as added from the call that adds it to the return of the call
that takes it.
-/

namespace KernelModel.LoadBalancer

open Scheduler (Thread lowest)

/-- What a CPU does next. -/
inductive Pc (ι : Type)
  | idle
  /-- `scheduler_load_balancer_add`, before the queue index is chosen -/
  | addIndex (t : ι)
  | addLock (t : ι)
  | addLink (t : ι)
  | addBit (t : ι)
  | addUnlock (t : ι)
  /-- `scheduler_load_balancer_get`, before it reads the bitmap -/
  | getRead
  /-- the head of its loop -/
  | scan (mask : BitVec 64)
  /-- the lock of queue `i` is held -/
  | look (i : ℕ) (mask : BitVec 64)
  /-- before the bit of the queue is cleared; `out` has been taken from the queue -/
  | clear (i : ℕ) (mask : BitVec 64) (out : Option ι)
  | unlock (i : ℕ) (mask : BitVec 64) (out : Option ι)
  /-- `scheduler_load_balancer_get` has returned -/
  | got (out : Option ι) (timeUs : ℕ)
  deriving DecidableEq, Repr

/-- Threads `ι` and CPUs `κ`. -/
structure State (ι κ : Type) where
  thread : ι → Thread
  /-- `scheduler_load_balancer_thread_queue_next` -/
  next : ι → Option ι
  head : ℕ → Option ι
  tail : ℕ → Option ι
  lock : ℕ → Option κ
  bitmap : BitVec 64
  pc : κ → Pc ι
  /-- history: the thread has been added and not been taken since -/
  added : ι → Bool
  /-- history: the threads that entered a queue, and those that left it, in order -/
  entered : ℕ → List ι
  left : ℕ → List ι

/-- After `KERNEL_EARLY_INIT`; `thread` are new threads. -/
def initial {ι : Type} (κ : Type) (thread : ι → Thread) : State ι κ :=
  { thread := thread
    next := fun _ => none
    head := fun _ => none
    tail := fun _ => none
    lock := fun _ => none
    bitmap := 0
    pc := fun _ => .idle
    added := fun _ => false
    entered := fun _ => []
    left := fun _ => [] }

/-- `_get_queue_time_us` -/
def queueTimeUs (i : ℕ) : ℕ := 970 + 130 * (i &&& 31)

variable {ι κ : Type} [DecidableEq ι] [DecidableEq κ]

namespace State

def goto (s : State ι κ) (c : κ) (p : Pc ι) : State ι κ :=
  { s with pc := Function.update s.pc c p }

def setLock (s : State ι κ) (i : ℕ) (owner : Option κ) : State ι κ :=
  { s with lock := Function.update s.lock i owner }

/-- A thread is linked at the end of queue `i`. -/
def link (s : State ι κ) (i : ℕ) (t : ι) : State ι κ :=
  let next := Function.update s.next t none
  { s with
    next := (s.tail i).elim next fun u => Function.update next u (some t)
    head := (s.tail i).elim (Function.update s.head i (some t)) fun _ => s.head
    tail := Function.update s.tail i (some t)
    entered := Function.update s.entered i (s.entered i ++ [t]) }

/-- The first thread `t` of queue `i` is taken from it. -/
def unlink (s : State ι κ) (i : ℕ) (t : ι) : State ι κ :=
  { s with
    head := Function.update s.head i (s.next t)
    tail := if s.next t = none then Function.update s.tail i none else s.tail
    left := Function.update s.left i (s.left i ++ [t]) }

end State

/-- The next step of CPU `c`. -/
def cpuStep (s : State ι κ) (c : κ) : Option (State ι κ) :=
  match s.pc c with
  | .idle | .got _ _ => none
  | .addIndex t =>
    some ({ s with thread := Function.update s.thread t (s.thread t).updateQueueIndex }.goto c
      (.addLock t))
  | .addLock t =>
    if (s.lock (s.thread t).queueIndex).isSome then none
    else some ((s.setLock (s.thread t).queueIndex (some c)).goto c (.addLink t))
  | .addLink t => some ((s.link (s.thread t).queueIndex t).goto c (.addBit t))
  | .addBit t =>
    some ({ s with bitmap := s.bitmap ||| (1#64 <<< (s.thread t).queueIndex) }.goto c
      (.addUnlock t))
  | .addUnlock t => some ((s.setLock (s.thread t).queueIndex none).goto c .idle)
  | .getRead => some (s.goto c (.scan s.bitmap))
  | .scan mask =>
    match lowest mask with
    | none => some (s.goto c (.got none 2500))
    | some i =>
      if (s.lock i).isSome then some (s.goto c (.scan (mask &&& (mask - 1))))
      else some ((s.setLock i (some c)).goto c (.look i mask))
  | .look i mask =>
    match s.head i with
    | none => some (s.goto c (.clear i mask none))
    | some t =>
      some ((s.unlink i t).goto c
        (if s.next t = none then .clear i mask (some t) else .unlock i mask (some t)))
  | .clear i mask out =>
    some ({ s with bitmap := s.bitmap &&& (~~~mask ||| (mask - 1)) }.goto c (.unlock i mask out))
  | .unlock i mask out =>
    match out with
    | none => some ((s.setLock i none).goto c (.scan (mask &&& (mask - 1))))
    | some t =>
      some (({ s with added := Function.update s.added t false }.setLock i none).goto c
        (.got (some t) (queueTimeUs i)))

/-- No call is in progress on the CPU. -/
@[simp] def Pc.quiet : Pc ι → Bool
  | .idle | .got _ _ => true
  | _ => false

inductive Move (ι κ : Type)
  | add (c : κ) (t : ι)
  | get (c : κ)
  | cpu (c : κ)
  /-- what else is done to a thread that is not added, such as a yield -/
  | change (t : ι) (x : Thread)
  deriving DecidableEq, Repr

def step (s : State ι κ) : Move ι κ → Option (State ι κ)
  | .add c t =>
    if (s.pc c).quiet ∧ s.added t = false then
      some ({ s with added := Function.update s.added t true }.goto c (.addIndex t))
    else none
  | .get c => if (s.pc c).quiet then some (s.goto c .getRead) else none
  | .cpu c => cpuStep s c
  | .change t x =>
    if s.added t = false then some { s with thread := Function.update s.thread t x } else none

end KernelModel.LoadBalancer
