import KernelModel.Event
import KernelModel.Runs

/-!
The scheduler: run queues, the CPUs that switch between threads, and those who make threads
runnable.

A thread is made runnable by `scheduler_enqueue_thread`, which is called for new threads, by the
system call that starts a thread, by the dispatch of an event and by a CPU for the thread it
preempts. Each CPU and each other caller makes one access or locked region at a time. The lock of a
thread is held across several of them; the lock of a run queue never is, so that a failed attempt to
take it is a choice of the step.
-/

namespace KernelModel.Scheduler

open Events Runs

inductive Priority
  | background
  | low
  | normal
  | high
  | realtime
  deriving DecidableEq, Repr

def schedulerLoadBalancerQueueCount : ℕ := 64

def priorityToMinQueueIndex : Priority → ℕ
  | .realtime => 0
  | .high => 2
  | .normal => 8
  | .low => 16
  | .background => 24

def priorityToMaxQueueIndex : Priority → ℕ
  | .realtime => 1
  | .high => 7
  | .normal => 15
  | .low => 23
  | .background => 31

/-- The fields of a thread that the scheduler uses. -/
structure Thread where
  state : ThreadState
  regStateNotPresent : Bool
  /-- the thread's process is the kernel -/
  isKernel : Bool
  priority : Priority
  forcedQueueIndex : ℕ
  queueIndex : ℕ
  earlyYield : Bool
  ioYield : Bool
  deriving DecidableEq, Repr

namespace Thread

/-- `_get_queue_index_offset` -/
def queueIndexOffset (t : Thread) : ℕ :=
  if t.isKernel then 0 else schedulerLoadBalancerQueueCount >>> 1

/-- `scheduler_load_balancer_add` up to its queue: the thread with its new queue index. -/
def updateQueueIndex (t : Thread) : Thread :=
  if t.forcedQueueIndex ≠ 0 then { t with queueIndex := t.forcedQueueIndex }
  else
    let i₁ := if !t.earlyYield && !t.ioYield &&
        decide (t.queueIndex < schedulerLoadBalancerQueueCount - 1)
      then t.queueIndex + 1 else t.queueIndex
    let i₂ := if t.ioYield && decide (i₁ ≠ 0) then i₁ - 1 else i₁
    let min := t.queueIndexOffset + priorityToMinQueueIndex t.priority
    let max := t.queueIndexOffset + priorityToMaxQueueIndex t.priority
    { t with
      queueIndex := if i₂ < min then min else if i₂ > max then max else i₂
      earlyYield := false
      ioYield := false }

end Thread

/-- The regions of `scheduler_enqueue_thread`. -/
inductive Enqueue
  /-- before the thread's lock is taken and its state is tested -/
  | lock
  /-- before the queue index is chosen -/
  | add
  /-- before the thread is put into its queue -/
  | append
  /-- before the thread is marked as queued and its lock is given back -/
  | mark
  deriving DecidableEq, Repr

/-- What a CPU does next in `_switch_thread`; `running` is outside of it. -/
inductive CpuPc (ι : Type)
  | running
  /-- before the registers of the old thread are saved -/
  | save (t : ι)
  /-- before the state of the old thread is read -/
  | saved (t : ι)
  /-- the old thread is still running, and goes back into a queue -/
  | enqueue (t : ι) (e : Enqueue)
  /-- `scheduler_load_balancer_get`, before it reads the bitmap -/
  | get
  /-- before a look at the queue of the lowest bit of the mask -/
  | scan (mask : BitVec 64)
  /-- before the new thread is marked as running -/
  | start (t : ι)
  /-- before the new thread becomes the CPU's current one -/
  | run (t : ι)
  deriving DecidableEq, Repr

/-- What a caller other than `_switch_thread` does next. -/
inductive AgentPc (ι : Type)
  | idle
  /-- `syscall_thread_start`, before its test of the state -/
  | start (t : ι)
  | enqueue (t : ι) (e : Enqueue)
  /-- `event_dispatch` has selected the thread; before it changes it -/
  | wake (t : ι)
  /-- `event_dispatch`, waiting for the registers of the thread -/
  | spin (t : ι)
  deriving DecidableEq, Repr

/-- Threads `ι`, CPUs `κ` and other callers `α`. -/
structure State (ι κ α : Type) where
  thread : ι → Thread
  /-- who holds the lock of a thread from one step to the next -/
  lock : ι → Option (κ ⊕ α)
  queue : ℕ → List ι
  bitmap : BitVec 64
  current : κ → Option ι
  pc : κ → CpuPc ι
  agent : α → AgentPc ι

/-- No thread has been started; `thread` are new ones. -/
def initial {ι : Type} (κ α : Type) (thread : ι → Thread) : State ι κ α :=
  { thread := fun t => { thread t with
      state := .none
      regStateNotPresent := false }
    lock := fun _ => none
    queue := fun _ => []
    bitmap := 0
    current := fun _ => none
    pc := fun _ => .running
    agent := fun _ => .idle }

variable {ι κ α : Type} [DecidableEq ι] [DecidableEq κ] [DecidableEq α]

namespace State

def setThread (s : State ι κ α) (t : ι) (x : Thread) : State ι κ α :=
  { s with thread := Function.update s.thread t x }

def setLock (s : State ι κ α) (t : ι) (owner : Option (κ ⊕ α)) : State ι κ α :=
  { s with lock := Function.update s.lock t owner }

def setQueue (s : State ι κ α) (i : ℕ) (queue : List ι) : State ι κ α :=
  { s with queue := Function.update s.queue i queue }

def setCurrent (s : State ι κ α) (c : κ) (t : Option ι) : State ι κ α :=
  { s with current := Function.update s.current c t }

def goto (s : State ι κ α) (c : κ) (p : CpuPc ι) : State ι κ α :=
  { s with pc := Function.update s.pc c p }

def agentGoto (s : State ι κ α) (a : α) (p : AgentPc ι) : State ι κ α :=
  { s with agent := Function.update s.agent a p }

end State

/-- One region of `scheduler_enqueue_thread` for thread `t`, made by `who`: the state after it and
the next region, if there is one. -/
def enqueueStep (s : State ι κ α) (who : κ ⊕ α) (t : ι) :
    Enqueue → Option (State ι κ α × Option Enqueue)
  | .lock =>
    if (s.lock t).isSome then none
    else if (s.thread t).state = .queued then some (s, none)
    else some (s.setLock t (some who), some .add)
  | .add => some (s.setThread t (s.thread t).updateQueueIndex, some .append)
  | .append =>
    let i := (s.thread t).queueIndex
    some ({ s with bitmap := s.bitmap ||| (1#64 <<< i) }.setQueue i (s.queue i ++ [t]), some .mark)
  | .mark =>
    some ((s.setThread t { s.thread t with state := .queued }).setLock t none, none)

/-- `__builtin_ffsll(mask) - 1` -/
def lowest (mask : BitVec 64) : Option ℕ := (List.range 64).find? fun i => mask.getLsbD i

/-- One step of `_switch_thread` on CPU `c`; `busy` says that the attempt to take the lock of a
queue fails. -/
def cpuStep (s : State ι κ α) (c : κ) (busy : Bool) : Option (State ι κ α) :=
  match s.pc c with
  | .running => none
  | .save t =>
    if (s.lock t).isSome then none
    else if (s.thread t).state = .terminated then some (s.goto c .get)
    else some ((s.setThread t { s.thread t with regStateNotPresent := false }).goto c (.saved t))
  | .saved t =>
    some (s.goto c (if (s.thread t).state = .running then .enqueue t .lock else .get))
  | .enqueue t e =>
    (enqueueStep s (.inl c) t e).map fun r =>
      r.1.goto c (r.2.elim .get fun e' => .enqueue t e')
  | .get => some (s.goto c (.scan s.bitmap))
  | .scan mask =>
    match lowest mask with
    | none => some (s.goto c .running)
    | some i =>
      let cleared := s.bitmap &&& (~~~mask ||| (mask - 1))
      if busy then some (s.goto c (.scan (mask &&& (mask - 1))))
      else
        match s.queue i with
        | [] => some ({ s with bitmap := cleared }.goto c (.scan (mask &&& (mask - 1))))
        | t :: rest =>
          some (({ s with bitmap := if rest = [] then cleared else s.bitmap }.setQueue i
            rest).goto c
            (.start t))
  | .start t =>
    if (s.lock t).isSome then none
    else some ((s.setThread t { s.thread t with state := .running }).goto c (.run t))
  | .run t => some ((s.setCurrent c (some t)).goto c .running)

/-- One step of a caller other than `_switch_thread`. -/
def agentStep (s : State ι κ α) (a : α) : Option (State ι κ α) :=
  match s.agent a with
  | .idle => none
  | .start t =>
    if (s.lock t).isSome then none
    else some (s.agentGoto a (if (s.thread t).state = .none then .enqueue t .lock else .idle))
  | .enqueue t e =>
    (enqueueStep s (.inr a) t e).map fun r =>
      r.1.agentGoto a (r.2.elim .idle fun e' => .enqueue t e')
  | .wake t =>
    if (s.lock t).isSome then none
    else some ((s.setThread t { s.thread t with state := .none }).agentGoto a (.spin t))
  | .spin t =>
    if (s.thread t).regStateNotPresent then none
    else some (s.agentGoto a (.enqueue t .lock))

inductive Move (ι κ α : Type)
  /-- the timer, or a yield: CPU `c` enters `_switch_thread` -/
  | preempt (c : κ)
  | cpu (c : κ) (busy : Bool)
  /-- the current thread of `c` starts to wait for events -/
  | await (c : κ) (ioWait : Bool)
  /-- it finds one of them active -/
  | cancel (c : κ)
  | terminate (c : κ)
  | earlyYield (c : κ)
  /-- the system call to start thread `t` -/
  | start (a : α) (t : ι)
  /-- `scheduler_enqueue_thread` is called for thread `t` -/
  | enqueue (a : α) (t : ι)
  /-- a dispatch finds that `t` waits for its event -/
  | select (a : α) (t : ι)
  | agent (a : α)
  deriving DecidableEq, Repr

/-- What the current thread of a CPU does to its own record, under its lock. -/
def changeCurrent (s : State ι κ α) (c : κ) (f : Thread → Option Thread) :
    Option (State ι κ α) :=
  match s.current c with
  | none => none
  | some t =>
    if (s.lock t).isSome then none
    else (f (s.thread t)).map fun x => s.setThread t x

def step (s : State ι κ α) : Move ι κ α → Option (State ι κ α)
  | .preempt c =>
    if s.pc c = .running then
      some ((s.setCurrent c none).goto c ((s.current c).elim .get .save))
    else none
  | .cpu c busy => cpuStep s c busy
  | .await c ioWait => changeCurrent s c fun x =>
      if x.state = .running then
        some { x with
          state := .awaitingEvent
          regStateNotPresent := true
          ioYield := ioWait }
      else none
  | .cancel c => changeCurrent s c fun x =>
      if x.state = .awaitingEvent ∨ x.state = .none then
        some { x with
          state := .running
          ioYield := false }
      else none
  | .terminate c => changeCurrent s c fun x =>
      if x.state = .running then some { x with state := .terminated } else none
  | .earlyYield c => changeCurrent s c fun x => some { x with earlyYield := true }
  | .start a t => if s.agent a = .idle then some (s.agentGoto a (.start t)) else none
  | .enqueue a t => if s.agent a = .idle then some (s.agentGoto a (.enqueue t .lock)) else none
  | .select a t =>
    if s.agent a = .idle ∧ (s.thread t).state = .awaitingEvent then some (s.agentGoto a (.wake t))
    else none
  | .agent a => agentStep s a

/-- A thread is in at most one run queue, once, and not while a CPU runs it. -/
structure Unique (s : State ι κ α) : Prop where
  once : ∀ i, (s.queue i).Nodup
  one : ∀ t i j, t ∈ s.queue i → t ∈ s.queue j → i = j
  idle : ∀ t i c, t ∈ s.queue i → s.current c ≠ some t

end KernelModel.Scheduler
