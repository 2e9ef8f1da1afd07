import KernelModel.Runs

/-!
The events and timers of a process, and the release of its handle list when it ends.

Names, waiting threads and deadlines are left out: of a timer there is whether it is scheduled.
A panic is no result. Every timer has an event of its own, that is in no list.
-/

namespace KernelModel.Teardown

open Runs

inductive Handle
  | event (e : ℕ)
  | timer (t : ℕ)
  deriving DecidableEq

/-- The order of handles in a list: by index, then by type. -/
def Handle.key : Handle → ℕ ×ₗ ℕ
  | .event e => toLex (e, 0)
  | .timer t => toLex (t, 1)

/-- `event_t`; `acl` is who has `EVENT_ACL_FLAG_DELETE`. The handle is in its tree while its count
is not zero; `destructed` counts the calls of its destructor. -/
structure Event where
  rc : ℕ
  isDeleted : Bool
  acl : ℕ → Bool
  destructed : ℕ

/-- `timer_t`; `acl` is who has `TIMER_ACL_FLAG_DELETE`, `scheduled` is whether it is in the tree
of the timers or in a chain there. -/
structure Timer where
  rc : ℕ
  isDeleted : Bool
  acl : ℕ → Bool
  event : ℕ
  scheduled : Bool
  destructed : ℕ

structure State where
  events : ℕ → Event
  eventCount : ℕ
  timers : ℕ → Timer
  timerCount : ℕ
  handleList : List Handle
  /-- the handles that the create calls returned -/
  created : List Handle

def State.init : State where
  events := fun _ => ⟨0, false, fun _ => false, 0⟩
  eventCount := 0
  timers := fun _ => ⟨0, false, fun _ => false, 0, false, 0⟩
  timerCount := 0
  handleList := []
  created := []

/-- `acl_get` of one flag: process zero is the kernel. -/
def aclGet (acl : ℕ → Bool) (process : ℕ) : Bool := if process = 0 then true else acl process

/-- The check of the current thread's process, passed if there is no current thread. -/
def allowed (acl : ℕ → Bool) : Option ℕ → Bool
  | none => true
  | some process => aclGet acl process

def State.setEvent (s : State) (e : ℕ) (x : Event) : State :=
  { s with events := Function.update s.events e x }

def State.setTimer (s : State) (t : ℕ) (x : Timer) : State :=
  { s with timers := Function.update s.timers t x }

/-! ### Events -/

/-- `event_create` by a thread of `process` -/
def eventCreate (s : State) (process : ℕ) : ℕ × State :=
  let s' := { s with eventCount := s.eventCount + 1 }
  (s.eventCount, s'.setEvent s.eventCount ⟨1, false, fun q => q = process, 0⟩)

/-- `_event_handle_destructor` -/
def eventHandleDestructor (s : State) (e : ℕ) : Option State :=
  let x := s.events e
  if !x.isDeleted then none else some (s.setEvent e { x with destructed := x.destructed + 1 })

/-- `handle_release` of an event -/
def eventRelease (s : State) (e : ℕ) : Option State :=
  let x := s.events e
  let s := s.setEvent e { x with rc := x.rc - 1 }
  if x.rc - 1 ≠ 0 then some s else eventHandleDestructor s e

def eventDelete (s : State) (current : Option ℕ) (e : ℕ) : Option State :=
  let x := s.events e
  if !allowed x.acl current then some s
  else if x.isDeleted then some s
  else eventRelease (s.setEvent e { x with isDeleted := true }) e

/-! ### Timers -/

/-- `_timer_handle_destructor` -/
def timerHandleDestructor (s : State) (current : Option ℕ) (t : ℕ) : Option State :=
  let x := s.timers t
  let dealloc (s : State) : State :=
    s.setTimer t { s.timers t with destructed := (s.timers t).destructed + 1 }
  if !x.isDeleted then
    (eventDelete (s.setTimer t { x with scheduled := false }) current x.event).map dealloc
  else some (dealloc s)

/-- `handle_release` of a timer -/
def timerRelease (s : State) (current : Option ℕ) (t : ℕ) : Option State :=
  let x := s.timers t
  let s := s.setTimer t { x with rc := x.rc - 1 }
  if x.rc - 1 ≠ 0 then some s else timerHandleDestructor s current t

/-- `timer_create` by a thread of `process`; the first `timer_update` schedules the timer unless
its deadline is zero. -/
def timerCreate (s : State) (process deadline : ℕ) : ℕ × State :=
  let (e, s) := eventCreate s process
  let s' := { s with timerCount := s.timerCount + 1 }
  (s.timerCount, s'.setTimer s.timerCount ⟨1, false, fun q => q = process, e, deadline ≠ 0, 0⟩)

def timerDelete (s : State) (current : Option ℕ) (t : ℕ) : Option State :=
  let x := s.timers t
  if !allowed x.acl current then some s
  else if x.isDeleted then some s
  else
    (eventDelete (s.setTimer t { x with isDeleted := true, scheduled := false }) current
      x.event).bind fun s => timerRelease s current t

/-! ### System calls of the process -/

def handleListPush (s : State) (h : Handle) : State :=
  { s with handleList := s.handleList.orderedInsert (fun a b => a.key ≤ b.key) h
           created := h :: s.created }

def handleListPop (s : State) (h : Handle) : State := { s with handleList := s.handleList.erase h }

def syscallEventCreate (s : State) (process : ℕ) : State :=
  let (e, s) := eventCreate s process
  handleListPush s (.event e)

def syscallEventDelete (s : State) (process e : ℕ) : Option State :=
  let x := s.events e
  if x.rc = 0 then some s
  else
    let s := s.setEvent e { x with rc := x.rc + 1 }
    if !aclGet x.acl process then eventRelease s e
    else
      let s := handleListPop s (.event e)
      (eventDelete s (some process) e).bind fun s => eventRelease s e

def syscallTimerCreate (s : State) (process deadline : ℕ) : State :=
  let (t, s) := timerCreate s process deadline
  handleListPush s (.timer t)

def syscallTimerDelete (s : State) (process t : ℕ) : Option State :=
  let x := s.timers t
  if x.rc = 0 then some s
  else
    let s := s.setTimer t { x with rc := x.rc + 1 }
    if !aclGet x.acl process then timerRelease s (some process) t
    else
      let s := handleListPop s (.timer t)
      (timerDelete s (some process) t).bind fun s => timerRelease s (some process) t

inductive Op
  | eventCreate
  | eventDelete (e : ℕ)
  | timerCreate (deadline : ℕ)
  | timerDelete (t : ℕ)
  /-- `timer_dispatch_timers` takes a timer out and schedules it again or not. -/
  | timerDispatch (t : ℕ) (again : Bool)

/-- One call of the process. It deletes what its create calls returned, any number of times. -/
def step (process : ℕ) (s : State) : Op → Option State
  | .eventCreate => some (syscallEventCreate s process)
  | .eventDelete e => if .event e ∈ s.created then syscallEventDelete s process e else none
  | .timerCreate deadline => some (syscallTimerCreate s process deadline)
  | .timerDelete t => if .timer t ∈ s.created then syscallTimerDelete s process t else none
  | .timerDispatch t again =>
    if (s.timers t).scheduled then some (s.setTimer t { s.timers t with scheduled := again })
    else none

/-! ### The end of the process -/

/-- One round of `handle_list_destroy`: the lookup, a release, and one more unless that was the
last. -/
def handleListDestroyEntry (current : Option ℕ) (s : State) : Handle → Option State
  | .event e =>
    let x := s.events e
    if x.rc = 0 then some s
    else
      (eventRelease (s.setEvent e { x with rc := x.rc + 1 }) e).bind fun s =>
        if x.rc + 1 - 1 ≠ 0 then eventRelease s e else some s
  | .timer t =>
    let x := s.timers t
    if x.rc = 0 then some s
    else
      (timerRelease (s.setTimer t { x with rc := x.rc + 1 }) current t).bind fun s =>
        if x.rc + 1 - 1 ≠ 0 then timerRelease s current t else some s

/-- `handle_list_destroy`, by a thread of the process `current` or in the scheduler. -/
def handleListDestroy (s : State) (current : Option ℕ) : Option State :=
  s.handleList.foldlM (handleListDestroyEntry current) { s with handleList := [] }

/-- The end of the process makes no panic, has every destructor run once and leaves nothing
registered. -/
def Released (s : State) (current : Option ℕ) : Prop :=
  ∃ s', handleListDestroy s current = some s' ∧
    (∀ e < s'.eventCount, (s'.events e).destructed = 1 ∧ (s'.events e).rc = 0) ∧
    ∀ t < s'.timerCount, (s'.timers t).destructed = 1 ∧ (s'.timers t).rc = 0 ∧
      (s'.timers t).scheduled = false

end KernelModel.Teardown
