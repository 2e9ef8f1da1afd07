import KernelModel.RbTreeLookup
import KernelModel.Runs

/-!
Timers of the kernel.

Every timer begins with a tree node, whose key is the deadline of the timer, so that the
address of a timer is the address of its node. A deadline of zero means that the timer is not
set. Timers with the same deadline are meant to hang in a chain behind the one in the tree.

The operations run one after another: each holds the lock of the tree, and the lock of its
timer, from its first access to its last. Events, handles and access lists are left out, except
that an operation may be denied, and that the timers whose event has been dispatched are
recorded.
-/

namespace KernelModel.Timers

open RbTree

/-- The fields of `timer_t` behind its node. -/
structure Timer where
  prev : ℕ
  next : ℕ
  interval : ℕ
  count : ℕ
  isDeleted : Bool

structure State where
  tree : Tree
  timer : ℕ → Timer
  /-- what the allocator has handed out -/
  created : List ℕ
  /-- the timers whose event has been dispatched, in order -/
  fired : List ℕ

/-- `TIMER_COUNT_ABSOLUTE_TIME` -/
def timerCountAbsoluteTime : ℕ := 0

def State.modify (s : State) (a : ℕ) (g : Timer → Timer) : State :=
  { s with timer := Function.update s.timer a (g (s.timer a)) }

def State.withTree (s : State) (tree : Tree) : State := { s with tree := tree }

def timerGetDeadline (s : State) (timer : ℕ) : ℕ := (s.tree.heap timer).key

def setDeadline (s : State) (timer key : ℕ) : State := s.withTree (setKey s.tree ⟨timer, key⟩)

/-- `_remove_from_chain`; it has no result if the insertion panics. -/
def removeFromChain (f : ℕ) (s : State) (timer : ℕ) : Option State :=
  let unlinked :=
    if (s.timer timer).prev ≠ 0 then
      some (s.modify (s.timer timer).prev fun t => { t with next := (s.timer timer).next })
    else if (s.timer timer).next ≠ 0 then
      (rbTreeInsertNode f s.tree (s.timer timer).next).map s.withTree
    else some s
  unlinked.map fun s =>
    let s :=
      if (s.timer timer).next ≠ 0 then
        s.modify (s.timer timer).next fun t => { t with prev := (s.timer timer).prev }
      else s
    s.modify timer fun t => { t with prev := 0, next := 0 }

/-- `_schedule_timer` -/
def scheduleTimer (f : ℕ) (s : State) (timer : ℕ) : Option State :=
  (rbTreeLookupOrInsertNode f s.tree timer).map fun (tree, chain) =>
    let s := s.withTree tree
    if chain = 0 then s
    else
      let s :=
        if (s.timer chain).next ≠ 0 then
          s.modify (s.timer chain).next fun t => { t with prev := timer }
        else s
      let s := s.modify timer fun t => { t with prev := chain }
      let s := s.modify timer fun t => { t with next := (s.timer chain).next }
      s.modify chain fun t => { t with next := timer }

/-- Takes a timer that has a deadline and heads its chain out of the tree. -/
def removeFromTree (f : ℕ) (s : State) (timer : ℕ) : Option State :=
  if (s.timer timer).prev = 0 ∧ timerGetDeadline s timer ≠ 0 then
    (rbTreeRemoveNode f s.tree timer).map s.withTree
  else some s

/-- The deadline that `timer_update` sets. -/
def newDeadline (interval count clock : ℕ) : ℕ :=
  if count = timerCountAbsoluteTime then interval else (clock + interval) % 2 ^ 64

/-- `timer_update`, with the time of the clock and the answer of the access check. -/
def timerUpdate (f : ℕ) (s : State) (timer interval count clock : ℕ) (denied : Bool) :
    Option State :=
  if denied then some s
  else if (s.timer timer).isDeleted then some s
  else
    (removeFromTree f s timer).bind fun s =>
      (removeFromChain f (setDeadline s timer 0) timer).bind fun s =>
        let s := setDeadline s timer (newDeadline interval count clock)
        let s :=
          if count = timerCountAbsoluteTime then s.modify timer fun t => { t with count := 0 }
          else s.modify timer fun t => { t with interval := interval, count := count }
        if timerGetDeadline s timer ≠ 0 then scheduleTimer f s timer else some s

/-- A timer as `timer_create` fills it in. -/
def newTimer (s : State) (timer : ℕ) : State :=
  { tree := setKey s.tree ⟨timer, 0⟩
    timer := Function.update s.timer timer ⟨0, 0, 0, 0, false⟩
    created := timer :: s.created
    fired := s.fired }

/-- `timer_create`, with the address that the allocator returns. -/
def timerCreate (f : ℕ) (s : State) (timer interval count clock : ℕ) : Option State :=
  timerUpdate f (newTimer s timer) timer interval count clock false

def timerDelete (f : ℕ) (s : State) (timer : ℕ) (denied : Bool) : Option State :=
  if denied then some s
  else if (s.timer timer).isDeleted then some s
  else
    let s := s.modify timer fun t => { t with isDeleted := true }
    (removeFromTree f s timer).bind fun s => removeFromChain f s timer

/-- The part of `timer_dispatch_timers` for the timer it has found. -/
def fireTimer (f : ℕ) (s : State) (timer time : ℕ) : Option State :=
  (rbTreeRemoveNode f s.tree timer).bind fun tree =>
    (removeFromChain f (s.withTree tree) timer).bind fun s =>
      let s := { s with fired := s.fired ++ [timer] }
      if (s.timer timer).count ≤ 1 then
        some ((setDeadline s timer 0).modify timer fun t => { t with count := 0 })
      else
        let s := s.modify timer fun t => { t with count := t.count - 1 }
        scheduleTimer f (setDeadline s timer ((time + (s.timer timer).interval) % 2 ^ 64)) timer

/-- The time in microseconds until the first timer is due. -/
def untilNext (s : State) (timer time : ℕ) : ℕ :=
  if timer = 0 then 0xffffffff
  else if time < timerGetDeadline s timer then (timerGetDeadline s timer - time) / 1000 % 2 ^ 32
  else 0

/-- `timer_dispatch_timers` at the time `time`: the state and the returned value. -/
def timerDispatchTimers (f : ℕ) (s : State) (time : ℕ) : Option (State × ℕ) :=
  (rbTreeLookupDecreasingNode f s.tree time).bind fun timer =>
    (if timer = 0 then some s else fireTimer f s timer time).bind fun s =>
      (rbTreeIterStart f s.tree).map fun first => (s, untilNext s first time)

/-! ### Runs -/

inductive Op
  | create (timer interval count clock : ℕ)
  | update (timer interval count clock : ℕ) (denied : Bool)
  | delete (timer : ℕ) (denied : Bool)
  | dispatch (time : ℕ)

/-- A timer that has been created and not deleted. -/
def Live (s : State) (a : ℕ) : Prop := a ∈ s.created ∧ (s.timer a).isDeleted = false

instance (s : State) (a : ℕ) : Decidable (Live s a) := inferInstanceAs (Decidable (_ ∧ _))

instance (a : ℕ) : Decidable (Aligned a) := inferInstanceAs (Decidable (_ ∧ _ ∧ _))

/-- The allocator returns the address of no live timer, and the others are called with a timer. -/
def Op.Called (s : State) : Op → Prop
  | .create timer _ _ _ => Aligned timer ∧ ¬ Live s timer
  | .update timer _ _ _ _ => timer ∈ s.created
  | .delete timer _ => timer ∈ s.created
  | .dispatch _ => True

instance (s : State) : (o : Op) → Decidable (o.Called s)
  | .create _ _ _ _ => inferInstanceAs (Decidable (_ ∧ _))
  | .update _ _ _ _ _ => inferInstanceAs (Decidable (_ ∈ _))
  | .delete _ _ => inferInstanceAs (Decidable (_ ∈ _))
  | .dispatch _ => inferInstanceAs (Decidable True)

def perform (f : ℕ) (s : State) : Op → Option State
  | .create timer interval count clock => timerCreate f s timer interval count clock
  | .update timer interval count clock denied => timerUpdate f s timer interval count clock denied
  | .delete timer denied => timerDelete f s timer denied
  | .dispatch time => (timerDispatchTimers f s time).map Prod.fst

def step (f : ℕ) (s : State) (o : Op) : Option State :=
  if o.Called s then perform f s o else none

/-- No timers; the memory holds anything. -/
def start (heap : ℕ → Node) (timer : ℕ → Timer) : State := ⟨rbTreeInit heap, timer, [], []⟩

/-! ### What the timers are meant to be -/

/-- A live timer that is set. -/
def Pending (s : State) (a : ℕ) : Prop := Live s a ∧ timerGetDeadline s a ≠ 0

/-- A pending timer whose deadline has passed. -/
def Expired (s : State) (time a : ℕ) : Prop := Pending s a ∧ timerGetDeadline s a ≤ time

instance (s : State) (a : ℕ) : Decidable (Pending s a) := inferInstanceAs (Decidable (_ ∧ _))

instance (s : State) (time a : ℕ) : Decidable (Expired s time a) :=
  inferInstanceAs (Decidable (_ ∧ _))

/-- The timers of the list are linked both ways, from the timer `p` before them to the end. -/
def IsChain (s : State) (p : ℕ) : List ℕ → Prop
  | [] => True
  | a :: l => (s.timer a).prev = p ∧ (s.timer a).next = l.headD 0 ∧ IsChain s a l

/-- **The registration of timers**: the tree with the chains of its nodes holds exactly the
pending timers, each once, in the chain of the node with its deadline. -/
def Registered (s : State) : Prop :=
  ∃ (N : List Label) (chain : ℕ → List ℕ), IsRbTree s.tree N ∧
    (∀ x ∈ N, IsChain s 0 (x.addr :: chain x.addr) ∧
      ∀ a ∈ x.addr :: chain x.addr, timerGetDeadline s a = x.key) ∧
    (N.flatMap fun x => x.addr :: chain x.addr).Nodup ∧
    ∀ a, (a ∈ N.flatMap fun x => x.addr :: chain x.addr) ↔ Pending s a

end KernelModel.Timers
