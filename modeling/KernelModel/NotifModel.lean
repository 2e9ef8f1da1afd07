import KernelModel.Runs

/-!
Notification dispatchers and their consumers.

A dispatcher keeps one queue of containers behind an empty head. A consumer points at the
container it read last, or at the head, and counts as a reference to it. A read moves the
pointer to the next container, takes a reference there and drops the old one; the reader
that drops the last reference of a container sweeps the front of the queue.

The dispatcher's lock and the lock of a consumer are different locks, so the accesses a
read makes under the one fall between those a sweep makes under the other. Every access
that another thread can observe is a move of its own. Containers are numbered in the order
of their allocation, the head being number `0`, and a number is not used again.
-/

namespace KernelModel.Notif

open Runs

/-- What is dispatched: the type and the bytes, whose number is the length. -/
structure Notification where
  type : ℕ
  data : List UInt8
  deriving DecidableEq, Repr

structure Container where
  next : Option ℕ
  data : Notification
  rc : ℕ
  freed : Bool
  deriving DecidableEq, Repr

/-- How far the thread inside a consumer's lock has come, with the container it leaves. -/
inductive Section
  | opened
  | took (last : ℕ)
  | referenced (last : ℕ)
  deriving DecidableEq, Repr

/-- A consumer. The last three fields are history: the number of notifications dispatched
before it was created, how many of these were no longer queued, and what it was given. -/
structure Consumer (τ : Type) where
  last : ℕ
  inside : Option (τ × Section)
  event : Bool
  linked : Bool
  since : ℕ
  first : ℕ
  received : List Notification

/-- Where a thread stands in `notification_consumer_get` on a consumer. -/
inductive Pc (κ : Type)
  | idle
  /-- inside the consumer's lock -/
  | locked (c : κ)
  /-- before the test whether anything is left to read -/
  | checkEvent (c : κ) (last : ℕ)
  /-- before the same test under the dispatcher's lock -/
  | clearEvent (c : κ) (last : ℕ)
  /-- before the test of the old container's count -/
  | checkRc (c : κ) (last : ℕ)
  /-- before taking the dispatcher's lock for the sweep -/
  | lockSweep (c : κ)
  /-- at the head of the sweep's loop -/
  | sweep (c : κ)
  /-- in the body of the sweep's loop, about to unlink and free a container -/
  | free (c : κ) (next : ℕ)
  deriving DecidableEq

/-- One dispatcher with consumers `κ`, used by threads `τ`; `log` is the history of what
was dispatched. -/
structure State (κ τ : Type) where
  container : ℕ → Container
  tail : ℕ
  fresh : ℕ
  lock : Option τ
  consumer : κ → Option (Consumer τ)
  thread : τ → Pc κ
  log : List Notification

/-- `notification_dispatcher_create`. -/
def notificationDispatcherCreate (κ τ : Type) : State κ τ where
  container := fun _ => ⟨none, ⟨0, []⟩, 0, false⟩
  tail := 0
  fresh := 1
  lock := none
  consumer := fun _ => none
  thread := fun _ => .idle
  log := []

inductive Action (κ τ : Type)
  | dispatch (n : Notification)
  | create (c : κ)
  | link (c : κ)
  | get (t : τ) (c : κ)
  | advance (t : τ)
  | reference (t : τ)
  | release (t : τ)
  | checkEvent (t : τ)
  | clearEvent (t : τ)
  | checkRc (t : τ) (seen : Bool)
  | lockSweep (t : τ)
  | sweep (t : τ)
  | free (t : τ)

variable {κ τ : Type}

/-- The containers from `i` on, by following `next` at most `n` times. -/
def chain (s : State κ τ) : ℕ → Option ℕ → List ℕ
  | 0, _ => []
  | _, none => []
  | n + 1, some i => i :: chain s n (s.container i).next

/-- What a reader standing at container `i` has still to read. -/
def pending (s : State κ τ) (i : ℕ) : List Notification :=
  (chain s s.fresh (s.container i).next).map fun j => (s.container j).data

variable [DecidableEq κ] [DecidableEq τ]

def setContainer (s : State κ τ) (i : ℕ) (x : Container) : State κ τ :=
  { s with container := Function.update s.container i x }

def setConsumer (s : State κ τ) (c : κ) (x : Consumer τ) : State κ τ :=
  { s with consumer := Function.update s.consumer c (some x) }

def setThread (s : State κ τ) (t : τ) (p : Pc κ) : State κ τ :=
  { s with thread := Function.update s.thread t p }

def setNext (x : Container) (next : Option ℕ) : Container := { x with next := next }
def addRc (x : Container) : Container := { x with rc := x.rc + 1 }
def subRc (x : Container) : Container := { x with rc := x.rc - 1 }
def setFreed (x : Container) : Container := { x with freed := true }

/-- `notification_dispatcher_dispatch`: the section under the dispatcher's lock. -/
def notificationDispatcherDispatch (s : State κ τ) (n : Notification) : Option (State κ τ) :=
  if s.lock.isSome then none else
    some { s with
      container := Function.update
        (Function.update s.container s.fresh ⟨none, n, 0, false⟩) s.tail
        (setNext (s.container s.tail) (some s.fresh))
      tail := s.fresh
      fresh := s.fresh + 1
      consumer := fun c => (s.consumer c).map fun x => { x with event := x.event || x.linked }
      log := s.log ++ [n] }

/-- `notification_consumer_create`, up to the dispatcher's lock. -/
def notificationConsumerCreate (s : State κ τ) (c : κ) : Option (State κ τ) :=
  if (s.consumer c).isSome then none else
    some (setConsumer (setContainer s 0 (addRc (s.container 0))) c
      ⟨0, none, false, false, s.log.length, s.log.length - (pending s 0).length, []⟩)

/-- `notification_consumer_create`, the section under the dispatcher's lock. -/
def notificationConsumerLink (s : State κ τ) (c : κ) : Option (State κ τ) :=
  (s.consumer c).bind fun x =>
    if s.lock.isSome || x.linked then none
    else some (setConsumer s c { x with linked := true })

/-- `notification_consumer_get`, from its start to the end of the loop: with nothing to
read it gives up, or awaits the event and starts again; else it keeps the lock. -/
def getStart (s : State κ τ) (t : τ) (c : κ) : Option (State κ τ) :=
  (s.consumer c).bind fun x =>
    if s.thread t ≠ .idle ∨ x.inside.isSome ∨ ¬ x.linked then none
    else if (s.container x.last).next = none then some s
    else some (setThread (setConsumer s c { x with inside := some (t, .opened) }) t (.locked c))

/-- The pointer moves to the next container. -/
def getAdvance (s : State κ τ) (t : τ) : Option (State κ τ) :=
  match s.thread t with
  | .locked c =>
    (s.consumer c).bind fun x =>
      match x.inside with
      | some (_, .opened) =>
        (s.container x.last).next.map fun j =>
          setConsumer s c { x with last := j, inside := some (t, .took x.last) }
      | _ => none
  | _ => none

/-- The reference to the new container, and the copy of its notification. -/
def getReference (s : State κ τ) (t : τ) : Option (State κ τ) :=
  match s.thread t with
  | .locked c =>
    (s.consumer c).bind fun x =>
      match x.inside with
      | some (_, .took l) =>
        some (setConsumer (setContainer s x.last (addRc (s.container x.last))) c
          { x with
            inside := some (t, .referenced l)
            received := x.received ++ [(s.container x.last).data] })
      | _ => none
  | _ => none

/-- The reference to the old container is dropped and the consumer's lock released. -/
def getRelease (s : State κ τ) (t : τ) : Option (State κ τ) :=
  match s.thread t with
  | .locked c =>
    (s.consumer c).bind fun x =>
      match x.inside with
      | some (_, .referenced l) =>
        some (setThread (setConsumer (setContainer s l (subRc (s.container l))) c
          { x with inside := none }) t (.checkEvent c l))
      | _ => none
  | _ => none

def getCheckEvent (s : State κ τ) (t : τ) : Option (State κ τ) :=
  match s.thread t with
  | .checkEvent c l =>
    (s.consumer c).bind fun x =>
      if (s.container x.last).next = none then some (setThread s t (.clearEvent c l))
      else some (setThread s t (.checkRc c l))
  | _ => none

/-- The section under the dispatcher's lock that deactivates the event. -/
def getClearEvent (s : State κ τ) (t : τ) : Option (State κ τ) :=
  match s.thread t with
  | .clearEvent c l =>
    (s.consumer c).bind fun x =>
      if s.lock.isSome then none
      else if (s.container x.last).next = none then
        some (setThread (setConsumer s c { x with event := false }) t (.checkRc c l))
      else some (setThread s t (.checkRc c l))
  | _ => none

/-- The test of the old container's count. The container may have been freed since, and
then the memory holds anything: `seen` is what the thread finds there. -/
def getCheckRc (s : State κ τ) (t : τ) (seen : Bool) : Option (State κ τ) :=
  match s.thread t with
  | .checkRc c l =>
    if (s.container l).freed ∨ (seen ↔ (s.container l).rc ≠ 0) then
      some (setThread s t (if seen then .idle else .lockSweep c))
    else none
  | _ => none

def getLockSweep (s : State κ τ) (t : τ) : Option (State κ τ) :=
  match s.thread t with
  | .lockSweep c =>
    if s.lock.isSome then none else some (setThread { s with lock := some t } t (.sweep c))
  | _ => none

/-- The condition of the sweep's loop. -/
def getSweep (s : State κ τ) (t : τ) : Option (State κ τ) :=
  match s.thread t with
  | .sweep c =>
    match (s.container 0).next with
    | some i =>
      if (s.container i).rc = 0 then some (setThread s t (.free c i))
      else some (setThread { s with lock := none } t .idle)
    | none => some (setThread { s with lock := none } t .idle)
  | _ => none

/-- The body of the sweep's loop. -/
def getFree (s : State κ τ) (t : τ) : Option (State κ τ) :=
  match s.thread t with
  | .free c i =>
    some (setThread (setContainer
      (setContainer s 0 (setNext (s.container 0) (s.container i).next)) i
      (setFreed (s.container i))) t (.sweep c))
  | _ => none

/-- One move. `notification_consumer_delete` only panics, so that nothing is deleted. -/
def step (s : State κ τ) : Action κ τ → Option (State κ τ)
  | .dispatch n => notificationDispatcherDispatch s n
  | .create c => notificationConsumerCreate s c
  | .link c => notificationConsumerLink s c
  | .get t c => getStart s t c
  | .advance t => getAdvance s t
  | .reference t => getReference s t
  | .release t => getRelease s t
  | .checkEvent t => getCheckEvent s t
  | .clearEvent t => getClearEvent s t
  | .checkRc t seen => getCheckRc s t seen
  | .lockSweep t => getLockSweep s t
  | .sweep t => getSweep s t
  | .free t => getFree s t

/-- What a consumer was given is what was dispatched, in order and without gaps, from no
later than its creation on; and what is missing is queued behind its pointer. -/
def Delivered (s : State κ τ) : Prop :=
  ∀ c x, s.consumer c = some x → x.first ≤ x.since ∧ x.received <+: s.log.drop x.first ∧
    (x.inside = none → x.received ++ pending s x.last = s.log.drop x.first)

/-- Of the notifications a consumer has to read, those in freed containers are read. -/
def FreedRead (s : State κ τ) : Prop :=
  ∀ i, (s.container i).freed = true → ∀ c x, s.consumer c = some x →
    x.first < i → i ≤ x.first + x.received.length

/-- A thread between the test of a container's count and its release. -/
def Pc.freeing : Pc κ → Bool
  | .free _ _ => true
  | _ => false

/-- A sweep leaves its loop at once while a consumer still stands at the head, and no
consumer is created between the test of a container's count and its release. -/
def HeadLeft (s : State κ τ) : Action κ τ → Prop
  | .sweep _ => ∀ i ∈ (s.container 0).next, (s.container i).rc = 0 → (s.container 0).rc = 0
  | .create _ => ∀ t, (s.thread t).freeing = false
  | _ => True

instance [Fintype τ] (s : State κ τ) : (a : Action κ τ) → Decidable (HeadLeft s a)
  | .sweep _ => inferInstanceAs (Decidable (∀ i ∈ (s.container 0).next,
      (s.container i).rc = 0 → (s.container 0).rc = 0))
  | .create _ => inferInstanceAs (Decidable (∀ t, (s.thread t).freeing = false))
  | .dispatch _ | .link _ | .get _ _ | .advance _ | .reference _ | .release _ | .checkEvent _
  | .clearEvent _ | .checkRc _ _ | .lockSweep _ | .free _ => isTrue trivial

end KernelModel.Notif
