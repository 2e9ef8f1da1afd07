import KernelModel.Runs

/-!
The ARP resolver: the cache, the calls that wait for a reply, and the receive callback.

The lock of the cache guards a lookup, and the storing of a reply; a call that has waited copies the
hardware address without it, byte by byte. There is a network adapter, and `n` threads may call.
-/

namespace KernelModel.Arp

/-- `mac_address_t` -/
abbrev Mac := Fin 6 → UInt8

/-- `sizeof(net_arp_packet_t)` -/
def sizeofPacket : ℕ := 28

def operRequest : ℕ := 1
def operReply : ℕ := 2

/-- What the callback reads of a received packet. -/
structure Packet where
  length : ℕ
  oper : ℕ
  sha : Mac
  spa : ℕ
  tpa : ℕ

/-- `net_arp_cache_entry_t` -/
structure Entry where
  address : Mac
  resolved : Bool
  deriving DecidableEq

/-- The addresses that need no reply: no address, and the broadcast address. -/
def fixedAddress (address : ℕ) : Option Mac :=
  if address = 0 then some fun _ => 0
  else if address = 0xffffffff then some fun _ => 0xff
  else none

/-- What happens on the network, and how the calls end. -/
inductive Event
  /-- A call goes on to wait. -/
  | wait (address : ℕ)
  /-- A request is broadcast. -/
  | request (address : ℕ)
  /-- A probe is answered. -/
  | answer (address : ℕ) (target : Mac)
  /-- A reply is received. -/
  | reply (address : ℕ) (sender : Mac)
  | success (address : ℕ) (out : Mac)
  /-- A call has timed out. -/
  | failure (address : ℕ)
  /-- A nonblocking call does not wait. -/
  | refused (address : ℕ)
  deriving DecidableEq

/-- Where a call of `net_arp_resolve_address` is that did not return at once. -/
inductive Phase
  | send
  | wait
  | check
  | copy (i : ℕ) (out : Mac)
  deriving DecidableEq

structure Call where
  address : ℕ
  /-- No other call for the address was waiting when it started. -/
  alone : Bool
  /-- It has broadcast a request. -/
  asked : Bool
  phase : Phase
  deriving DecidableEq

structure State (n : ℕ) where
  cache : ℕ → Option Entry
  /-- The address, the reply and the next byte, while the callback has the lock. -/
  writer : Option (ℕ × Mac × ℕ)
  calls : Fin n → Option Call
  /-- Newest first. -/
  log : List Event

variable {n : ℕ}

def init (n : ℕ) : State n := ⟨fun _ => none, none, fun _ => none, []⟩

/-- The steps of a call that did not return at once. -/
inductive Action
  | send
  | timeout
  | wake
  | check
  | copy

inductive Label (n : ℕ)
  | call (thread : Fin n) (address : ℕ) (nonblocking : Bool)
  | proceed (thread : Fin n) (action : Action)
  /-- The callback handles a packet while the machine has the address `self`. -/
  | receive (self : ℕ) (packet : Packet)
  | store

namespace State

def Resolved (s : State n) (address : ℕ) : Prop :=
  ∃ e, s.cache address = some e ∧ e.resolved

instance (s : State n) (address : ℕ) : Decidable (s.Resolved address) :=
  match h : s.cache address with
  | none => isFalse (by simp [Resolved, h])
  | some e => decidable_of_iff (e.resolved = true) (by simp [Resolved, h])

/-- A call for the address has not returned. -/
def Waiting (s : State n) (address : ℕ) : Prop :=
  ∃ thread, ∃ c, s.calls thread = some c ∧ c.address = address

instance (s : State n) (address : ℕ) : Decidable (s.Waiting address) :=
  decidable_of_iff (∃ thread, ((s.calls thread).any fun c => c.address = address) = true)
    (by simp [Waiting, Option.any_eq_true])

def setCall (s : State n) (thread : Fin n) (c : Option Call) : State n :=
  { s with calls := Function.update s.calls thread c }

def push (s : State n) (e : Event) : State n := { s with log := e :: s.log }

/-- The first part of `net_arp_resolve_address`, up to the release of the lock. -/
def call (s : State n) (thread : Fin n) (address : ℕ) (nonblocking : Bool) : Option (State n) :=
  match fixedAddress address with
  | some out => some (s.push (.success address out))
  | none =>
    if s.writer.isSome then none
    else
      match s.cache address with
      | some e =>
        if e.resolved then some (s.push (.success address e.address))
        else if nonblocking then some (s.push (.refused address))
        else
          some ((s.push (.wait address)).setCall thread
            (some ⟨address, !decide (s.Waiting address), false, .wait⟩))
      | none =>
        if nonblocking then some (s.push (.refused address))
        else
          some (({ s with cache := Function.update s.cache address (some ⟨fun _ => 0, false⟩) }.push
            (.wait address)).setCall thread
              (some ⟨address, !decide (s.Waiting address), false, .send⟩))

/-- `_rx_callback`, up to the acquisition of the lock. -/
def receive (s : State n) (self : ℕ) (packet : Packet) : Option (State n) :=
  if packet.length < sizeofPacket ∨ packet.tpa ≠ self then some s
  else if packet.oper = operRequest then some (s.push (.answer packet.spa packet.sha))
  else if packet.oper ≠ operReply then some s
  else if s.writer.isSome then none
  else
    match s.cache packet.spa with
    | none => some (s.push (.reply packet.spa packet.sha))
    | some _ =>
      some { s.push (.reply packet.spa packet.sha) with
        writer := some (packet.spa, packet.sha, 0) }

/-- The next step of the callback that has the lock. -/
def store (s : State n) : Option (State n) :=
  match s.writer with
  | none => none
  | some (address, sender, i) =>
    match s.cache address with
    | none => none
    | some e =>
      if h : i < 6 then
        some { s with
          cache := Function.update s.cache address
            (some { e with address := Function.update e.address ⟨i, h⟩ (sender ⟨i, h⟩) })
          writer := some (address, sender, i + 1) }
      else
        some { s with
          cache := Function.update s.cache address (some { e with resolved := true })
          writer := none }

/-- The second part of `net_arp_resolve_address`, after the release of the lock. -/
def proceed (s : State n) (thread : Fin n) (c : Call) : Action → Option (State n)
  | .send =>
    if c.phase = .send then
      some ((s.push (.request c.address)).setCall thread
        (some { c with asked := true, phase := .wait }))
    else none
  | .timeout =>
    if c.phase = .wait then some (s.setCall thread (some { c with phase := .check })) else none
  | .wake =>
    if c.phase = .wait then
      if s.Resolved c.address then some (s.setCall thread (some { c with phase := .check }))
      else some s
    else none
  | .check =>
    if c.phase = .check then
      if s.Resolved c.address then
        some (s.setCall thread (some { c with phase := .copy 0 fun _ => 0 }))
      else some ((s.push (.failure c.address)).setCall thread none)
    else none
  | .copy =>
    match c.phase, s.cache c.address with
    | .copy i out, some e =>
      if h : i < 6 then
        some (s.setCall thread
          (some { c with phase := .copy (i + 1) (Function.update out ⟨i, h⟩ (e.address ⟨i, h⟩)) }))
      else some ((s.push (.success c.address out)).setCall thread none)
    | _, _ => none

end State

def step (s : State n) : Label n → Option (State n)
  | .call thread address nonblocking =>
    if s.calls thread = none then s.call thread address nonblocking else none
  | .proceed thread action => (s.calls thread).bind fun c => s.proceed thread c action
  | .receive self packet => s.receive self packet
  | .store => s.store

end KernelModel.Arp
