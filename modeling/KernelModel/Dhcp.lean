import KernelModel.LittleEndian
import KernelModel.Runs

/-!
The DHCP client: what it reads of a received packet, and the exchange it runs.

A packet is the data of a datagram, and memory goes on behind it. The two loops over the options
have no bound of their own, so they are functions of all the bytes from the options on; there is no
result when they would read past the last of them.
-/

namespace KernelModel.Dhcp

open LittleEndian

/-! ### The packet -/

def opBootreply : UInt8 := 2

def cookie : ℕ := 0x63825363

def optionSubnetMask : UInt8 := 1
def optionRouter : UInt8 := 3
def optionDomainNameServer : UInt8 := 6
def optionIpAddressLeaseTime : UInt8 := 51
def optionMessageType : UInt8 := 53
def optionEnd : UInt8 := 255

def messageTypeNone : UInt8 := 0
def messageTypeDhcpoffer : UInt8 := 2
def messageTypeDhcpack : UInt8 := 5
def messageTypeDhcpnak : UInt8 := 6

/-- `sizeof(net_dhcp_packet_t)`, the bytes before the options. -/
def sizeofPacket : ℕ := 240

/-- What the client reads of a `net_dhcp_packet_t`. -/
structure Packet where
  op : UInt8
  xid : ℕ
  yiaddr : ℕ
  siaddr : ℕ
  cookie : ℕ
  options : List UInt8
  deriving DecidableEq

/-- The packet in the data of a datagram. -/
def Packet.ofData (data : List UInt8) : Option Packet :=
  if data.length < sizeofPacket then none
  else
    let bytes := fun i => data.getD i 0
    some
      { op := bytes 0
        xid := getBig 4 bytes 4
        yiaddr := getBig 4 bytes 16
        siaddr := getBig 4 bytes 20
        cookie := getBig 4 bytes 236
        options := data.drop sizeofPacket }

/-- A reply to the last packet that was sent. -/
def Packet.Passes (p : Packet) (xid : ℕ) : Prop :=
  p.op = opBootreply ∧ p.xid = xid ∧ p.cookie = Dhcp.cookie

instance (p : Packet) (xid : ℕ) : Decidable (p.Passes xid) :=
  inferInstanceAs (Decidable (_ ∧ _ ∧ _))

/-! ### The options -/

/-- The loop that looks for the type of the message, on the bytes that are left. -/
def findMessageType : List UInt8 → Option UInt8
  | [] => none
  | type :: rest =>
    if type = optionEnd then some messageTypeNone
    else if type = 0 then findMessageType rest
    else
      match rest with
      | [] => none
      | length :: value =>
        if type = optionMessageType ∧ length = 1 then value.head?
        else findMessageType (value.drop length.toNat)
termination_by options => options.length
decreasing_by all_goals simp only [List.length_cons, List.length_drop]; omega

/-- The network configuration, with the time it is valid for. -/
structure NetInfo where
  address : ℕ := 0
  subnetMask : ℕ := 0
  routers : List ℕ := []
  dns : List ℕ := []
  leaseTime : ℕ := 0
  deriving DecidableEq

/-- A number in the value of an option. -/
def getU32 (value : List UInt8) : Option ℕ :=
  if value.length < 4 then none else some (getBig 4 (fun i => value.getD i 0) 0)

/-- What one option changes. -/
def NetInfo.addOption (info : NetInfo) (type length : UInt8) (value : List UInt8) :
    Option NetInfo :=
  if type = optionSubnetMask ∧ length = 4 then
    (getU32 value).map fun mask => { info with subnetMask := mask }
  else if type = optionRouter ∧ length ≥ 4 then
    (getU32 value).map fun router => { info with routers := info.routers ++ [router] }
  else if type = optionDomainNameServer ∧ length ≥ 4 then
    (getU32 value).map fun dns => { info with dns := info.dns ++ [dns] }
  else if type = optionIpAddressLeaseTime ∧ length = 4 then
    (getU32 value).map fun time => { info with leaseTime := time }
  else some info

/-- The loop over the options of an acknowledgement. The length is read before the type is looked
at, also for padding. -/
def readOptions : NetInfo → List UInt8 → Option NetInfo
  | _, [] => none
  | info, type :: rest =>
    if type = optionEnd then some info
    else
      match rest with
      | [] => none
      | length :: value =>
        (info.addOption type length value).bind fun info =>
          if type = 0 then readOptions info (length :: value)
          else readOptions info (value.drop length.toNat)
termination_by _ options => options.length
decreasing_by all_goals simp only [List.length_cons, List.length_drop]; omega

/-! ### The client -/

/-- What the client does that others see, and the offers that it answers. -/
inductive Event
  | discover (xid preferred : ℕ)
  | offer (address server : ℕ)
  | request (xid address server : ℕ)
  | configure (address xid : ℕ)
  deriving DecidableEq

/-- How far a thread is in `_send_discover_request`. -/
inductive Phase
  | idle
  | clear
  | load
  | store (xid : ℕ)
  | build
  | push (xid : ℕ)
  deriving DecidableEq

/-- The receive thread, which discovers after a timeout without the lock, and the thread that has
the lock and negotiates. -/
inductive Party
  | rx
  | negotiator
  deriving DecidableEq

structure State where
  xid : ℕ
  offerAddress : ℕ
  offerServerAddress : ℕ
  preferredAddress : ℕ
  info : NetInfo
  phase : Party → Phase
  /-- Newest first. -/
  log : List Event

def init (preferredAddress : ℕ) : State :=
  { xid := 0
    offerAddress := 0
    offerServerAddress := 0
    preferredAddress := preferredAddress
    info := {}
    phase := fun _ => .idle
    log := [] }

namespace State

/-- The transaction counter after the next packet. -/
def nextXid (xid : ℕ) : ℕ := (xid + 1) % 2 ^ 32

/-- The next step of `_send_discover_request`; the counter is loaded and stored in two steps. -/
def discoverStep (s : State) (p : Party) : Option State :=
  match s.phase p with
  | .idle => none
  | .clear =>
    some { s with
      offerAddress := 0
      offerServerAddress := 0
      phase := Function.update s.phase p .load }
  | .load => some { s with phase := Function.update s.phase p (.store s.xid) }
  | .store xid => some { s with xid := nextXid xid, phase := Function.update s.phase p .build }
  | .build => some { s with phase := Function.update s.phase p (.push s.xid) }
  | .push xid =>
    some { s with
      log := .discover xid s.preferredAddress :: s.log
      phase := Function.update s.phase p .idle }

/-- `_send_discover_request` in one go, by the receive thread that has the lock. -/
def sendDiscoverRequest (s : State) : State :=
  { s with
    offerAddress := 0
    offerServerAddress := 0
    xid := nextXid s.xid
    log := .discover (nextXid s.xid) s.preferredAddress :: s.log }

/-- An offer is remembered and asked for. -/
def answerOffer (s : State) (p : Packet) : State :=
  { s with
    offerAddress := p.yiaddr
    offerServerAddress := p.siaddr
    xid := nextXid s.xid
    log := .request (nextXid s.xid) p.yiaddr p.siaddr :: .offer p.yiaddr p.siaddr :: s.log }

/-- An acknowledgement is for the offer that is remembered. -/
def Matches (s : State) (p : Packet) : Prop :=
  p.yiaddr = s.offerAddress ∧ s.offerServerAddress = p.siaddr

instance (s : State) (p : Packet) : Decidable (s.Matches p) := inferInstanceAs (Decidable (_ ∧ _))

/-- The address is configured. -/
def configure (s : State) (p : Packet) (info : NetInfo) : State :=
  { s with
    xid := nextXid s.xid
    preferredAddress := s.offerAddress
    info := { info with
      address := s.offerAddress
      leaseTime := if info.leaseTime = 0 then 1 else info.leaseTime }
    log := .configure s.offerAddress p.xid :: s.log }

/-- The receive thread handles a packet, with the lock; `behind` is the memory behind it. -/
def receive (s : State) (data behind : List UInt8) : Option State :=
  match Packet.ofData data with
  | none => some s
  | some p =>
    if ¬p.Passes s.xid then some s
    else
      (findMessageType (p.options ++ behind)).bind fun op =>
        if op = messageTypeDhcpoffer then some (s.answerOffer p)
        else if op = messageTypeDhcpack then
          if ¬s.Matches p then some s
          else
            (readOptions { s.info with leaseTime := 0 } (p.options ++ behind)).map (s.configure p)
        else if op = messageTypeDhcpnak then some s.sendDiscoverRequest
        else some s

end State

inductive Label
  | receive (data behind : List UInt8)
  | timeout
  | negotiate
  | discover (p : Party)

/-- One step of the client. A packet is handled when the lock is free and the receive thread is not
in the middle of a timeout. -/
def step (s : State) : Label → Option State
  | .receive data behind =>
    if s.phase .rx = .idle ∧ s.phase .negotiator = .idle then s.receive data behind else none
  | .timeout =>
    if s.phase .rx = .idle then
      some { s with
        info := if s.info.address = 0 then s.info else {}
        phase := Function.update s.phase .rx .clear }
    else none
  | .negotiate =>
    if s.phase .negotiator = .idle then
      some { s with info := {}, phase := Function.update s.phase .negotiator .clear }
    else none
  | .discover p => s.discoverStep p

end KernelModel.Dhcp
