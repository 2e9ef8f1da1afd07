import KernelModel.Blocks
import KernelModel.UdpChecksum

/-!
A received UDP datagram: the socket on its port, the buffers that are allocated for it, and the ring
that they are queued in.

An allocator hands out addresses that nothing lives at, and a buffer is freed at the address that it
was handed out at. The IPv4 packet is a variable of the caller, so its address is none of these.
-/

namespace KernelModel.UdpReceive

open LittleEndian UdpChecksum

inductive Address
  | heap (n : ℕ)
  | stack
  deriving DecidableEq

structure NetUdpIp4Address where
  address : ℕ
  port : ℕ
  deriving DecidableEq

structure NetUdpIp4SocketPacket where
  srcAddress : NetUdpIp4Address
  dstAddress : NetUdpIp4Address
  length : ℕ
  data : List UInt8
  deriving DecidableEq

structure SocketPacket where
  size : ℕ
  data : Address
  deriving DecidableEq

/-- `sizeof(net_udp_ip4_socket_packet_t)` -/
def sizeofSocketPacket : ℕ := 20

/-- What lives at the addresses: the buffers of `amm_alloc`, with their sizes, and the socket
packets. -/
structure Heap where
  next : ℕ
  amm : ℕ → Option (ℕ × NetUdpIp4SocketPacket)
  omm : ℕ → Option SocketPacket
  free : ∀ n, next ≤ n → amm n = none ∧ omm n = none

namespace Heap

def ammAlloc (h : Heap) (size : ℕ) (packet : NetUdpIp4SocketPacket) : Heap where
  next := h.next + 1
  amm := Function.update h.amm h.next (some (size, packet))
  omm := h.omm
  free n hn := ⟨(Function.update_of_ne (by omega) _ _).trans (h.free n (by omega)).1,
    (h.free n (by omega)).2⟩

def ommAlloc (h : Heap) (packet : SocketPacket) : Heap where
  next := h.next + 1
  amm := h.amm
  omm := Function.update h.omm h.next (some packet)
  free n hn := ⟨(h.free n (by omega)).1,
    (Function.update_of_ne (by omega) _ _).trans (h.free n (by omega)).2⟩

/-- `amm_dealloc`; there must be a buffer at the address. -/
def ammDealloc (h : Heap) : Address → Option Heap
  | .stack => none
  | .heap n =>
    if (h.amm n).isSome then some
      { h with
        amm := Function.update h.amm n none
        free := fun k hk => ⟨by
          obtain rfl | hne := eq_or_ne k n
          · exact Function.update_self _ _ _
          · exact (Function.update_of_ne hne _ _).trans (h.free k hk).1, (h.free k hk).2⟩ }
    else none

end Heap

/-- `ring_t`; the counts and indices are words of 32 bits. -/
structure Ring where
  buffer : Block Address
  readIndex : ℕ
  readCount : ℕ
  writeIndex : ℕ
  writeCount : ℕ
  count_lt : readCount + writeCount < 2 ^ 32
  writeIndex_eq : writeIndex = (readIndex + readCount) % 2 ^ 32

/-- The items, oldest first. -/
def Ring.items (r : Ring) : List Address :=
  (List.range r.readCount).map fun i => r.buffer.data ((r.readIndex + i) % 2 ^ 32)

/-- `ring_push`, without waiting. -/
def ringPush (r : Ring) (item : Address) : Option (Bool × Ring) :=
  if h : r.writeCount = 0 then some (false, r)
  else (r.buffer.write r.writeIndex item).map fun buffer => (true,
    { buffer
      readIndex := r.readIndex
      readCount := r.readCount + 1
      writeIndex := (r.writeIndex + 1) % 2 ^ 32
      writeCount := r.writeCount - 1
      count_lt := by have := r.count_lt; omega
      writeIndex_eq := by have := r.writeIndex_eq; omega })

inductive Descriptor
  | udp
  | other
  deriving DecidableEq

structure Socket where
  rc : UInt64
  nodeFlags : ℕ
  flags : ℕ
  descriptor : Descriptor
  rxRing : Ring

structure State where
  ports : ℕ → Option ℕ
  sockets : ℕ → Socket
  heap : Heap

def vfsNodeTypeMask : ℕ := 7
def vfsNodeTypeSocket : ℕ := 5
def socketFlagRead : ℕ := 1

def State.setSocket (s : State) (id : ℕ) (socket : Socket) : State :=
  { s with sockets := Function.update s.sockets id socket }

def vfsNodeRef (s : State) (id : ℕ) : State :=
  s.setSocket id { s.sockets id with rc := (s.sockets id).rc + 1 }

/-- `vfs_node_unref`; the end of a node without references is not described. -/
def vfsNodeUnref (s : State) (id : ℕ) : Option State :=
  let rc := (s.sockets id).rc - 1
  if rc = 0 then none else some (s.setSocket id { s.sockets id with rc })

/-- `socket_port_get` -/
def socketPortGet (s : State) (port : ℕ) : Option (ℕ × State) :=
  (s.ports port).map fun id => (id, vfsNodeRef s id)

/-- `socket_alloc_packet` -/
def socketAllocPacket (s : State) (id : ℕ) (data : Address) (size : ℕ) : Option (Bool × State) :=
  let socket := s.sockets id
  if socket.nodeFlags &&& vfsNodeTypeMask ≠ vfsNodeTypeSocket then some (false, s)
  else if socket.flags &&& socketFlagRead = 0 then some (false, s)
  else
    let item := Address.heap s.heap.next
    let heap := s.heap.ommAlloc ⟨size, data⟩
    (ringPush socket.rxRing item).map fun (out, rxRing) =>
      (out, ({ s with heap } : State).setSocket id { socket with rxRing })

/-- A received IPv4 packet: the bytes of its header and behind it, and the length behind it. -/
structure Datagram where
  header : ℕ → UInt8
  data : ℕ → UInt8
  length : ℕ
  length_lt : length + sizeofIp4Packet < 2 ^ 16

namespace Datagram

variable (d : Datagram)

def srcAddress (i : Fin 4) : UInt8 := d.header (12 + i)
def dstAddress (i : Fin 4) : UInt8 := d.header (16 + i)

/-- The checks of the length and the checksum; no loop of the checksum runs out of this fuel. -/
def accepted : Option Bool := accepts d.srcAddress d.dstAddress d.data d.length (2 ^ 16)

/-- `__builtin_bswap16(udp_packet->dst_port)` -/
def port : ℕ := bswap 2 (get 2 d.data 2)

/-- The bytes behind the UDP header. -/
def payload : List UInt8 :=
  (List.range (d.length - sizeofUdpPacket)).map fun i => d.data (sizeofUdpPacket + i)

/-- What is written into the buffer. -/
def socketPacket : NetUdpIp4SocketPacket where
  srcAddress := ⟨bswap 4 (get 4 d.header 12), bswap 2 (get 2 d.data 0)⟩
  dstAddress := ⟨bswap 4 (get 4 d.header 16), bswap 2 (get 2 d.data 2)⟩
  length := d.length - sizeofUdpPacket
  data := d.payload

def size : ℕ := sizeofSocketPacket + d.length - sizeofUdpPacket

end Datagram

/-- The UDP `_rx_callback` -/
def rxCallback (s : State) (d : Datagram) : Option State := do
  if ¬(← d.accepted) then some s
  else
    match socketPortGet s d.port with
    | none => some s
    | some (socket, s) =>
      if (s.sockets socket).descriptor ≠ .udp then vfsNodeUnref s socket
      else
        let socketPacket := Address.heap s.heap.next
        let s := { s with heap := s.heap.ammAlloc d.size d.socketPacket }
        let (queued, s) ← socketAllocPacket s socket socketPacket d.size
        -- It is the received packet that is freed.
        (if queued then some s
          else (s.heap.ammDealloc .stack).map fun heap => { s with heap }).bind
            fun s => vfsNodeUnref s socket

/-! ### What is promised -/

/-- The copy of a datagram. -/
def Datagram.copy (d : Datagram) : NetUdpIp4SocketPacket where
  srcAddress := ⟨getBig 4 d.header 12, getBig 2 d.data 0⟩
  dstAddress := ⟨getBig 4 d.header 16, getBig 2 d.data 2⟩
  length := d.length - sizeofUdpPacket
  data := (List.range (d.length - sizeofUdpPacket)).map fun i => d.data (sizeofUdpPacket + i)

/-- One copy is queued, in two new buffers. -/
def Queued (s t : State) (d : Datagram) : Prop :=
  ∃ id item data, s.ports d.port = some id ∧ s.heap.omm item = none ∧ s.heap.amm data = none ∧
    t.heap.omm = Function.update s.heap.omm item (some ⟨d.size, .heap data⟩) ∧
    t.heap.amm = Function.update s.heap.amm data (some (d.size, d.copy)) ∧
    (t.sockets id).rxRing.items = (s.sockets id).rxRing.items ++ [.heap item] ∧
    ∀ k ≠ id, (t.sockets k).rxRing = (s.sockets k).rxRing

/-- Nothing is queued, and the buffers are the same as before. -/
def Dropped (s t : State) : Prop :=
  t.heap.omm = s.heap.omm ∧ t.heap.amm = s.heap.amm ∧
    ∀ k, (t.sockets k).rxRing = (s.sockets k).rxRing

/-- The datagram is queued or dropped, and the sockets have as many references as before. -/
def Settled (s : State) (d : Datagram) : Prop :=
  ∃ t, rxCallback s d = some t ∧ (∀ k, (t.sockets k).rc = (s.sockets k).rc) ∧
    (Queued s t d ∨ Dropped s t)

/-- A socket that takes a packet: it may be read, and its ring has room inside its buffer. -/
structure Takes (socket : Socket) : Prop where
  node : socket.nodeFlags &&& vfsNodeTypeMask = vfsNodeTypeSocket
  read : socket.flags &&& socketFlagRead ≠ 0
  room : socket.rxRing.writeCount ≠ 0
  inside : socket.rxRing.writeIndex < socket.rxRing.buffer.size

/-- A socket on a port is referenced by it. -/
def Referenced (s : State) : Prop := ∀ port id, s.ports port = some id → (s.sockets id).rc ≠ 0

/-- If the datagram is for a UDP socket, then that one takes it. -/
def Fits (s : State) (d : Datagram) : Prop :=
  d.accepted = some true → ∀ id, s.ports d.port = some id → (s.sockets id).descriptor = .udp →
    Takes (s.sockets id)

section

variable {s : State} {d : Datagram} {id : ℕ} {item : Address} {r : Ring}

lemma verifyChecksum_isSome {data : Checksum.Memory} {bytes : ℕ → UInt8} {length checksum : ℕ}
    (hread : ∀ j < 2 * ((length + 1) / 2), data j = some (bytes j)) (hlength : length + 1 < 2 ^ 16)
    (hchecksum : checksum < 2 ^ 16) :
    ∃ v < 2 ^ 16, Checksum.verifyChecksum data length checksum (2 ^ 16) = some v := by
  obtain ⟨k, hk⟩ : ∃ k, (length + 1) / 2 = k := ⟨_, rfl⟩
  have hle := Checksum.wordsFrom_le bytes 0 k
  have hwords := @Checksum.addWords_eq data bytes length 0 k checksum
    (fun j hj => by rw [Nat.zero_add]; exact hread j (hk ▸ hj))
    (by omega) (by omega) (by omega) (by omega)
  have hfuel := Checksum.addWords_mono (2 ^ 16 - (k + 1)) hwords
  rw [Nat.add_sub_cancel' (by omega)] at hfuel
  rw [Checksum.verifyChecksum, hfuel]
  exact ⟨_, Nat.mod_lt _ (by norm_num), rfl⟩

lemma accepted_isSome (d : Datagram) : ∃ b, d.accepted = some b := by
  have hlength := d.length_lt
  rw [sizeofIp4Packet] at hlength
  rw [Datagram.accepted, accepts]
  split_ifs
  · exact ⟨_, rfl⟩
  · exact ⟨_, rfl⟩
  · obtain ⟨checksum, hchecksum, hheader⟩ := @verifyChecksum_isSome
      (Checksum.ofList (pseudoHeader d.srcAddress d.dstAddress d.data))
      (fun j => (pseudoHeader d.srcAddress d.dstAddress d.data).getD j 0) sizeofPseudoHeader 0
      (fun j hj => by
        rw [Checksum.ofList, List.getD_eq_getElem?_getD, List.getElem?_eq_getElem
          (show j < (pseudoHeader d.srcAddress d.dstAddress d.data).length from hj)]
        rfl) (by decide) (by decide)
    obtain ⟨v, -, hdata⟩ := @verifyChecksum_isSome (readable d.data) d.data d.length checksum
      (fun j _ => rfl) (by omega) hchecksum
    exact ⟨v == 0xffff, by rw [hheader, Option.bind_some, hdata, Option.map_some]⟩
  · exact ⟨_, rfl⟩

/-! ### The ring -/

lemma ringPush_room (hroom : r.writeCount ≠ 0) (hinside : r.writeIndex < r.buffer.size) :
    ∃ r', ringPush r item = some (true, r') ∧ r'.items = r.items ++ [item] := by
  have hcount := r.count_lt
  have hindex := r.writeIndex_eq
  rw [ringPush, dif_neg hroom, Block.write_eq hinside]
  refine ⟨_, rfl, ?_⟩
  rw [Ring.items, Ring.items, List.range_succ, List.map_append, List.map_singleton]
  dsimp only
  rw [← hindex, Block.data_set_self]
  refine congrArg (· ++ [item]) (List.map_congr_left fun i hi => Block.data_set_of_ne ?_ _)
  rw [List.mem_range] at hi
  omega

lemma ringPush_full (h : r.writeCount = 0) : ringPush r item = some (false, r) := by
  rw [ringPush, dif_pos h]

lemma ringPush_outside (hroom : r.writeCount ≠ 0) (houtside : ¬r.writeIndex < r.buffer.size) :
    ringPush r item = none := by
  rw [ringPush, dif_neg hroom, Block.write, if_neg houtside]
  rfl

/-! ### The socket -/

@[simp] lemma sockets_setSocket_self (s : State) (id : ℕ) (socket : Socket) :
    (s.setSocket id socket).sockets id = socket := Function.update_self _ _ _

lemma sockets_setSocket_of_ne {k : ℕ} (h : k ≠ id) (s : State) (socket : Socket) :
    (s.setSocket id socket).sockets k = s.sockets k := Function.update_of_ne h _ _

lemma vfsNodeUnref_eq {rc : UInt64} (hrc : (s.sockets id).rc = rc + 1) (hne : rc ≠ 0) :
    vfsNodeUnref s id = some (s.setSocket id { s.sockets id with rc }) := by
  rw [vfsNodeUnref, hrc, UInt64.add_sub_cancel, if_neg hne]

lemma socketAllocPacket_takes {data : Address} {size : ℕ} (h : Takes (s.sockets id)) :
    ∃ rxRing, socketAllocPacket s id data size =
        some (true, ({ s with heap := s.heap.ommAlloc ⟨size, data⟩ } : State).setSocket id
          { s.sockets id with rxRing }) ∧
      rxRing.items = (s.sockets id).rxRing.items ++ [.heap s.heap.next] := by
  obtain ⟨rxRing, hpush, hitems⟩ :=
    @ringPush_room (.heap s.heap.next) (s.sockets id).rxRing h.room h.inside
  refine ⟨rxRing, ?_, hitems⟩
  rw [socketAllocPacket, if_neg (not_not.mpr h.node), if_neg h.read]
  dsimp only
  rw [hpush]
  rfl

/-- A socket that does not take a packet says so, or its ring is written outside of its buffer. -/
lemma socketAllocPacket_not {data : Address} {size : ℕ} (h : ¬Takes (s.sockets id)) :
    (∃ t, socketAllocPacket s id data size = some (false, t)) ∨
      socketAllocPacket s id data size = none := by
  rw [socketAllocPacket]
  dsimp only
  split_ifs with hnode hread
  · exact .inl ⟨_, rfl⟩
  · exact .inl ⟨_, rfl⟩
  · by_cases hroom : (s.sockets id).rxRing.writeCount = 0
    · rw [ringPush_full hroom]
      exact .inl ⟨_, rfl⟩
    · rw [ringPush_outside hroom fun hinside => h ⟨not_not.mp hnode, hread, hroom, hinside⟩]
      exact .inr rfl

/-! ### The callback -/

lemma dropped_refl (s : State) : Dropped s s := ⟨rfl, rfl, fun _ => rfl⟩

lemma rxCallback_udp (haccepted : d.accepted = some true) (hport : s.ports d.port = some id)
    (hudp : (s.sockets id).descriptor = .udp) : rxCallback s d =
      (socketAllocPacket { vfsNodeRef s id with heap := s.heap.ammAlloc d.size d.socketPacket } id
        (.heap s.heap.next) d.size).bind fun (queued, s) =>
          (if queued then some s
          else (s.heap.ammDealloc .stack).map fun heap => { s with heap }).bind
            fun s => vfsNodeUnref s id := by
  have hsame : ((vfsNodeRef s id).sockets id).descriptor = .udp := by
    rw [vfsNodeRef, sockets_setSocket_self]
    exact hudp
  rw [rxCallback, haccepted, Option.bind_eq_bind, Option.bind_some,
    if_neg (not_not.mpr rfl), socketPortGet, hport]
  dsimp only [Option.map_some]
  rw [if_neg (not_not.mpr hsame)]
  rfl

lemma settled_of_not_udp (hreferenced : Referenced s)
    (h : d.accepted = some true → ∀ id, s.ports d.port = some id →
      (s.sockets id).descriptor ≠ .udp) :
    Settled s d := by
  obtain ⟨accepted, haccepted⟩ := accepted_isSome d
  cases accepted with
  | false =>
    refine ⟨s, ?_, fun _ => rfl, .inr (dropped_refl s)⟩
    rw [rxCallback, haccepted]
    rfl
  | true =>
    cases hport : s.ports d.port with
    | none =>
      refine ⟨s, ?_, fun _ => rfl, .inr (dropped_refl s)⟩
      rw [rxCallback, haccepted, Option.bind_eq_bind, Option.bind_some,
        if_neg (not_not.mpr rfl), socketPortGet, hport]
      rfl
    | some id =>
      have hother : ((vfsNodeRef s id).sockets id).descriptor ≠ .udp := by
        rw [vfsNodeRef, sockets_setSocket_self]
        exact h haccepted id hport
      have hunref := @vfsNodeUnref_eq (vfsNodeRef s id) id (s.sockets id).rc
        (by rw [vfsNodeRef, sockets_setSocket_self]) (hreferenced _ _ hport)
      refine ⟨(vfsNodeRef s id).setSocket id
        { (vfsNodeRef s id).sockets id with rc := (s.sockets id).rc }, ?_, fun k => ?_,
        .inr ⟨rfl, rfl, fun k => ?_⟩⟩
      · rw [rxCallback, haccepted, Option.bind_eq_bind, Option.bind_some,
          if_neg (not_not.mpr rfl), socketPortGet, hport]
        dsimp only [Option.map_some]
        rw [if_pos hother]
        exact hunref
      all_goals
        obtain rfl | hne := eq_or_ne k id
        · simp [vfsNodeRef]
        · rw [sockets_setSocket_of_ne hne, vfsNodeRef, sockets_setSocket_of_ne hne]

lemma copy_eq (d : Datagram) : d.socketPacket = d.copy := by
  rw [Datagram.socketPacket, bswap_get, bswap_get, bswap_get, bswap_get]
  rfl

lemma settled_of_takes (hreferenced : Referenced s) (haccepted : d.accepted = some true)
    (hport : s.ports d.port = some id) (hudp : (s.sockets id).descriptor = .udp)
    (htakes : Takes (s.sockets id)) : Settled s d := by
  have hrc := hreferenced _ _ hport
  obtain ⟨t, ht⟩ : ∃ t : State,
    { vfsNodeRef s id with heap := s.heap.ammAlloc d.size d.socketPacket } = t := ⟨_, rfl⟩
  have hself : t.sockets id = { s.sockets id with rc := (s.sockets id).rc + 1 } := by
    rw [← ht]
    exact sockets_setSocket_self s id _
  have hne : ∀ k ≠ id, t.sockets k = s.sockets k := fun k hk => by
    rw [← ht]
    exact sockets_setSocket_of_ne hk s _
  have hheap : t.heap = s.heap.ammAlloc d.size d.socketPacket := by rw [← ht]
  obtain ⟨rxRing, halloc, hitems⟩ := @socketAllocPacket_takes t id (.heap s.heap.next) d.size
    (by rw [hself]; exact ⟨htakes.node, htakes.read, htakes.room, htakes.inside⟩)
  obtain ⟨u, hu⟩ : ∃ u : State, ({ t with heap := t.heap.ommAlloc ⟨d.size, .heap s.heap.next⟩ } :
    State).setSocket id { t.sockets id with rxRing } = u := ⟨_, rfl⟩
  have huself : u.sockets id = { t.sockets id with rxRing } := by
    rw [← hu]
    exact sockets_setSocket_self _ id _
  have hune : ∀ k ≠ id, u.sockets k = s.sockets k := fun k hk => by
    rw [← hu, ← hne k hk]
    exact sockets_setSocket_of_ne hk _ _
  rw [hu] at halloc
  have hunref := @vfsNodeUnref_eq u id (s.sockets id).rc (by rw [huself, hself]) hrc
  refine ⟨u.setSocket id { u.sockets id with rc := (s.sockets id).rc }, ?_, fun k => ?_,
    .inl ⟨id, t.heap.next, s.heap.next, hport, ?_, ?_, ?_, ?_, ?_, ?_⟩⟩
  · rw [rxCallback_udp haccepted hport hudp, ht, halloc]
    exact hunref
  · obtain rfl | hk := eq_or_ne k id
    · rw [sockets_setSocket_self]
    · rw [sockets_setSocket_of_ne hk, hune k hk]
  · rw [hheap]
    exact (s.heap.free _ (Nat.le_succ _)).2
  · exact (s.heap.free _ le_rfl).1
  · change u.heap.omm = _
    rw [← hu]
    change Function.update t.heap.omm _ _ = _
    rw [hheap]
    rfl
  · change u.heap.amm = _
    rw [← hu]
    change t.heap.amm = _
    rw [hheap, ← copy_eq]
    rfl
  · rw [sockets_setSocket_self, huself, hitems, hself]
  · intro k hk
    rw [sockets_setSocket_of_ne hk, hune k hk]

/-- A socket that does not take it makes the callback free the received packet. -/
lemma rxCallback_not_takes (haccepted : d.accepted = some true)
    (hport : s.ports d.port = some id) (hudp : (s.sockets id).descriptor = .udp)
    (htakes : ¬Takes (s.sockets id)) : rxCallback s d = none := by
  have hsame : ¬Takes (({ vfsNodeRef s id with
      heap := s.heap.ammAlloc d.size d.socketPacket } : State).sockets id) := fun h => by
    refine htakes ?_
    have hself : (vfsNodeRef s id).sockets id =
        { s.sockets id with rc := (s.sockets id).rc + 1 } := sockets_setSocket_self s id _
    obtain ⟨hnode, hread, hroom, hinside⟩ := h
    rw [hself] at hnode hread hroom hinside
    exact ⟨hnode, hread, hroom, hinside⟩
  rw [rxCallback_udp haccepted hport hudp]
  rcases @socketAllocPacket_not _ id (.heap s.heap.next) d.size hsame with ⟨t, ht⟩ | hnone
  · rw [ht]
    rfl
  · rw [hnone]
    rfl

end

/-- **Received datagrams.** A datagram is settled exactly when it is not for a UDP socket that is
shut down for reading or whose ring has no room. -/
theorem rxSettled_iff {s : State} (hreferenced : Referenced s) (d : Datagram) :
    Settled s d ↔ Fits s d := by
  constructor
  · rintro ⟨t, ht, -⟩ haccepted id hport hudp
    by_contra htakes
    rw [rxCallback_not_takes haccepted hport hudp htakes] at ht
    cases ht
  · intro h
    by_cases hudp : d.accepted = some true ∧
        ∃ id, s.ports d.port = some id ∧ (s.sockets id).descriptor = .udp
    · obtain ⟨haccepted, id, hport, hudp⟩ := hudp
      exact settled_of_takes hreferenced haccepted hport hudp (h haccepted id hport hudp)
    · exact settled_of_not_udp hreferenced fun haccepted id hport h =>
        hudp ⟨haccepted, id, hport, h⟩

/-- An empty ring of 256 items in a page. -/
def emptyRing : Ring := ⟨⟨512, fun _ => .stack⟩, 0, 0, 0, 256, by decide, rfl⟩

/-- A UDP socket on every port. -/
def listening (flags : ℕ) : State where
  ports _ := some 0
  sockets _ := ⟨1, vfsNodeTypeSocket, flags, .udp, emptyRing⟩
  heap := ⟨0, fun _ => none, fun _ => none, fun _ _ => ⟨rfl, rfl⟩⟩

/-- A datagram without data and without a checksum, to port 53. -/
def query : Datagram :=
  ⟨fun _ => 0, fun i => [0, 40, 0, 53, 0, 8, 0, 0].getD i 0, 8, by decide⟩

lemma listening_referenced (flags : ℕ) : Referenced (listening flags) := by
  intro port id _
  exact (show (1 : UInt64) ≠ 0 by decide)

lemma query_accepted : query.accepted = some true := by decide +kernel

/-- The socket is shut down for reading. -/
theorem settled_fails : ¬Settled (listening 2) query := by
  rintro ⟨t, ht, -⟩
  rw [@rxCallback_not_takes _ _ 0 query_accepted rfl rfl fun h => h.read (by decide)] at ht
  cases ht

theorem rxSettled_iff_listening : Settled (listening 1) query ↔ Fits (listening 1) query :=
  rxSettled_iff (listening_referenced 1) query

end KernelModel.UdpReceive
