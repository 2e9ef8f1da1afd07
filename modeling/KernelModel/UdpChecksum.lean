import KernelModel.Checksum
import KernelModel.LittleEndian

/-!
A UDP datagram over IPv4: the checksum that is sent, and the test of the one that is received.

The memory of a packet begins with the UDP header; behind the datagram there are other bytes, at the
sender and at the receiver.
-/

namespace KernelModel.UdpChecksum

open Checksum OnesComplement LittleEndian

/-! ### The two paths -/

/-- `sizeof(net_udp_packet_t)` -/
def sizeofUdpPacket : ℕ := 8

/-- `sizeof(net_ip4_packet_data_t)` -/
def sizeofIp4Packet : ℕ := 20

/-- `sizeof(net_udp_ip4_pseudo_header_t)` -/
def sizeofPseudoHeader : ℕ := 12

def protocolType : UInt8 := 17

/-- A socket packet; the addresses are given by the bytes that stand in the IPv4 header. -/
structure SocketPacket where
  srcAddress : Fin 4 → UInt8
  dstAddress : Fin 4 → UInt8
  srcPort : ℕ
  dstPort : ℕ
  data : List UInt8

/-- `net_udp_ip4_pseudo_header_t`, with the length that stands in the UDP header. -/
def pseudoHeader (srcAddress dstAddress : Fin 4 → UInt8) (m : ℕ → UInt8) : List UInt8 :=
  [srcAddress 0, srcAddress 1, srcAddress 2, srcAddress 3,
    dstAddress 0, dstAddress 1, dstAddress 2, dstAddress 3, 0, protocolType, m 4, m 5]

/-- Memory that may be read everywhere. -/
def readable (m : ℕ → UInt8) : Memory := fun i => some (m i)

namespace SocketPacket

variable (p : SocketPacket)

/-- The length of the datagram, as a 16-bit parameter. -/
def udpLength : ℕ := (p.data.length + sizeofUdpPacket) % 2 ^ 16

/-- The length of the IPv4 packet, as a 16-bit parameter. -/
def ip4Length : ℕ := (p.udpLength + sizeofIp4Packet) % 2 ^ 16

/-- The header and the data are written. -/
def fill (m : ℕ → UInt8) : ℕ → UInt8 :=
  let m := put 2 m 0 (bswap 2 p.srcPort)
  let m := put 2 m 2 (bswap 2 p.dstPort)
  let m := put 2 m 4 (bswap 2 (p.data.length + sizeofUdpPacket))
  fun i =>
    if sizeofUdpPacket ≤ i ∧ i < sizeofUdpPacket + p.data.length then
      p.data.getD (i - sizeofUdpPacket) 0
    else m i

/-- `_socket_write_packet_callback`, from the filling of the packet on. -/
def send (m : ℕ → UInt8) (fuel : ℕ) : Option (ℕ → UInt8) :=
  let m := put 2 (p.fill m) 6 0
  (calculateChecksum (readable m) p.udpLength fuel).bind fun checksum =>
    let m := put 2 m 6 checksum
    (updateChecksum (ofList (pseudoHeader p.srcAddress p.dstAddress m)) sizeofPseudoHeader
      (get 2 m 6) fuel).map fun checksum =>
        put 2 m 6 (if checksum = 0 then 0xffff else checksum)

end SocketPacket

/-- The checks of the UDP `_rx_callback`; `length` is the length of the received datagram. -/
def accepts (srcAddress dstAddress : Fin 4 → UInt8) (m : ℕ → UInt8) (length fuel : ℕ) :
    Option Bool :=
  if length < sizeofUdpPacket then some false
  else if bswap 2 (get 2 m 4) ≠ length then some false
  else if get 2 m 6 ≠ 0 then
    (verifyChecksum (ofList (pseudoHeader srcAddress dstAddress m)) sizeofPseudoHeader 0 fuel).bind
      fun checksum => (verifyChecksum (readable m) length checksum fuel).map (· == 0xffff)
  else some true

/-- An IPv4 packet is handed on without its header. -/
def receive (srcAddress dstAddress : Fin 4 → UInt8) (m : ℕ → UInt8) (ip4Length fuel : ℕ) :
    Option Bool :=
  if ip4Length < sizeofIp4Packet then some false
  else accepts srcAddress dstAddress m (ip4Length - sizeofIp4Packet) fuel

/-- What is sent passes the checks of the receiver, whatever lies behind it on either side. -/
def Delivered (p : SocketPacket) : Prop :=
  ∀ m, ∃ fuel t, p.send m fuel = some t ∧
    ∀ r : ℕ → UInt8, (∀ i < p.udpLength, r i = t i) →
      ∃ fuel, receive p.srcAddress p.dstAddress r p.ip4Length fuel = some true

/-! ### Words -/

variable {m r t : ℕ → UInt8} {i k a b length fuel : ℕ}

lemma wordsFrom_add : wordsFrom m i (a + b) = wordsFrom m i a + wordsFrom m (i + 2 * a) b := by
  induction a generalizing i with
  | zero => rw [Nat.zero_add, wordsFrom, Nat.zero_add, Nat.mul_zero, Nat.add_zero]
  | succ a ih =>
    rw [Nat.succ_add, wordsFrom, wordsFrom, ih, show i + 2 + 2 * a = i + 2 * (a + 1) by omega]
    omega

lemma wordsFrom_congr (h : ∀ j, i ≤ j → j < i + 2 * k → m j = r j) :
    wordsFrom m i k = wordsFrom r i k := by
  induction k generalizing i with
  | zero => rfl
  | succ k ih =>
    rw [wordsFrom, wordsFrom, h i le_rfl (by omega), h (i + 1) (by omega) (by omega),
      ih fun j h1 h2 => h j (by omega) (by omega)]

lemma wordsFrom_put {c : ℕ} (hk : 4 ≤ k) (hc : c < 2 ^ 16) :
    wordsFrom (put 2 m 6 c) 0 k = wordsFrom (put 2 m 6 0) 0 k + c := by
  obtain ⟨k, rfl⟩ := Nat.exists_eq_add_of_le hk
  have hword : ∀ c < 2 ^ 16, wordsFrom (put 2 m 6 c) 6 1 = c := by
    intro c hc
    have hget := get_put_self 2 m 6 c
    rw [LittleEndian.get, LittleEndian.get, LittleEndian.get, Nat.mod_eq_of_lt (by omega)] at hget
    rw [wordsFrom, wordsFrom]
    omega
  have hsplit : ∀ c, wordsFrom (put 2 m 6 c) 0 (4 + k) =
      wordsFrom m 0 3 + wordsFrom (put 2 m 6 c) 6 1 + wordsFrom m 8 k := by
    intro c
    rw [wordsFrom_add, show 4 = 3 + 1 from rfl, wordsFrom_add]
    have hfront : wordsFrom (put 2 m 6 c) 0 3 = wordsFrom m 0 3 :=
      wordsFrom_congr fun j _ hj => put_of_lt (by omega)
    have hback : wordsFrom (put 2 m 6 c) (0 + 2 * (3 + 1)) k = wordsFrom m 8 k :=
      wordsFrom_congr fun j hj _ => put_of_ge (by omega)
    rw [hfront, hback]
  rw [hsplit, hsplit, hword c hc, hword 0 (by decide)]
  omega

lemma addWords_readable {checksum : ℕ} (hk : (length + 1) / 2 = k) (hlength : length + 1 < 2 ^ 16)
    (hchecksum : checksum < 2 ^ 16) :
    addWords (readable m) length (k + 1) 0 checksum = some (checksum + wordsFrom m 0 k) := by
  have hle := wordsFrom_le m 0 k
  exact addWords_eq (fun j _ => rfl) (by omega) (by omega) (by omega) (by omega)

/-! ### The sender -/

variable {p : SocketPacket}

/-- The datagram with a checksum. -/
def SocketPacket.datagram (p : SocketPacket) (m : ℕ → UInt8) (c : ℕ) : ℕ → UInt8 :=
  put 2 (p.fill m) 6 c

/-- The total of the words of the pseudo header. -/
def SocketPacket.pseudoTotal (p : SocketPacket) (m : ℕ → UInt8) : ℕ :=
  totalLittle (pseudoHeader p.srcAddress p.dstAddress (p.datagram m 0))

/-- The words of the datagram without a checksum, with the padding byte of an odd length. -/
def SocketPacket.dataTotal (p : SocketPacket) (m : ℕ → UInt8) : ℕ :=
  wordsFrom (p.datagram m 0) 0 ((p.udpLength + 1) / 2)

/-- The checksum that is sent. -/
def SocketPacket.checksum (p : SocketPacket) (m : ℕ → UInt8) : ℕ :=
  let c := 65535 - reduce (p.dataTotal m + p.pseudoTotal m)
  if c = 0 then 65535 else c

lemma pseudoHeader_congr {srcAddress dstAddress : Fin 4 → UInt8} (h4 : m 4 = r 4) (h5 : m 5 = r 5) :
    pseudoHeader srcAddress dstAddress m = pseudoHeader srcAddress dstAddress r := by
  rw [pseudoHeader, pseudoHeader, h4, h5]

lemma pseudoHeader_datagram {srcAddress dstAddress : Fin 4 → UInt8} (c : ℕ) :
    pseudoHeader srcAddress dstAddress (p.datagram m c) =
      pseudoHeader srcAddress dstAddress (p.datagram m 0) := by
  refine pseudoHeader_congr ?_ ?_
  · exact (put_of_lt (by decide)).trans (put_of_lt (by decide)).symm
  · exact (put_of_lt (by decide)).trans (put_of_lt (by decide)).symm

lemma addWords_pseudo {srcAddress dstAddress : Fin 4 → UInt8} {checksum : ℕ}
    (hchecksum : checksum < 2 ^ 16) :
    addWords (ofList (pseudoHeader srcAddress dstAddress m)) sizeofPseudoHeader 7 0 checksum =
      some (checksum + totalLittle (pseudoHeader srcAddress dstAddress m)) := by
  have hlength : (pseudoHeader srcAddress dstAddress m).length = sizeofPseudoHeader := rfl
  have hwords := @addWords_list (pseudoHeader srcAddress dstAddress m) checksum
    (by rw [hlength]; rfl) (by rw [hlength]; decide) hchecksum
  rw [hlength] at hwords
  exact hwords

lemma pseudoTotal_le (p : SocketPacket) (m : ℕ → UInt8) : p.pseudoTotal m ≤ 12 * 65535 :=
  totalLittle_le _

lemma dataTotal_le (p : SocketPacket) (m : ℕ → UInt8) : p.dataTotal m ≤ 2 ^ 15 * 65535 := by
  have hle := wordsFrom_le (p.datagram m 0) 0 ((p.udpLength + 1) / 2)
  have hlength : p.udpLength < 2 ^ 16 := Nat.mod_lt _ (by decide)
  have hk : (p.udpLength + 1) / 2 ≤ 2 ^ 15 := by omega
  exact hle.trans (Nat.mul_le_mul_right _ hk)

lemma checksum_lt (p : SocketPacket) (m : ℕ → UInt8) : p.checksum m < 2 ^ 16 := by
  have hdef : p.checksum m = if 65535 - reduce (p.dataTotal m + p.pseudoTotal m) = 0 then 65535
      else 65535 - reduce (p.dataTotal m + p.pseudoTotal m) := rfl
  rw [hdef]
  split_ifs <;> omega

lemma checksum_spec (p : SocketPacket) (m : ℕ → UInt8) :
    p.checksum m ≠ 0 ∧ (p.dataTotal m + p.pseudoTotal m + p.checksum m) % 65535 = 0 := by
  have hle := reduce_le (p.dataTotal m + p.pseudoTotal m)
  have hmod := reduce_mod (p.dataTotal m + p.pseudoTotal m)
  have hdef : p.checksum m = if 65535 - reduce (p.dataTotal m + p.pseudoTotal m) = 0 then 65535
      else 65535 - reduce (p.dataTotal m + p.pseudoTotal m) := rfl
  rw [hdef]
  split_ifs with hzero
  · omega
  · omega

/-- **The sender** puts the checksum into the header, when the counter does not wrap. -/
lemma send_eq (hlength : p.udpLength + 1 < 2 ^ 16) :
    p.send m ((p.udpLength + 1) / 2 + 1 + 6) = some (p.datagram m (p.checksum m)) := by
  have hdata := dataTotal_le p m
  have hpseudo := pseudoTotal_le p m
  have hwords : addWords (readable (put 2 (p.fill m) 6 0)) p.udpLength
      ((p.udpLength + 1) / 2 + 1 + 6) 0 0 = some (0 + p.dataTotal m) :=
    addWords_mono 6 (addWords_readable rfl hlength (by decide))
  have hfirst : 2 ^ 16 - 1 - fold (0 + p.dataTotal m) = 65535 - reduce (p.dataTotal m) := by
    rw [Nat.zero_add, fold_eq (by omega)]
    rfl
  have hle := reduce_le (p.dataTotal m)
  rw [SocketPacket.send]
  simp only [calculateChecksum, addChecksum, hwords, Option.map_some, Option.bind_some, hfirst]
  have hout : get 2 (put 2 (put 2 (p.fill m) 6 0) 6 (65535 - reduce (p.dataTotal m))) 6 =
      65535 - reduce (p.dataTotal m) := by
    rw [get_put_self]
    omega
  have hpartial : 2 ^ 16 - 1 - (65535 - reduce (p.dataTotal m)) = reduce (p.dataTotal m) := by
    omega
  have hheader : pseudoHeader p.srcAddress p.dstAddress
      (put 2 (put 2 (p.fill m) 6 0) 6 (65535 - reduce (p.dataTotal m))) =
        pseudoHeader p.srcAddress p.dstAddress (p.datagram m 0) := by
    rw [put_put]
    exact pseudoHeader_datagram _
  have hsecond : addWords (ofList (pseudoHeader p.srcAddress p.dstAddress (p.datagram m 0)))
      sizeofPseudoHeader ((p.udpLength + 1) / 2 + 1 + 6) 0 (reduce (p.dataTotal m)) =
        some (reduce (p.dataTotal m) + p.pseudoTotal m) := by
    rw [show (p.udpLength + 1) / 2 + 1 + 6 = 7 + (p.udpLength + 1) / 2 by omega]
    exact addWords_mono _ (addWords_pseudo (by omega))
  rw [updateChecksum, addChecksum, hout, hpartial, hheader, hsecond, Option.map_some,
    Option.map_some, fold_eq (by omega), reduce_reduce_add, put_put, put_put]
  rfl

/-! ### The receiver -/

lemma pseudoTotal_pos (p : SocketPacket) (m : ℕ → UInt8) : 0 < p.pseudoTotal m := by
  have hprotocol : protocolType.toNat = 17 := rfl
  simp only [SocketPacket.pseudoTotal, pseudoHeader, totalLittle]
  omega

/-- **The test** of a datagram whose length and checksum fields are there. -/
lemma accepts_iff (hlength : p.udpLength + 1 < 2 ^ 16) (hlarge : sizeofUdpPacket ≤ p.udpLength)
    (hheader : pseudoHeader p.srcAddress p.dstAddress r =
      pseudoHeader p.srcAddress p.dstAddress (p.datagram m 0))
    (hfield : bswap 2 (get 2 r 4) = p.udpLength) (hchecksum : get 2 r 6 ≠ 0) :
    (∃ fuel, accepts p.srcAddress p.dstAddress r p.udpLength fuel = some true) ↔
      (p.pseudoTotal m + wordsFrom r 0 ((p.udpLength + 1) / 2)) % 65535 = 0 := by
  have hle := reduce_le (p.pseudoTotal m)
  have hpseudo := pseudoTotal_le p m
  have hwords := wordsFrom_le r 0 ((p.udpLength + 1) / 2)
  have hk : (p.udpLength + 1) / 2 ≤ 2 ^ 15 := by omega
  have hwords' : wordsFrom r 0 ((p.udpLength + 1) / 2) ≤ 2 ^ 15 * 65535 :=
    hwords.trans (Nat.mul_le_mul_right _ hk)
  have hfirst :
      addWords (ofList (pseudoHeader p.srcAddress p.dstAddress r)) sizeofPseudoHeader 7 0 0
      = some (0 + p.pseudoTotal m) := by
    rw [hheader]
    exact addWords_pseudo (by decide)
  have hsecond : addWords (readable r) p.udpLength ((p.udpLength + 1) / 2 + 1) 0
      (reduce (p.pseudoTotal m)) =
        some (reduce (p.pseudoTotal m) + wordsFrom r 0 ((p.udpLength + 1) / 2)) :=
    addWords_readable rfl hlength (by omega)
  have hfold : fold (0 + p.pseudoTotal m) = reduce (p.pseudoTotal m) := by
    rw [Nat.zero_add, fold_eq (by omega)]
  have hones : fold (reduce (p.pseudoTotal m) + wordsFrom r 0 ((p.udpLength + 1) / 2)) = 65535 ↔
      (p.pseudoTotal m + wordsFrom r 0 ((p.udpLength + 1) / 2)) % 65535 = 0 := by
    have hpos := pseudoTotal_pos p m
    rw [fold_eq (by omega), reduce_reduce_add, reduce_eq_ones_iff]
    exact and_iff_right (by omega)
  simp only [accepts, if_neg (Nat.not_lt.mpr hlarge), hfield, ne_eq, not_true_eq_false, if_false,
    hchecksum, not_false_eq_true, if_true, verifyChecksum]
  rw [← hones]
  constructor
  · rintro ⟨fuel, h⟩
    rw [Option.bind_eq_some_iff] at h
    obtain ⟨partialSum, hpartial, h⟩ := h
    rw [Option.map_eq_some_iff] at hpartial h
    obtain ⟨total, htotal, rfl⟩ := hpartial
    rw [addWords_unique htotal hfirst, hfold] at h
    obtain ⟨v, hv, heq⟩ := h
    rw [Option.map_eq_some_iff] at hv
    obtain ⟨total', htotal', rfl⟩ := hv
    rw [addWords_unique htotal' hsecond] at heq
    exact beq_iff_eq.mp heq
  · intro heq
    refine ⟨(p.udpLength + 1) / 2 + 1 + 7, ?_⟩
    rw [show (p.udpLength + 1) / 2 + 1 + 7 = 7 + ((p.udpLength + 1) / 2 + 1) by omega,
      addWords_mono _ hfirst, Option.map_some, Option.bind_some, hfold, Nat.add_comm 7,
      addWords_mono _ hsecond, Option.map_some, Option.map_some, heq]
    rfl

lemma bswap_two (v : ℕ) : bswap 2 v = v % 256 * 256 + v / 256 % 256 := by
  simp only [bswap, LittleEndian.get, byte, UInt8.toNat_ofNat']
  norm_num
  omega

lemma bswap_bswap_two (v : ℕ) : bswap 2 (bswap 2 v % 256 ^ 2) = v % 2 ^ 16 := by
  have hlow : v % 256 < 256 := Nat.mod_lt _ (by decide)
  have hhigh : v / 256 % 256 < 256 := Nat.mod_lt _ (by decide)
  have hsplit : v % 2 ^ 16 = v / 256 % 256 * 256 + v % 256 := by omega
  rw [bswap_two v, hsplit]
  generalize v % 256 = low at *
  generalize v / 256 % 256 = high at *
  have hdiv : (low * 256 + high) / 256 = low := by omega
  have hmod : (low * 256 + high) % 256 = high := by omega
  rw [Nat.mod_eq_of_lt (by omega), bswap_two, hdiv, hmod, Nat.mod_eq_of_lt hlow]

lemma datagram_fields {c : ℕ} (hc : c < 2 ^ 16) (hlarge : sizeofUdpPacket ≤ p.udpLength)
    (hsame : ∀ i < p.udpLength, r i = p.datagram m c i) :
    bswap 2 (get 2 r 4) = p.udpLength ∧ get 2 r 6 = c ∧
      pseudoHeader p.srcAddress p.dstAddress r =
        pseudoHeader p.srcAddress p.dstAddress (p.datagram m 0) := by
  have h8 : 8 ≤ p.udpLength := hlarge
  have hlen : get 2 r 4 = bswap 2 (p.data.length + sizeofUdpPacket) % 256 ^ 2 := by
    rw [← get_put_self 2 m 4]
    refine get_congr fun i h1 h2 => ?_
    rw [hsame i (by omega), SocketPacket.datagram, put_of_lt (by omega), SocketPacket.fill]
    beta_reduce
    rw [if_neg (by rw [sizeofUdpPacket]; omega)]
    exact (if_pos ⟨h1, h2⟩).trans (if_pos ⟨h1, h2⟩).symm
  refine ⟨?_, ?_, ?_⟩
  · rw [hlen, bswap_bswap_two, SocketPacket.udpLength]
  · have hget := get_put_self 2 (p.fill m) 6 c
    rw [Nat.mod_eq_of_lt (by omega)] at hget
    rw [← hget]
    exact get_congr fun i h1 h2 => hsame i (by omega)
  · rw [← pseudoHeader_datagram c]
    exact pseudoHeader_congr (hsame 4 (by omega)) (hsame 5 (by omega))

/-! ### Both together -/

lemma delivered_of_even (heven : p.data.length % 2 = 0) (hfits : p.data.length + 28 < 2 ^ 16) :
    Delivered p := by
  have hudp : p.udpLength = p.data.length + 8 := by
    rw [SocketPacket.udpLength, sizeofUdpPacket]
    omega
  have hip : p.ip4Length = p.data.length + 28 := by
    rw [SocketPacket.ip4Length, hudp, sizeofIp4Packet]
    omega
  intro m
  refine ⟨_, _, send_eq (by omega), fun r hsame => ?_⟩
  have hlarge : sizeofUdpPacket ≤ p.udpLength := by
    rw [hudp, sizeofUdpPacket]
    omega
  obtain ⟨hfield, hchecksum, hheader⟩ := datagram_fields (checksum_lt p m) hlarge hsame
  obtain ⟨hne, hmod⟩ := checksum_spec p m
  have hreceive : ∀ fuel, receive p.srcAddress p.dstAddress r p.ip4Length fuel =
      accepts p.srcAddress p.dstAddress r p.udpLength fuel := by
    intro fuel
    have hrest : p.ip4Length - sizeofIp4Packet = p.udpLength := by
      rw [hip, hudp, sizeofIp4Packet]
      omega
    rw [receive, hrest, if_neg]
    rw [hip, sizeofIp4Packet]
    omega
  simp only [hreceive]
  refine (accepts_iff (by omega) hlarge hheader hfield (by rw [hchecksum]; exact hne)).mpr ?_
  have hwords : wordsFrom r 0 ((p.udpLength + 1) / 2) = p.dataTotal m + p.checksum m := by
    rw [SocketPacket.dataTotal, SocketPacket.datagram, ← wordsFrom_put (by omega) (checksum_lt p m)]
    exact wordsFrom_congr fun j _ hj => hsame j (by omega)
  rw [hwords, ← hmod, ← Nat.add_assoc, Nat.add_comm (p.pseudoTotal m)]

/-- A payload that does not fit an IPv4 packet: the truncated packet is dropped. -/
lemma not_delivered_of_long (hlong : 2 ^ 16 ≤ p.data.length + 28) (hdata : p.data.length < 2 ^ 16) :
    ¬Delivered p := by
  intro h
  obtain ⟨_, t, _, hdelivered⟩ := h fun _ => 0
  obtain ⟨fuel, haccept⟩ := hdelivered t fun _ _ => rfl
  have hshort : p.ip4Length < sizeofIp4Packet ∨
      p.ip4Length - sizeofIp4Packet < sizeofUdpPacket := by
    rw [SocketPacket.ip4Length, SocketPacket.udpLength, sizeofUdpPacket, sizeofIp4Packet]
    omega
  rw [receive] at haccept
  split_ifs at haccept with hip
  · cases haccept
  · rw [accepts, if_pos (hshort.resolve_left hip)] at haccept
    cases haccept

lemma send_mono (more : ℕ) (h : p.send m fuel = some t) : p.send m (fuel + more) = some t := by
  rw [SocketPacket.send] at h ⊢
  rw [Option.bind_eq_some_iff] at h ⊢
  obtain ⟨first, hfirst, h⟩ := h
  refine ⟨first, addChecksum_mono more hfirst, ?_⟩
  rw [Option.map_eq_some_iff] at h ⊢
  obtain ⟨second, hsecond, h⟩ := h
  exact ⟨second, addChecksum_mono more hsecond, h⟩

lemma send_unique (hlength : p.udpLength + 1 < 2 ^ 16) (h : p.send m fuel = some t) :
    t = p.datagram m (p.checksum m) := by
  have hleft := send_mono ((p.udpLength + 1) / 2 + 1 + 6) h
  have hright := send_mono fuel (send_eq (m := m) hlength)
  rw [Nat.add_comm] at hright
  exact Option.some.inj (hleft.symm.trans hright)

lemma datagram_of_ge {c j : ℕ} (h : 8 + p.data.length ≤ j) : p.datagram m c j = m j := by
  rw [SocketPacket.datagram, put_of_ge (by omega), SocketPacket.fill]
  beta_reduce
  rw [if_neg (by rw [sizeofUdpPacket]; omega), put_of_ge (by omega), put_of_ge (by omega),
    put_of_ge (by omega)]

lemma wordsFrom_update {j : ℕ} (b : UInt8) :
    wordsFrom (Function.update m (2 * j + 1) b) 0 (j + 1) + (m (2 * j + 1)).toNat * 256 =
      wordsFrom m 0 (j + 1) + b.toNat * 256 := by
  have hfront : wordsFrom (Function.update m (2 * j + 1) b) 0 j = wordsFrom m 0 j :=
    wordsFrom_congr fun i _ hi => Function.update_of_ne (by omega) _ _
  have hlow : Function.update m (2 * j + 1) b (2 * j) = m (2 * j) :=
    Function.update_of_ne (by omega) _ _
  rw [wordsFrom_add, wordsFrom_add, hfront]
  simp only [wordsFrom, Nat.zero_add, hlow, Function.update_self]
  omega

/-- An odd payload: the byte behind the datagram is counted on both sides, and it can differ. -/
lemma not_delivered_of_odd (hodd : p.data.length % 2 = 1) (hfits : p.data.length + 28 < 2 ^ 16) :
    ¬Delivered p := by
  have hudp : p.udpLength = p.data.length + 8 := by
    rw [SocketPacket.udpLength, sizeofUdpPacket]
    omega
  have hip : p.ip4Length = p.data.length + 28 := by
    rw [SocketPacket.ip4Length, hudp, sizeofIp4Packet]
    omega
  have hlarge : sizeofUdpPacket ≤ p.udpLength := by
    rw [hudp, sizeofUdpPacket]
    omega
  intro h
  obtain ⟨_, t, hsend, hdelivered⟩ := h fun _ => 0
  have ht := send_unique (by omega) hsend
  -- the receiver has a one where the sender had a zero
  obtain ⟨r, hr⟩ : ∃ r, r = Function.update t p.udpLength 1 := ⟨_, rfl⟩
  have hsame : ∀ i < p.udpLength, r i = t i := by
    intro i hi
    rw [hr]
    exact Function.update_of_ne (by omega) _ _
  obtain ⟨fuel, haccept⟩ := hdelivered r hsame
  have hrest : p.ip4Length - sizeofIp4Packet = p.udpLength := by
    rw [hip, hudp, sizeofIp4Packet]
    omega
  rw [receive, if_neg (by rw [hip, sizeofIp4Packet]; omega), hrest] at haccept
  obtain ⟨hne, hmod⟩ := checksum_spec p fun _ => 0
  have hlt := checksum_lt p fun _ => 0
  rw [ht] at hsame
  obtain ⟨hfield, hchecksum, hheader⟩ := datagram_fields hlt hlarge hsame
  have hzero := (accepts_iff (by omega) hlarge hheader hfield (by rw [hchecksum]; exact hne)).mp
    ⟨fuel, haccept⟩
  obtain ⟨j, hj⟩ : ∃ j, p.udpLength = 2 * j + 1 := ⟨p.udpLength / 2, by omega⟩
  have hhalf : (p.udpLength + 1) / 2 = j + 1 := by omega
  have hwords : wordsFrom t 0 (j + 1) = p.dataTotal (fun _ => 0) + p.checksum fun _ => 0 := by
    rw [ht, SocketPacket.dataTotal, hhalf]
    exact wordsFrom_put (by omega) hlt
  have hbehind : t p.udpLength = 0 := by
    rw [ht]
    exact datagram_of_ge (by omega)
  have hupdate := @wordsFrom_update t j 1
  have hone : (1 : UInt8).toNat = 1 := rfl
  have hnull : (0 : UInt8).toNat = 0 := rfl
  rw [← hj, ← hr, hbehind, hwords, hone, hnull] at hupdate
  rw [hhalf] at hzero
  clear hne hlt hsame hfield hchecksum hheader haccept hwords hr ht
  omega

/-- **A datagram** is delivered exactly when its payload has an even length and fits an IPv4
packet. -/
lemma delivered_iff (hdata : p.data.length < 2 ^ 16) :
    Delivered p ↔ p.data.length % 2 = 0 ∧ p.data.length + 28 < 2 ^ 16 := by
  constructor
  · intro h
    by_cases hfits : p.data.length + 28 < 2 ^ 16
    · refine ⟨?_, hfits⟩
      by_contra hodd
      exact not_delivered_of_odd (by omega) hfits h
    · exact absurd h (not_delivered_of_long (by omega) hdata)
  · rintro ⟨heven, hfits⟩
    exact delivered_of_even heven hfits

/-- **The checksums** of the network stack: the three functions are right exactly for the even
lengths, and the receiver accepts exactly the datagrams with an even payload that fits. -/
theorem checksums_iff (data : List UInt8) (hlength : data.length < 2 ^ 16) (p : SocketPacket)
    (hdata : p.data.length < 2 ^ 16) :
    (Correct data ↔ data.length % 2 = 0) ∧
      (Delivered p ↔ p.data.length % 2 = 0 ∧ p.data.length + 28 < 2 ^ 16) :=
  ⟨correct_iff hlength, delivered_iff hdata⟩

/-- One byte. -/
theorem checksums_single :
    ¬((∀ data : List UInt8, data.length < 2 ^ 16 → Correct data) ∧
      ∀ p : SocketPacket, p.data.length < 2 ^ 16 → Delivered p) := by
  rintro ⟨h, _⟩
  exact @not_correct_of_odd [0] rfl (by decide) (h [0] (by decide))

theorem checksums_even : Correct [1, 2] ∧ Delivered ⟨fun _ => 1, fun _ => 2, 68, 67, [1, 2]⟩ := by
  have h := checksums_iff [1, 2] (by decide) ⟨fun _ => 1, fun _ => 2, 68, 67, [1, 2]⟩ (by decide)
  exact ⟨h.1.mpr rfl, h.2.mpr ⟨rfl, by decide⟩⟩

end KernelModel.UdpChecksum
