import KernelModel.LittleEndian
import Mathlib.Tactic

/-!
The DNS resolver: names in packets, and the replies of a server.

A pointer to bytes is a function from offsets; the offsets in a packet count from `data`, the
bytes after the header. Decoding a name says where it ends and what is in the buffer then. It
stops with a fault at the first access outside of the packet or the buffer, and has no result
while it is still running.
-/

namespace KernelModel.Dns

open LittleEndian

abbrev Buffer := ℕ → UInt8

/-- `sizeof(net_dns_packet_t)` -/
def sizeofPacket : ℕ := 12

/-- `sizeof(net_dns_packet_question_t)` -/
def sizeofQuestion : ℕ := 4

/-- `sizeof(net_dns_packet_resource_record_t)` -/
def sizeofResourceRecord : ℕ := 10

/-- The character between two labels. -/
def dot : UInt8 := 46

/-! ### Names -/

/-- The body of `_skip_name` from byte `i` on. -/
def skipFrom (data : Buffer) (maxSize i : ℕ) : ℕ :=
  if i < maxSize then
    let j := (data i).toNat
    if j = 0 then i + 1 else skipFrom data maxSize (i + 1 + if j >>> 6 = 3 then 1 else j)
  else 0
termination_by maxSize - i

section

variable {data : Buffer} {maxSize i : ℕ}

lemma skipFrom_past (h : ¬i < maxSize) : skipFrom data maxSize i = 0 := by
  rw [skipFrom, if_neg h]

lemma skipFrom_end (h : i < maxSize) (h0 : (data i).toNat = 0) :
    skipFrom data maxSize i = i + 1 := by
  rw [skipFrom, if_pos h]
  exact if_pos h0

lemma skipFrom_pointer (h : i < maxSize) (h3 : (data i).toNat >>> 6 = 3) :
    skipFrom data maxSize i = skipFrom data maxSize (i + 1 + 1) := by
  have h0 : ¬(data i).toNat = 0 := fun h0 => by simp [h0] at h3
  rw [skipFrom, if_pos h]
  simp only [if_neg h0, if_pos h3]

lemma skipFrom_label (h : i < maxSize) (h0 : (data i).toNat ≠ 0)
    (h3 : (data i).toNat >>> 6 ≠ 3) :
    skipFrom data maxSize i = skipFrom data maxSize (i + 1 + (data i).toNat) := by
  rw [skipFrom, if_pos h]
  simp only [if_neg h0, if_neg h3]

end

/-- `_skip_name` -/
def skipName (data : Buffer) (maxSize : ℕ) : ℕ := skipFrom data maxSize 0

inductive Fault
  | read
  | write
  deriving DecidableEq, Repr

/-- A label of `i` bytes after the ones before it: the dot, the bytes and the end of the string. -/
def putLabel (data : Buffer) (offset : ℕ) (out : Buffer) (outIndex i : ℕ) : Buffer :=
  fun k =>
    if k = outIndex + i then 0
    else if outIndex ≤ k ∧ k < outIndex + i then data (offset + (k - outIndex))
    else if outIndex ≠ 0 ∧ k = outIndex - 1 then dot
    else out k

/-- The offset in a compression pointer with the bytes `i` and `b`. -/
def pointerOffset (i b : UInt8) : ℕ := (i.toNat &&& 0x3f) <<< 8 ||| b.toNat

/-- `_decode_name`: rounds of the loop and calls of itself use up the first argument. -/
def decodeName (data : Buffer) (maxSize outLength : ℕ) :
    ℕ → ℕ → Buffer → ℕ → Option (Except Fault (ℕ × Buffer))
  | 0, _, _, _ => none
  | fuel + 1, offset, out, outIndex =>
    if offset < maxSize then
      let i := (data offset).toNat
      if i = 0 then some (.ok (offset + 1, out))
      else if i >>> 6 = 3 then
        -- the second byte is read before the offset is checked
        if ¬offset + 1 < maxSize then some (.error .read)
        else
          let j := pointerOffset (data offset) (data (offset + 1))
          if offset + 2 > maxSize ∨ j < sizeofPacket then some (.ok (0, out))
          else
            match decodeName data maxSize outLength fuel (j - sizeofPacket) out outIndex with
            | some (.ok (r, out)) => some (.ok (if r ≠ 0 then offset + 2 else 0, out))
            | r => r
      else if i + outIndex + 1 > outLength ∨ i + (offset + 1) > maxSize then some (.ok (0, out))
      else if ¬offset + 1 + i ≤ maxSize then some (.error .read)
      else if ¬outIndex + i < outLength then some (.error .write)
      else
        decodeName data maxSize outLength fuel (offset + 1 + i)
          (putLabel data (offset + 1) out outIndex i) (outIndex + i + 1)
    else some (.ok (0, out))

section

variable {data out : Buffer} {maxSize outLength fuel offset outIndex : ℕ}

lemma decodeName_past (h : ¬offset < maxSize) :
    decodeName data maxSize outLength (fuel + 1) offset out outIndex = some (.ok (0, out)) := by
  exact if_neg h

lemma decodeName_end (h : offset < maxSize) (h0 : (data offset).toNat = 0) :
    decodeName data maxSize outLength (fuel + 1) offset out outIndex =
      some (.ok (offset + 1, out)) := by
  refine (if_pos h).trans ?_
  exact if_pos h0

lemma decodeName_cut (h : offset < maxSize) (h3 : (data offset).toNat >>> 6 = 3)
    (h1 : ¬offset + 1 < maxSize) :
    decodeName data maxSize outLength (fuel + 1) offset out outIndex = some (.error .read) := by
  have h0 : ¬(data offset).toNat = 0 := fun h0 => by simp [h0] at h3
  refine (if_pos h).trans ?_
  simp only [if_neg h0, if_pos h3, if_pos h1]

lemma decodeName_header (h : offset + 1 < maxSize) (h3 : (data offset).toNat >>> 6 = 3)
    (hj : pointerOffset (data offset) (data (offset + 1)) < sizeofPacket) :
    decodeName data maxSize outLength (fuel + 1) offset out outIndex = some (.ok (0, out)) := by
  have h0 : ¬(data offset).toNat = 0 := fun h0 => by simp [h0] at h3
  refine (if_pos (by omega)).trans ?_
  simp only [if_neg h0, if_pos h3, if_neg (not_not.mpr h)]
  exact if_pos (.inr hj)

lemma decodeName_pointer (h : offset + 1 < maxSize) (h3 : (data offset).toNat >>> 6 = 3)
    (hj : sizeofPacket ≤ pointerOffset (data offset) (data (offset + 1))) :
    decodeName data maxSize outLength (fuel + 1) offset out outIndex =
      match decodeName data maxSize outLength fuel
        (pointerOffset (data offset) (data (offset + 1)) - sizeofPacket) out outIndex with
      | some (.ok (r, out)) => some (.ok (if r ≠ 0 then offset + 2 else 0, out))
      | r => r := by
  have h0 : ¬(data offset).toNat = 0 := fun h0 => by simp [h0] at h3
  refine (if_pos (by omega)).trans ?_
  simp only [if_neg h0, if_pos h3, if_neg (not_not.mpr h)]
  exact if_neg (by omega)

lemma decodeName_full (h : offset < maxSize) (h0 : (data offset).toNat ≠ 0)
    (h3 : (data offset).toNat >>> 6 ≠ 3)
    (hroom : (data offset).toNat + outIndex + 1 > outLength ∨
      (data offset).toNat + (offset + 1) > maxSize) :
    decodeName data maxSize outLength (fuel + 1) offset out outIndex = some (.ok (0, out)) := by
  refine (if_pos h).trans ?_
  simp only [if_neg h0, if_neg h3]
  exact if_pos hroom

lemma decodeName_label (h : offset < maxSize) (h0 : (data offset).toNat ≠ 0)
    (h3 : (data offset).toNat >>> 6 ≠ 3) (hroom : (data offset).toNat + outIndex + 1 ≤ outLength)
    (hin : offset + 1 + (data offset).toNat ≤ maxSize) :
    decodeName data maxSize outLength (fuel + 1) offset out outIndex =
      decodeName data maxSize outLength fuel (offset + 1 + (data offset).toNat)
        (putLabel data (offset + 1) out outIndex (data offset).toNat)
        (outIndex + (data offset).toNat + 1) := by
  refine (if_pos h).trans ?_
  simp only [if_neg h0, if_neg h3]
  rw [if_neg (by omega), if_neg (by omega), if_neg (by omega)]

end

/-- The first label of a name: up to a dot or the end. -/
def firstLabel (name : List UInt8) : List UInt8 := name.takeWhile fun c => c ≠ 0 ∧ c ≠ dot

/-- `out` with a label written at `i`: its length and its bytes. -/
def writeLabel (out : Buffer) (i : ℕ) (label : List UInt8) : Buffer :=
  fun k =>
    if k = i then UInt8.ofNat label.length
    else if i < k ∧ k < i + 1 + label.length then label.getD (k - (i + 1)) 0
    else out k

/-- The name after its first label, and after the dot that follows it. -/
def afterLabel (name : List UInt8) : List UInt8 :=
  let name := name.drop (firstLabel name).length
  if name.head? = some dot then name.tail else name

lemma length_afterLabel_lt {name : List UInt8} (h : (firstLabel name).length ≠ 0) :
    (afterLabel name).length < name.length := by
  have hle : (firstLabel name).length ≤ name.length := (List.takeWhile_prefix _).length_le
  have hdrop : (name.drop (firstLabel name).length).length < name.length := by
    rw [List.length_drop]
    omega
  unfold afterLabel
  simp only
  split_ifs
  · rw [List.length_tail]
    omega
  · exact hdrop

/-- The loop of `_encode_name`; a string ends with its list. -/
def encodeFrom (maxSize : ℕ) (name : List UInt8) (out : Buffer) (i : ℕ) : ℕ × Buffer :=
  let label := firstLabel name
  let j := label.length
  if j > 255 then (0, out)
  else if i + j + 1 > maxSize then (0, out)
  else if j ≠ 0 then encodeFrom maxSize (afterLabel name) (writeLabel out i label) (i + (j + 1))
  else (i + (j + 1), writeLabel out i label)
termination_by name.length
decreasing_by exact length_afterLabel_lt (by assumption)

/-- `_encode_name` -/
def encodeName (name : List UInt8) (out : Buffer) (maxSize : ℕ) : ℕ × Buffer :=
  encodeFrom maxSize name out 0

/-! ### Replies -/

/-- A packet of the socket: `length` bytes, the header first. -/
structure Packet where
  length : ℕ
  bytes : Buffer
  /-- `length` is a 16-bit word -/
  length_lt : length < 2 ^ 16

namespace Packet

variable (p : Packet)

def id : ℕ := getBig 2 p.bytes 0
def flags : ℕ := getBig 2 p.bytes 2
def qdcount : ℕ := getBig 2 p.bytes 4
def ancount : ℕ := getBig 2 p.bytes 6

/-- `dns_packet->data` -/
def data : Buffer := fun i => p.bytes (sizeofPacket + i)

end Packet

def netDnsFlagQr : ℕ := 0x8000
def netDnsRcodeMask : ℕ := 0x000f
def netDnsRcodeNoError : ℕ := 0
def netDnsTypeA : ℕ := 1
def netDnsQclassIn : ℕ := 1

/-- The checks of the header. -/
def Accepted (p : Packet) : Prop :=
  sizeofPacket ≤ p.length ∧ p.flags &&& netDnsFlagQr ≠ 0 ∧ p.ancount ≠ 0 ∧
    p.flags &&& netDnsRcodeMask = netDnsRcodeNoError

instance (p : Packet) : Decidable (Accepted p) := inferInstanceAs (Decidable (_ ∧ _ ∧ _ ∧ _))

/-- The loop over the questions, with `offset` what the one before has left; nothing where the
reply is given up. -/
def skipQuestions (p : Packet) : ℕ → ℕ → Option ℕ
  | 0, offset => some offset
  | n + 1, offset =>
    let offset := skipName (fun i => p.data (offset + i)) (p.length - sizeofPacket - offset)
    if offset = 0 then none
    else
      let offset := offset + sizeofQuestion
      if offset + sizeofPacket > p.length then none else skipQuestions p n offset

/-- What a reply says: the buffer with the name, the address and the time it is kept. -/
structure Reply where
  name : Buffer
  address : ℕ
  cacheDuration : ℕ

/-- The answer record at `offset`. -/
def readRecord (p : Packet) (name : Buffer) (offset : ℕ) : Option Reply :=
  if offset = 0 ∨ offset + sizeofResourceRecord + sizeofPacket > p.length then none
  else if offset + (sizeofResourceRecord + getBig 2 p.data (offset + 8)) + sizeofPacket > p.length ∨
      getBig 2 p.data offset ≠ netDnsTypeA ∨ getBig 2 p.data (offset + 2) ≠ netDnsQclassIn ∨
      getBig 2 p.data (offset + 8) ≠ 4 then none
  else some
    { name := name
      address := getBig 4 p.data (offset + 10)
      cacheDuration := getBig 4 p.data (offset + 4) }

/-- One round of `_rx_thread`: `known` are the requests that are waiting, `buffer` is what is in
the local buffer before. -/
def handleReply (known : ℕ → Bool) (buffer : Buffer) (p : Packet) (fuel : ℕ) :
    Option (Except Fault (Option Reply)) :=
  if ¬Accepted p then some (.ok none)
  else if known p.id = false then some (.ok none)
  else
    match skipQuestions p p.qdcount 0 with
    | none => some (.ok none)
    | some offset =>
      (decodeName p.data (p.length - sizeofPacket) 256 fuel offset buffer 0).map fun r =>
        r.map fun r => readRecord p r.2 r.1

end KernelModel.Dns
