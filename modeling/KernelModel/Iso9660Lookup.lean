import KernelModel.Iso9660
import KernelModel.LittleEndian

/-!
Looking up a name in a directory of an ISO 9660 medium.

The directory is read one sector at a time into a buffer of 2048 bytes, and a read of the buffer
outside of it fails. A lookup is described together with the sectors that it asks the drive for.
-/

namespace KernelModel.Iso9660

open LittleEndian

def flagDirectory : UInt8 := 2
def flagAssociatedFile : UInt8 := 4

/-- The variables of `_iso9660_lookup`; the entry is given by its position in the buffer. -/
structure LookupState where
  dataOffset : ℕ
  dataLength : ℕ
  bufferSpace : ℕ
  directory : ℕ
  buffer : ℕ → UInt8

/-- The node that is created. -/
structure Found where
  directory : Bool
  currentOffset : ℕ
  dataOffset : ℕ
  dataLength : ℕ

/-- What an iteration of the loop does, with the sectors that it asks for. -/
inductive Step
  | next (reads : List ℕ) (s : LookupState)
  | done (reads : List ℕ) (out : Option Found)

def load (buffer : ℕ → UInt8) (i : ℕ) : Option UInt8 := if i < 2048 then some (buffer i) else none

def loadWord (buffer : ℕ → UInt8) (i : ℕ) : Option ℕ :=
  if i + 4 ≤ 2048 then some (get 4 buffer i) else none

/-- `c+((c>64&&c<91)<<5)` -/
def lowerCase (c : UInt8) : UInt8 := if 64 < c ∧ c < 91 then c + 32 else c

/-- The loop over the identifier. -/
def sameName (buffer : ℕ → UInt8) (i : ℕ) : List UInt8 → Option Bool
  | [] => some true
  | c :: name =>
    (load buffer i).bind fun x =>
      if lowerCase x ≠ c then some false else sameName buffer (i + 1) name

/-- Whether the entry is not skipped; the characters of an identifier are signed. -/
def checkEntry (buffer : ℕ → UInt8) (directory : ℕ) (name : List UInt8) : Option Bool := do
  let identifierLength ← load buffer (directory + 32)
  let dot ← (if identifierLength = 1 then
    (load buffer (directory + 33)).map fun c => decide (c < 2 ∨ 128 ≤ c) else some false)
  let flags ← load buffer (directory + 25)
  if dot ∨ flags &&& flagAssociatedFile ≠ 0 then some false
  else
    let nameLength := if flags &&& flagDirectory ≠ 0 then identifierLength else identifierLength - 2
    if nameLength.toNat ≠ name.length then some false else sameName buffer (directory + 33) name

def createNode (node : Node) (s : LookupState) : Option Found := do
  let flags ← load s.buffer (s.directory + 25)
  let lba ← loadWord s.buffer (s.directory + 2)
  let dataLength ← loadWord s.buffer (s.directory + 10)
  some
    { directory := flags &&& flagDirectory ≠ 0
      currentOffset := (node.dataOffset <<< 11 + node.dataLength + 2 ^ 32 - s.dataLength) % 2 ^ 32
      dataOffset := lba
      dataLength }

/-- The next sector is read. -/
def readSector (d : Drive) (s : LookupState) : Step :=
  let (count, data) := driveRead d s.dataOffset (fun _ => none) 0 1
  if count ≠ 1 then .done [s.dataOffset] none
  else .next [s.dataOffset]
    { s with
      dataOffset := (s.dataOffset + 1) % 2 ^ 32
      bufferSpace := 2048
      directory := 0
      buffer := fun i => (data i).getD (s.buffer i) }

/-- An entry of length zero ends the sector. -/
def skipZero (s : LookupState) : Option LookupState :=
  if s.bufferSpace ≠ 0 then (load s.buffer s.directory).map fun length =>
    if length = 0 then
      { s with dataLength := (s.dataLength + 2 ^ 32 - s.bufferSpace) % 2 ^ 32, bufferSpace := 0 }
    else s
  else some s

/-- The body of the loop of `_iso9660_lookup`. -/
def lookupStep (d : Drive) (node : Node) (name : List UInt8) (s : LookupState) : Option Step :=
  if s.dataLength = 0 then some (.done [] none)
  else (skipZero s).bind fun s =>
    if s.bufferSpace = 0 then some (readSector d s)
    else (load s.buffer s.directory).bind fun length =>
      if length.toNat > s.bufferSpace then some (.done [] none)
      else (checkEntry s.buffer s.directory name).bind fun same =>
        if same then (createNode node s).map fun found => .done [] (some found)
        else
          let bufferSpace := s.bufferSpace - length.toNat
          some (.next []
            { s with
              dataLength := (s.dataLength + 2 ^ 32 - length.toNat) % 2 ^ 32
              bufferSpace
              directory := 2048 - bufferSpace })

def lookupLoop (d : Drive) (node : Node) (name : List UInt8) :
    ℕ → LookupState → Option (List ℕ × Option Found)
  | 0, _ => none
  | fuel + 1, s => (lookupStep d node name s).bind fun
    | .next reads s => (lookupLoop d node name fuel s).map fun (more, out) => (reads ++ more, out)
    | .done reads out => some (reads, out)

/-- `_iso9660_lookup`, with what is in the buffer before: the sectors that are asked for, and the
node. -/
def iso9660Lookup (d : Drive) (node : Node) (name : List UInt8) (buffer : ℕ → UInt8) (fuel : ℕ) :
    Option (List ℕ × Option Found) :=
  if node.dataOffset = 0 then some ([], none)
  else lookupLoop d node name fuel ⟨node.dataOffset, node.dataLength, 0, 0, buffer⟩

/-! ### What is promised -/

section

variable (d : Drive) (node : Node) (name : List UInt8) (pos : ℕ)

/-- A byte of the entry at a position of the directory. -/
def entryByte (i : ℕ) : UInt8 := d.data (2048 * node.dataOffset + pos + i)

/-- `length` -/
def entryLength : ℕ := (entryByte d node pos 0).toNat

/-- The sector holds data of the directory. -/
def Held (sector : ℕ) : Prop := ∃ k, 2048 * k < node.dataLength ∧ sector = node.dataOffset + k

/-- The entry has the name, in lower case and without the version of a file. -/
structure Named : Prop where
  version : entryByte d node pos 25 &&& flagDirectory = 0 → 2 ≤ (entryByte d node pos 32).toNat
  length : name.length = (entryByte d node pos 32).toNat -
    if entryByte d node pos 25 &&& flagDirectory = 0 then 2 else 0
  chars : ∀ i < name.length, lowerCase (entryByte d node pos (33 + i)) = name.getD i 0

/-- Where the entries start: behind each other, and with a sector behind a length of zero. -/
inductive Starts : ℕ → Prop
  | first : Starts 0
  | zero {pos : ℕ} (h : Starts pos) (hzero : entryLength d node pos = 0) :
      Starts (2048 * (pos / 2048 + 1))
  | entry {pos : ℕ} (h : Starts pos) (hfits : pos % 2048 + entryLength d node pos ≤ 2048) :
      Starts (pos + entryLength d node pos)

/-- An entry inside of the data of the directory has the name. -/
def HasEntry : Prop := ∃ pos, Starts d node pos ∧
  pos + entryLength d node pos ≤ node.dataLength ∧ 0 < entryLength d node pos ∧
  Named d node name pos

/-- The lookup ends, stays in its buffer, asks for sectors of the directory only, and finds only
what is there. -/
def LookupSafe : Prop := ∀ buffer, ∃ fuel reads out,
  iso9660Lookup d node name buffer fuel = some (reads, out) ∧ (∀ r ∈ reads, Held node r) ∧
    (out.isSome → HasEntry d node name)

/-! ### The entries in order -/

/-- Entries that are never compared. -/
def Ignored : Prop :=
  (entryByte d node pos 32 = 1 ∧
    (entryByte d node pos 33 < 2 ∨ 128 ≤ entryByte d node pos 33)) ∨
  entryByte d node pos 25 &&& flagAssociatedFile ≠ 0

/-- The length that is compared with that of the name, as a byte. -/
def comparedLength : UInt8 :=
  if entryByte d node pos 25 &&& flagDirectory ≠ 0 then entryByte d node pos 32
  else entryByte d node pos 32 - 2

/-- The characters before `i` are those of the name. -/
def SameUpTo (i : ℕ) : Prop :=
  ∀ j < i, lowerCase (entryByte d node pos (33 + j)) = name.getD j 0

/-- The comparison succeeds. -/
def Matches : Prop := ¬Ignored d node pos ∧
  (comparedLength d node pos).toNat = name.length ∧ SameUpTo d node name pos name.length

/-- The fields of the entry that are compared are in its sector. -/
structure Inside : Prop where
  header : pos % 2048 + 32 < 2048
  identifier : entryByte d node pos 32 = 1 → pos % 2048 + 33 < 2048
  chars : ¬Ignored d node pos → (comparedLength d node pos).toNat = name.length →
    ∀ i < name.length, SameUpTo d node name pos i → pos % 2048 + 33 + i < 2048

/-- The position behind an entry: there is none behind the end of the data, behind an entry that
crosses the end of its sector or matches, and in a sector that the drive does not have. -/
inductive Next : ℕ → Prop
  | zero (hzero : entryLength d node pos = 0)
      (hread : node.dataOffset + (pos / 2048 + 1) < d.blockCount) :
      Next (2048 * (pos / 2048 + 1))
  | skip (hpos : 0 < entryLength d node pos)
      (hfits : pos % 2048 + entryLength d node pos ≤ 2048) (hother : ¬Matches d node name pos)
      (hend : pos + entryLength d node pos ≠ node.dataLength)
      (hread : node.dataOffset + (pos + entryLength d node pos) / 2048 < d.blockCount) :
      Next (pos + entryLength d node pos)

/-- The positions that the lengths lead to. -/
inductive Visited : ℕ → Prop
  | first (hoffset : node.dataOffset ≠ 0) (hlength : node.dataLength ≠ 0)
      (hread : node.dataOffset < d.blockCount) : Visited 0
  | next {pos next : ℕ} (h : Visited pos) (hnext : Next d node name pos next) : Visited next

/-- The entry at a position does no harm: the sector behind it is not asked for unless it is of the
directory, its fields are in the sector, and if it matches, then the name is there. -/
structure SoundAt : Prop where
  zero : entryLength d node pos = 0 → Held node ((node.dataOffset + (pos / 2048 + 1)) % 2 ^ 32)
  inside : 0 < entryLength d node pos → pos % 2048 + entryLength d node pos ≤ 2048 →
    Inside d node name pos
  named : 0 < entryLength d node pos → pos % 2048 + entryLength d node pos ≤ 2048 →
    Matches d node name pos → HasEntry d node name
  sector : 0 < entryLength d node pos → pos % 2048 + entryLength d node pos = 2048 →
    ¬Matches d node name pos → pos + entryLength d node pos ≠ node.dataLength →
    Held node ((node.dataOffset + (pos / 2048 + 1)) % 2 ^ 32)

end

section

variable {d : Drive} {node : Node} {name : List UInt8} {pos k : ℕ} {s s' : LookupState}
  {reads : List ℕ} {out : Option Found}

/-! ### The comparison -/

/-- The buffer holds the sector of the position. -/
def HasSector (d : Drive) (node : Node) (k : ℕ) (buffer : ℕ → UInt8) : Prop :=
  ∀ i < 2048, buffer i = d.data (2048 * (node.dataOffset + k) + i)

variable {buffer : ℕ → UInt8}

lemma HasSector.load (h : HasSector d node (pos / 2048) buffer) {i : ℕ}
    (hi : pos % 2048 + i < 2048) :
    load buffer (pos % 2048 + i) = some (entryByte d node pos i) := by
  rw [Iso9660.load, if_pos hi, h _ hi, entryByte]
  refine congrArg (fun n => some (d.data n)) ?_
  omega

lemma load_outside {i : ℕ} (hi : ¬i < 2048) : load buffer i = none := if_neg hi

lemma sameUpTo_succ {i : ℕ} : SameUpTo d node name pos (i + 1) ↔
    SameUpTo d node name pos i ∧ lowerCase (entryByte d node pos (33 + i)) = name.getD i 0 :=
  Nat.forall_lt_succ_right

lemma sameName_spec (h : HasSector d node (pos / 2048) buffer) (i : ℕ)
    (hsame : SameUpTo d node name pos i) :
    ((∀ j < name.length, i ≤ j → SameUpTo d node name pos j → pos % 2048 + 33 + j < 2048) ∧
      ∃ same, sameName buffer (pos % 2048 + 33 + i) (name.drop i) = some same ∧
        (same = true ↔ SameUpTo d node name pos name.length)) ∨
      (∃ j < name.length, SameUpTo d node name pos j ∧ ¬pos % 2048 + 33 + j < 2048) ∧
        sameName buffer (pos % 2048 + 33 + i) (name.drop i) = none := by
  induction hn : name.length - i generalizing i with
  | zero =>
    rw [List.drop_eq_nil_of_le (by omega)]
    refine .inl ⟨fun j hj hij => by omega, true, rfl, iff_of_true rfl fun j hj => ?_⟩
    exact hsame j (by omega)
  | succ n ih =>
    have hi : i < name.length := by omega
    have hget : name.getD i 0 = name[i] := by
      rw [List.getD_eq_getElem?_getD, List.getElem?_eq_getElem hi, Option.getD_some]
    rw [List.drop_eq_getElem_cons hi, sameName]
    by_cases hinside : pos % 2048 + 33 + i < 2048
    · rw [Nat.add_assoc] at hinside
      rw [Nat.add_assoc, h.load hinside, Option.bind_some]
      by_cases heq : lowerCase (entryByte d node pos (33 + i)) = name[i]
      · rw [if_neg (not_not.mpr heq), ← Nat.add_assoc, Nat.add_assoc (pos % 2048 + 33)]
        rcases ih (i + 1) (sameUpTo_succ.mpr ⟨hsame, heq.trans hget.symm⟩) (by omega) with
          ⟨hall, hresult⟩ | hbad
        · refine .inl ⟨fun j hj hij hupTo => ?_, hresult⟩
          obtain rfl | hlt := Nat.eq_or_lt_of_le hij
          · omega
          · exact hall j hj hlt hupTo
        · exact .inr hbad
      · rw [if_pos heq]
        refine .inl ⟨fun j hj hij hupTo => ?_, false, rfl,
          iff_of_false Bool.false_ne_true fun hall =>
          heq ((hall i hi).trans hget)⟩
        obtain rfl | hlt := Nat.eq_or_lt_of_le hij
        · omega
        · exact absurd ((hupTo i hlt).trans hget) heq
    · rw [load_outside hinside]
      exact .inr ⟨⟨i, hi, hsame, hinside⟩, rfl⟩

lemma checkEntry_rest (h : HasSector d node (pos / 2048) buffer)
    (hheader : pos % 2048 + 32 < 2048)
    (hidentifier : entryByte d node pos 32 = 1 → pos % 2048 + 33 < 2048) {dot : Bool}
    (hdot : dot = true ↔ entryByte d node pos 32 = 1 ∧
      (entryByte d node pos 33 < 2 ∨ 128 ≤ entryByte d node pos 33))
    (hcheck : checkEntry buffer (pos % 2048) name =
      if dot = true ∨ entryByte d node pos 25 &&& flagAssociatedFile ≠ 0 then some false
      else if (comparedLength d node pos).toNat ≠ name.length then some false
      else sameName buffer (pos % 2048 + 33) name) :
    (Inside d node name pos ∧ ∃ same, checkEntry buffer (pos % 2048) name = some same ∧
      (same = true ↔ Matches d node name pos)) ∨
      ¬Inside d node name pos ∧ checkEntry buffer (pos % 2048) name = none := by
  have hskip : (dot = true ∨ entryByte d node pos 25 &&& flagAssociatedFile ≠ 0) ↔
      Ignored d node pos := or_congr_left hdot
  by_cases hignored : Ignored d node pos
  · rw [if_pos (hskip.mpr hignored)] at hcheck
    exact .inl ⟨⟨hheader, hidentifier, fun h => absurd hignored h⟩, false, hcheck,
      iff_of_false Bool.false_ne_true fun hmatches => hmatches.1 hignored⟩
  rw [if_neg (mt hskip.mp hignored)] at hcheck
  by_cases hlength : (comparedLength d node pos).toNat = name.length
  · rw [if_neg (not_not.mpr hlength)] at hcheck
    have hname := @sameName_spec d node name pos _ h 0 fun j hj => absurd hj (Nat.not_lt_zero j)
    rw [List.drop_zero, Nat.add_zero] at hname
    rcases hname with ⟨hall, same, hsame, hiff⟩ | ⟨⟨j, hj, hupTo, houtside⟩, hnone⟩
    · refine .inl ⟨⟨hheader, hidentifier, fun _ _ j hj => hall j hj (Nat.zero_le j)⟩, same,
        hcheck.trans hsame, ?_⟩
      rw [hiff]
      exact ⟨fun hall => ⟨hignored, hlength, hall⟩, fun hmatches => hmatches.2.2⟩
    · exact .inr ⟨fun hinside => houtside (hinside.chars hignored hlength j hj hupTo),
        hcheck.trans hnone⟩
  · rw [if_pos hlength] at hcheck
    exact .inl ⟨⟨hheader, hidentifier, fun _ h => absurd h hlength⟩, false, hcheck,
      iff_of_false Bool.false_ne_true fun hmatches => hlength hmatches.2.1⟩

lemma checkEntry_spec (h : HasSector d node (pos / 2048) buffer) :
    (Inside d node name pos ∧ ∃ same, checkEntry buffer (pos % 2048) name = some same ∧
      (same = true ↔ Matches d node name pos)) ∨
      ¬Inside d node name pos ∧ checkEntry buffer (pos % 2048) name = none := by
  by_cases hheader : pos % 2048 + 32 < 2048
  · have hlength := h.load hheader
    have hflags := h.load (show pos % 2048 + 25 < 2048 by omega)
    by_cases hid : entryByte d node pos 32 = 1
    · by_cases hidentifier : pos % 2048 + 33 < 2048
      · refine @checkEntry_rest d node name pos buffer h hheader (fun _ => hidentifier) (decide
          (entryByte d node pos 33 < 2 ∨ 128 ≤ entryByte d node pos 33)) ?_ ?_
        · rw [decide_eq_true_eq, and_iff_right hid]
        · rw [checkEntry, hlength, hflags]
          simp only [Option.bind_eq_bind, Option.bind_some, if_pos hid, h.load hidentifier,
            Option.map_some]
          rfl
      · refine .inr ⟨fun hinside => hidentifier (hinside.identifier hid), ?_⟩
        rw [checkEntry, hlength]
        simp only [Option.bind_eq_bind, Option.bind_some, if_pos hid, load_outside hidentifier,
          Option.map_none, Option.bind_none]
    · refine @checkEntry_rest d node name pos buffer h hheader (fun h => absurd h hid) false ?_ ?_
      · exact iff_of_false Bool.false_ne_true fun h => hid h.1
      · rw [checkEntry, hlength, hflags]
        simp only [Option.bind_eq_bind, Option.bind_some, if_neg hid]
        rfl
  · rw [checkEntry, load_outside hheader]
    exact .inr ⟨fun hinside => hheader hinside.header, rfl⟩

/-! ### Runs -/

/-- The run from a state is safe. -/
def SafeFrom (d : Drive) (node : Node) (name : List UInt8) (s : LookupState) : Prop :=
  ∃ fuel reads out, lookupLoop d node name fuel s = some (reads, out) ∧
    (∀ r ∈ reads, Held node r) ∧ (out.isSome → HasEntry d node name)

lemma safeFrom_none (h : lookupStep d node name s = none) : ¬SafeFrom d node name s := by
  rintro ⟨fuel, reads, out, hrun, -⟩
  cases fuel with
  | zero => cases hrun
  | succ fuel =>
    rw [lookupLoop, h] at hrun
    cases hrun

lemma safeFrom_done (h : lookupStep d node name s = some (.done reads out)) :
    SafeFrom d node name s ↔ (∀ r ∈ reads, Held node r) ∧ (out.isSome → HasEntry d node name) := by
  constructor
  · rintro ⟨fuel, reads', out', hrun, hsafe⟩
    cases fuel with
    | zero => cases hrun
    | succ fuel =>
      rw [lookupLoop, h] at hrun
      cases hrun
      exact hsafe
  · intro hsafe
    exact ⟨1, reads, out, by rw [lookupLoop, h]; rfl, hsafe⟩

lemma safeFrom_next (h : lookupStep d node name s = some (.next reads s')) :
    SafeFrom d node name s ↔ (∀ r ∈ reads, Held node r) ∧ SafeFrom d node name s' := by
  constructor
  · rintro ⟨fuel, all, out, hrun, hheld, hout⟩
    cases fuel with
    | zero => cases hrun
    | succ fuel =>
      rw [lookupLoop, h, Option.bind_some] at hrun
      dsimp only at hrun
      rw [Option.map_eq_some_iff] at hrun
      obtain ⟨⟨more, out'⟩, hmore, heq⟩ := hrun
      cases heq
      exact ⟨fun r hr => hheld r (List.mem_append_left _ hr), fuel, more, out', hmore,
        fun r hr => hheld r (List.mem_append_right _ hr), hout⟩
  · rintro ⟨hreads, fuel, more, out, hrun, hmore, hout⟩
    refine ⟨fuel + 1, reads ++ more, out, ?_, fun r hr => ?_, hout⟩
    · rw [lookupLoop, h, Option.bind_some]
      dsimp only
      rw [hrun]
      rfl
    · exact (List.mem_append.mp hr).elim (hreads r) (hmore r)

/-! ### Steps -/

/-- The state at a position of the directory. -/
structure At (d : Drive) (node : Node) (pos : ℕ) (s : LookupState) : Prop where
  dataOffset : s.dataOffset = (node.dataOffset + (pos / 2048 + 1)) % 2 ^ 32
  dataLength : s.dataLength = (node.dataLength + 2 ^ 32 - pos) % 2 ^ 32
  bufferSpace : s.bufferSpace = 2048 - pos % 2048
  directory : s.directory = pos % 2048
  buffer : HasSector d node (pos / 2048) s.buffer

/-- A position in a sector of the directory that was read. -/
structure Good (d : Drive) (node : Node) (pos : ℕ) : Prop where
  sector : 2048 * (pos / 2048) < node.dataLength
  read : node.dataOffset + pos / 2048 < d.blockCount
  ne : pos ≠ node.dataLength

lemma safeFrom_end (h : s.dataLength = 0) : SafeFrom d node name s := by
  refine (@safeFrom_done d node name s [] none ?_).mpr ⟨fun r hr => ?_, fun h => ?_⟩
  · rw [lookupStep, if_pos h]
  · exact absurd hr List.not_mem_nil
  · cases h

lemma Good.dataLength_ne (hg : Good d node pos) (hs : At d node pos s) : s.dataLength ≠ 0 := by
  have hlength := node.dataLength_lt
  obtain ⟨hsector, -, hne⟩ := hg
  rw [hs.dataLength]
  omega

/-- The step to a sector: it is safe to ask for it exactly when it is of the directory. -/
lemma safeFrom_sector (hk : k ≤ 2 ^ 22) (hoffset : s.dataOffset = (node.dataOffset + k) % 2 ^ 32)
    (hlength : s.dataLength = (node.dataLength + 2 ^ 32 - 2048 * k) % 2 ^ 32)
    (hstep : lookupStep d node name s' = some (readSector d s)) :
    (¬Held node ((node.dataOffset + k) % 2 ^ 32) ∧ ¬SafeFrom d node name s') ∨
      Held node ((node.dataOffset + k) % 2 ^ 32) ∧ 2048 * k < node.dataLength ∧
        (d.blockCount ≤ node.dataOffset + k ∧ SafeFrom d node name s' ∨
          node.dataOffset + k < d.blockCount ∧ ∃ t, At d node (2048 * k) t ∧
            (SafeFrom d node name s' ↔ SafeFrom d node name t)) := by
  have hcount := d.blockCount_le
  have hnode := node.dataOffset_lt
  by_cases hheld : Held node ((node.dataOffset + k) % 2 ^ 32)
  · have hsector : 2048 * k < node.dataLength ∧
        (node.dataOffset + k) % 2 ^ 32 = node.dataOffset + k := by
      obtain ⟨j, hj, heq⟩ := hheld
      have hlt := node.dataLength_lt
      omega
    have hsingle : ∀ r ∈ [s.dataOffset], Held node r := by
      intro r hr
      rw [List.mem_singleton.mp hr, hoffset]
      exact hheld
    refine .inr ⟨hheld, hsector.1, ?_⟩
    rw [readSector, hoffset, hsector.2] at hstep
    rw [hoffset, hsector.2] at hsingle
    obtain hread | hread := Nat.lt_or_ge (node.dataOffset + k) d.blockCount
    · rw [driveRead_of_le hread] at hstep
      dsimp only at hstep
      rw [if_neg (not_not.mpr rfl)] at hstep
      refine .inr ⟨hread, _, ?_, (safeFrom_next hstep).trans (and_iff_right hsingle)⟩
      have hdiv : 2048 * k / 2048 = k := Nat.mul_div_cancel_left k (by norm_num)
      refine ⟨?_, hlength, ?_, ?_, fun i hi => ?_⟩
      · rw [hdiv, Nat.add_assoc]
      · rw [Nat.mul_mod_right]
      · rw [Nat.mul_mod_right]
      · rw [hdiv]
        dsimp only
        rw [memCopy, if_pos (by omega)]
        rfl
    · rw [driveRead_behind hread] at hstep
      dsimp only at hstep
      rw [if_pos (by decide)] at hstep
      exact .inl ⟨hread, (safeFrom_done hstep).mpr ⟨hsingle, fun h => by cases h⟩⟩
  · refine .inl ⟨hheld, fun hsafe => hheld ?_⟩
    rw [← hoffset]
    rw [readSector] at hstep
    dsimp only at hstep
    split_ifs at hstep
    · exact ((safeFrom_done hstep).mp hsafe).1 _ (List.mem_singleton_self _)
    · exact ((safeFrom_next hstep).mp hsafe).1 _ (List.mem_singleton_self _)

lemma step_zero (hg : Good d node pos) (hs : At d node pos s) (hzero : entryLength d node pos = 0) :
    lookupStep d node name s = some (readSector d
      { s with dataLength := (s.dataLength + 2 ^ 32 - s.bufferSpace) % 2 ^ 32,
               bufferSpace := 0 }) := by
  have hload := hs.buffer.load (show pos % 2048 + 0 < 2048 by omega)
  have hspace : s.bufferSpace ≠ 0 := by rw [hs.bufferSpace]; omega
  have hbyte : entryByte d node pos 0 = 0 := UInt8.toNat_inj.mp hzero
  rw [Nat.add_zero, ← hs.directory, hbyte] at hload
  rw [lookupStep, if_neg (hg.dataLength_ne hs), skipZero, if_pos hspace, hload]
  rfl

lemma step_entry (hg : Good d node pos) (hs : At d node pos s) (hpos : 0 < entryLength d node pos) :
    lookupStep d node name s =
      if entryLength d node pos > s.bufferSpace then some (.done [] none)
      else (checkEntry s.buffer s.directory name).bind fun same =>
        if same then (createNode node s).map fun found => .done [] (some found)
        else some (.next []
          { s with
            dataLength := (s.dataLength + 2 ^ 32 - entryLength d node pos) % 2 ^ 32
            bufferSpace := s.bufferSpace - entryLength d node pos
            directory := 2048 - (s.bufferSpace - entryLength d node pos) }) := by
  have hload := hs.buffer.load (show pos % 2048 + 0 < 2048 by omega)
  have hspace : s.bufferSpace ≠ 0 := by rw [hs.bufferSpace]; omega
  have hbyte : entryByte d node pos 0 ≠ 0 := fun h => by
    rw [entryLength, h] at hpos
    exact absurd hpos (by decide)
  rw [Nat.add_zero, ← hs.directory] at hload
  rw [lookupStep, if_neg (hg.dataLength_ne hs), skipZero, if_pos hspace, hload, Option.map_some,
    if_neg hbyte, Option.bind_some, if_neg hspace, hload, Option.bind_some]
  rfl

/-- What happens at an entry with a length, that does not cross the end of its sector. -/
lemma safeFrom_entry (hg : Good d node pos) (hs : At d node pos s)
    (hpos : 0 < entryLength d node pos) (hfits : pos % 2048 + entryLength d node pos ≤ 2048) :
    (¬Inside d node name pos ∧ ¬SafeFrom d node name s) ∨
      (Inside d node name pos ∧ Matches d node name pos ∧
        (SafeFrom d node name s ↔ HasEntry d node name)) ∨
      Inside d node name pos ∧ ¬Matches d node name pos ∧ ∃ t,
        (SafeFrom d node name s ↔ SafeFrom d node name t) ∧ t.dataOffset = s.dataOffset ∧
        t.dataLength = (node.dataLength + 2 ^ 32 - (pos + entryLength d node pos)) % 2 ^ 32 ∧
        t.bufferSpace = 2048 - (pos % 2048 + entryLength d node pos) ∧
        t.directory = pos % 2048 + entryLength d node pos ∧ t.buffer = s.buffer := by
  have hstep := @step_entry d node name pos s hg hs hpos
  have hlength := node.dataLength_lt
  have hsector := hg.sector
  rw [if_neg (by rw [hs.bufferSpace]; omega), hs.directory] at hstep
  rcases @checkEntry_spec d node name pos s.buffer hs.buffer with
    ⟨hinside, same, hcheck, hsame⟩ | ⟨hinside, hcheck⟩
  · rw [hcheck, Option.bind_some] at hstep
    have hheader := hinside.header
    cases same with
    | true =>
      obtain ⟨found, hfound⟩ : ∃ found, createNode node s = some found := by
        rw [createNode, hs.directory, load, if_pos (by omega), loadWord, if_pos (by omega),
          loadWord, if_pos (by omega)]
        exact ⟨_, rfl⟩
      rw [if_pos rfl, hfound, Option.map_some] at hstep
      refine .inr (.inl ⟨hinside, hsame.mp rfl, (safeFrom_done hstep).trans ?_⟩)
      exact ⟨fun h => h.2 rfl, fun h => ⟨fun r hr => absurd hr List.not_mem_nil, fun _ => h⟩⟩
    | false =>
      rw [if_neg Bool.false_ne_true] at hstep
      refine .inr (.inr ⟨hinside, fun h => Bool.false_ne_true (hsame.mpr h), _,
        (safeFrom_next hstep).trans (and_iff_right fun r hr => absurd hr List.not_mem_nil), rfl, ?_,
        ?_, ?_, rfl⟩)
      · dsimp only
        rw [hs.dataLength]
        have hlt : entryLength d node pos < 256 := UInt8.toNat_lt _
        omega
      · dsimp only
        rw [hs.bufferSpace]
        omega
      · dsimp only
        rw [hs.bufferSpace]
        omega
  · rw [hcheck, Option.bind_none] at hstep
    exact .inl ⟨hinside, safeFrom_none hstep⟩

lemma Next.unique {next next' : ℕ} (h : Next d node name pos next)
    (h' : Next d node name pos next') : next' = next := by
  cases h with
  | zero hzero =>
    cases h' with
    | zero => rfl
    | skip hpos => omega
  | skip hpos =>
    cases h' with
    | zero hzero => omega
    | skip => rfl

lemma safeFrom_cases (name : List UInt8) (hg : Good d node pos) (hs : At d node pos s) :
    (¬SoundAt d node name pos ∧ ¬SafeFrom d node name s) ∨
      (SoundAt d node name pos ∧ (∀ next, ¬Next d node name pos next) ∧ SafeFrom d node name s) ∨
      SoundAt d node name pos ∧ ∃ next t, Next d node name pos next ∧ Good d node next ∧
        At d node next t ∧ (SafeFrom d node name s ↔ SafeFrom d node name t) := by
  have hlength := node.dataLength_lt
  have hsector := hg.sector
  have hread := hg.read
  have hmod := Nat.mod_lt pos (show 2048 > 0 by norm_num)
  have hnextSector (h : 2048 * (pos / 2048 + 1) < node.dataLength)
      (hr : node.dataOffset + (pos / 2048 + 1) < d.blockCount) :
      Good d node (2048 * (pos / 2048 + 1)) := by
    have hdiv : 2048 * (pos / 2048 + 1) / 2048 = pos / 2048 + 1 :=
      Nat.mul_div_cancel_left _ (by norm_num)
    exact ⟨by rw [hdiv]; exact h, by rw [hdiv]; exact hr, h.ne⟩
  obtain hzero | hpos := Nat.eq_zero_or_pos (entryLength d node pos)
  · have hstep := @step_zero d node name pos s hg hs hzero
    obtain ⟨u, hu⟩ : ∃ u : LookupState, { s with
        dataLength := (s.dataLength + 2 ^ 32 - s.bufferSpace) % 2 ^ 32
        bufferSpace := 0 } = u := ⟨_, rfl⟩
    have hskipped : u.dataLength = (s.dataLength + 2 ^ 32 - s.bufferSpace) % 2 ^ 32 := by rw [← hu]
    have hoffset : u.dataOffset = s.dataOffset := by rw [← hu]
    rw [hs.dataLength, hs.bufferSpace] at hskipped
    rw [hu] at hstep
    rcases @safeFrom_sector d node name (pos / 2048 + 1) u s (by omega)
      (hoffset.trans hs.dataOffset) (by omega) hstep with
      ⟨hheld, hunsafe⟩ | ⟨hheld, hinside, hcases⟩
    · exact .inl ⟨fun h => hheld (h.zero hzero), hunsafe⟩
    · have hsound : SoundAt d node name pos := ⟨fun _ => hheld, fun h => by omega,
        fun h => by omega, fun h => by omega⟩
      rcases hcases with ⟨hbehind, hsafe⟩ | ⟨hr, t, ht, hiff⟩
      · refine .inr (.inl ⟨hsound, fun next hnext => ?_, hsafe⟩)
        cases hnext with
        | zero _ h => omega
        | skip h => omega
      · exact .inr (.inr ⟨hsound, _, t, .zero hzero hr, hnextSector hinside hr, ht, hiff⟩)
  by_cases hfits : pos % 2048 + entryLength d node pos ≤ 2048
  · rcases @safeFrom_entry d node name pos s hg hs hpos hfits with
      ⟨hinside, hunsafe⟩ | ⟨hinside, hmatches, hiff⟩ | ⟨hinside, hother, t, hiff, ht⟩
    · exact .inl ⟨fun h => hinside (h.inside hpos hfits), hunsafe⟩
    · by_cases hentry : HasEntry d node name
      · refine .inr (.inl ⟨⟨fun h => by omega, fun _ _ => hinside, fun _ _ _ => hentry,
          fun _ _ h => absurd hmatches h⟩, fun next hnext => ?_, hiff.mpr hentry⟩)
        cases hnext with
        | zero h => omega
        | skip _ _ h => exact h hmatches
      · exact .inl ⟨fun h => hentry (h.named hpos hfits hmatches), mt hiff.mp hentry⟩
    · obtain ⟨hoffset, hlengthT, hspace, hdirectory, hbuffer⟩ := ht
      rw [hiff]
      by_cases hend : pos + entryLength d node pos = node.dataLength
      · refine .inr (.inl ⟨⟨fun h => by omega, fun _ _ => hinside, fun _ _ h => absurd h hother,
          fun _ _ _ h => absurd hend h⟩, fun next hnext => ?_, safeFrom_end (by omega)⟩)
        cases hnext with
        | zero h => omega
        | skip _ _ _ h => exact h hend
      by_cases hfull : pos % 2048 + entryLength d node pos = 2048
      · -- The next position is in the next sector.
        have hlast : pos + entryLength d node pos = 2048 * (pos / 2048 + 1) := by omega
        have hstep : lookupStep d node name t = some (readSector d t) := by
          rw [lookupStep, if_neg (by omega), skipZero, if_neg (by omega), Option.bind_some,
            if_pos (by omega)]
        rcases @safeFrom_sector d node name (pos / 2048 + 1) t t (by omega)
          (hoffset.trans hs.dataOffset) (by rw [hlengthT, hlast]) hstep with
          ⟨hheld, hunsafe⟩ | ⟨hheld, hheldSector, hcases⟩
        · exact .inl ⟨fun h => hheld (h.sector hpos hfull hother hend), hunsafe⟩
        · have hsound : SoundAt d node name pos := ⟨fun h => by omega, fun _ _ => hinside,
            fun _ _ h => absurd h hother, fun _ _ _ _ => hheld⟩
          have hdiv : (pos + entryLength d node pos) / 2048 = pos / 2048 + 1 := by omega
          rcases hcases with ⟨hbehind, hsafe⟩ | ⟨hr, u, hu, hiff'⟩
          · refine .inr (.inl ⟨hsound, fun next hnext => ?_, hsafe⟩)
            cases hnext with
            | zero h => omega
            | skip _ _ _ _ h => omega
          · exact .inr (.inr ⟨hsound, _, u, .skip hpos hfits hother hend (by rw [hdiv]; exact hr),
              hlast ▸ hnextSector hheldSector hr, hlast ▸ hu, hiff'⟩)
      · have hdiv : (pos + entryLength d node pos) / 2048 = pos / 2048 := by omega
        have hmodNext : (pos + entryLength d node pos) % 2048 =
            pos % 2048 + entryLength d node pos := by omega
        refine .inr (.inr ⟨⟨fun h => by omega, fun _ _ => hinside, fun _ _ h => absurd h hother,
          fun _ h => absurd h hfull⟩, _, t,
            .skip hpos hfits hother hend (by rw [hdiv]; exact hread),
          ⟨by rw [hdiv]; exact hsector, by rw [hdiv]; exact hread, hend⟩, ?_, Iff.rfl⟩)
        refine ⟨by rw [hdiv, hoffset, hs.dataOffset], hlengthT, by rw [hmodNext, hspace],
          by rw [hmodNext, hdirectory], ?_⟩
        rw [hdiv, hbuffer]
        exact hs.buffer
  · -- The entry crosses the end of its sector.
    have hstep := @step_entry d node name pos s hg hs hpos
    rw [if_pos (by rw [hs.bufferSpace]; omega)] at hstep
    refine .inr (.inl ⟨⟨fun h => by omega, fun _ h => absurd h hfits, fun _ h => absurd h hfits,
      fun _ h => absurd h.le hfits⟩, fun next hnext => ?_,
      (safeFrom_done hstep).mpr ⟨fun r hr => absurd hr List.not_mem_nil, fun h => by cases h⟩⟩)
    cases hnext with
    | zero h => omega
    | skip _ h => exact hfits h

/-! ### The walk -/

lemma Visited.safe (h : Visited d node name pos) (hsafe : LookupSafe d node name) :
    ∃ t, Good d node pos ∧ At d node pos t ∧ SafeFrom d node name t := by
  have hlength := node.dataLength_lt
  induction h with
  | first hoffset hne hread =>
    obtain ⟨fuel, reads, out, hrun, hheld, hout⟩ := hsafe fun _ => 0
    rw [iso9660Lookup, if_neg hoffset] at hrun
    obtain ⟨s, hs⟩ : ∃ s : LookupState, ⟨node.dataOffset, node.dataLength, 0, 0, fun _ => 0⟩ = s :=
      ⟨_, rfl⟩
    have hnode := node.dataOffset_lt
    have hdataOffset : s.dataOffset = node.dataOffset := by rw [← hs]
    have hdataLength : s.dataLength = node.dataLength := by rw [← hs]
    have hspace : s.bufferSpace = 0 := by rw [← hs]
    rw [hs] at hrun
    have hstep : lookupStep d node name s = some (readSector d s) := by
      rw [lookupStep, if_neg (by omega), skipZero, if_neg (by omega), Option.bind_some,
        if_pos hspace]
    rcases @safeFrom_sector d node name 0 s s (by omega) (by omega) (by omega) hstep with
      ⟨_, hunsafe⟩ | ⟨_, hheldSector, ⟨hbehind, _⟩ | ⟨_, t, ht, hiff⟩⟩
    · exact absurd ⟨fuel, reads, out, hrun, hheld, hout⟩ hunsafe
    · omega
    · exact ⟨t, ⟨hheldSector, hread, hne.symm⟩, ht, hiff.mp ⟨fuel, reads, out, hrun, hheld, hout⟩⟩
  | next h hnext ih =>
    obtain ⟨s, hg, hs, hsafe⟩ := ih
    rcases safeFrom_cases name hg hs with ⟨_, hunsafe⟩ | ⟨_, hnone, _⟩ |
      ⟨_, next, t, hnext', hgood, ht, hiff⟩
    · exact absurd hsafe hunsafe
    · exact absurd hnext (hnone _)
    · obtain rfl := hnext'.unique hnext
      exact ⟨t, hgood, ht, hiff.mp hsafe⟩

lemma Visited.soundAt (h : Visited d node name pos) (hsafe : LookupSafe d node name) :
    SoundAt d node name pos := by
  obtain ⟨t, hg, ht, hsafe⟩ := h.safe hsafe
  rcases safeFrom_cases name hg ht with ⟨_, hunsafe⟩ | ⟨hsound, _⟩ | ⟨hsound, _⟩
  · exact absurd hsafe hunsafe
  · exact hsound
  · exact hsound

lemma safeFrom_of_sound (hsound : ∀ pos, Visited d node name pos → SoundAt d node name pos)
    (h : Visited d node name pos) (hg : Good d node pos) (hs : At d node pos s) :
    SafeFrom d node name s := by
  induction hn : 2 ^ 33 - pos using Nat.strong_induction_on generalizing pos s with
  | _ n ih =>
    subst hn
    have hlength := node.dataLength_lt
    rcases safeFrom_cases name hg hs with ⟨hharm, _⟩ | ⟨_, _, hsafe⟩ |
      ⟨_, next, t, hnext, hgood, ht, hiff⟩
    · exact absurd (hsound pos h) hharm
    · exact hsafe
    · have hsector := hgood.sector
      have hsector' := hg.sector
      have hlt : pos < next := by
        cases hnext with
        | zero => omega
        | skip => omega
      exact hiff.mpr (ih (2 ^ 33 - next) (by omega) (.next h hnext) hgood ht rfl)

end

/-- **Lookups.** A lookup is safe exactly when no entry that the lengths lead to does harm. -/
theorem lookupSafe_iff (d : Drive) (node : Node) (name : List UInt8) :
    LookupSafe d node name ↔ ∀ pos, Visited d node name pos → SoundAt d node name pos := by
  constructor
  · exact fun hsafe pos h => h.soundAt hsafe
  · intro hsound buffer
    have hnode := node.dataOffset_lt
    have hlength := node.dataLength_lt
    by_cases hoffset : node.dataOffset = 0
    · refine ⟨0, [], none, ?_, fun r hr => absurd hr List.not_mem_nil, fun h => by cases h⟩
      rw [iso9660Lookup, if_pos hoffset]
    · obtain ⟨s, hs⟩ : ∃ s : LookupState, ⟨node.dataOffset, node.dataLength, 0, 0, buffer⟩ = s :=
        ⟨_, rfl⟩
      have hdataOffset : s.dataOffset = node.dataOffset := by rw [← hs]
      have hdataLength : s.dataLength = node.dataLength := by rw [← hs]
      have hspace : s.bufferSpace = 0 := by rw [← hs]
      suffices hsafe : SafeFrom d node name s by
        obtain ⟨fuel, reads, out, hrun, hheld, hout⟩ := hsafe
        refine ⟨fuel, reads, out, ?_, hheld, hout⟩
        rw [iso9660Lookup, if_neg hoffset, hs, hrun]
      by_cases hne : node.dataLength = 0
      · exact safeFrom_end (hdataLength.trans hne)
      have hstep : lookupStep d node name s = some (readSector d s) := by
        rw [lookupStep, if_neg (by omega), skipZero, if_neg (by omega), Option.bind_some,
          if_pos hspace]
      rcases @safeFrom_sector d node name 0 s s (by omega) (by omega) (by omega) hstep with
        ⟨hheld, _⟩ | ⟨_, hheldSector, ⟨_, hsafe⟩ | ⟨hread, t, ht, hiff⟩⟩
      · refine absurd ⟨0, by omega, ?_⟩ hheld
        rw [Nat.add_zero, Nat.mod_eq_of_lt hnode]
      · exact hsafe
      · exact hiff.mpr (safeFrom_of_sound hsound (.first hoffset hne hread)
          ⟨hheldSector, hread, fun h => hne h.symm⟩ ht)

/-- A drive of three blocks of zeros, of which the second one is a directory. -/
def zeros : Drive := ⟨3, fun _ => 0, by norm_num⟩

/-- The sector behind the directory is asked for. -/
theorem lookupSafe_fails : ¬LookupSafe zeros second [97] := by
  intro hsafe
  have hvisited : Visited zeros second [97] 0 :=
    .first (by decide) (by decide) (by decide)
  obtain ⟨k, hk, hsector⟩ := (hvisited.soundAt hsafe).zero rfl
  have hlength : second.dataLength = 2048 := rfl
  have hoffset : second.dataOffset = 1 := rfl
  omega

end KernelModel.Iso9660
