import KernelModel.Fat32Table

/-!
Directory entries: what one function writes into an entry, and another one reads from it.

A lookup reads the clusters of a directory one after the other and stops at the first entry with
the name. It only sees the disk and the chain of the clusters; the sectors of the table that it
loads do not matter.
-/

namespace KernelModel.Fat32

open LittleEndian LinkedQueue

/-! ### Looking up -/

/-- `short_name_t` -/
structure ShortName where
  namePrefix : ℕ → UInt8
  nameSuffix : ℕ → UInt8

/-- The entry is not looked at: it is deleted, a dot entry, a volume label or a long name. -/
def Skipped (data : Buffer) (e : ℕ) : Prop :=
  data e = 0x05 ∨ data e = 0x2e ∨ data e = 0xe5 ∨ data (e + 11) &&& 0xc8 ≠ 0

instance (data : Buffer) (e : ℕ) : Decidable (Skipped data e) :=
  inferInstanceAs (Decidable (_ ∨ _))

def Named (name : ShortName) (data : Buffer) (e : ℕ) : Prop :=
  (∀ i < 8, data (e + i) = name.namePrefix i) ∧ ∀ i < 3, data (e + 8 + i) = name.nameSuffix i

instance (name : ShortName) (data : Buffer) (e : ℕ) : Decidable (Named name data e) :=
  inferInstanceAs (Decidable (_ ∧ _))

/-- A date without a time. -/
def getDate (dateBits : ℕ) : Time where
  year := 1980 + (dateBits >>> 9)
  month := (dateBits >>> 8) &&& 15
  day := dateBits &&& 31
  hour := 0
  minute := 0
  second := 0
  nanosecond := 0

def getTime (timeBits dateBits : ℕ) : Time :=
  { getDate dateBits with
    hour := timeBits >>> 11
    minute := (timeBits >>> 5) &&& 63
    second := (timeBits &&& 31) <<< 1 }

def getBirth (fraction timeBits dateBits : ℕ) : Time :=
  { getTime timeBits dateBits with
    second := (timeBits &&& 31) * 2 + fraction / 100
    nanosecond := fraction % 100 * 1000000 }

/-- The node that is read from the entry at offset `e` of a cluster. -/
def getNode (fs : Filesystem) (cluster e : ℕ) (data : Buffer) : Node where
  pointer := cluster * fs.clusterSize ||| e
  readonly := data (e + 11) &&& 0x01 ≠ 0
  directory := data (e + 11) &&& 0x10 ≠ 0
  cluster := get 2 data (e + 26) ||| (get 2 data (e + 20)) <<< 16
  size := get 4 data (e + 28)
  timeAccess := getDate (get 2 data (e + 18))
  timeModify := getTime (get 2 data (e + 22)) (get 2 data (e + 24))
  timeBirth := getBirth (data (e + 13)).toNat (get 2 data (e + 14)) (get 2 data (e + 16))

/-- The loop of `fat32_node_lookup`, with fuel. -/
def lookupFrom (fs : Filesystem) (first : ℕ) (name : ShortName) :
    ℕ → Volume → Chunk → ℕ → Option (Option Node × Volume)
  | 0, _, _, _ => none
  | fuel + 1, v, chunk, offset =>
    let (read, chunk, v) := chunkRead fs v first offset chunk
    if read then
      let data := chunk.data.getD cleared
      let e := offset &&& (fs.clusterSize - 1)
      if data e = 0 then some (none, v)
      else if Skipped data e ∨ ¬Named name data e then
        lookupFrom fs first name fuel v chunk ((offset + 32) % 2 ^ 64)
      else some (some (getNode fs chunk.cluster e data), v)
    else some (none, v)

/-- `fat32_node_lookup`, for the short name that is made of the name. -/
def nodeLookup (fs : Filesystem) (v : Volume) (parent : Node) (name : ShortName) (fuel : ℕ) :
    Option (Option Node × Volume) :=
  if parent.directory then lookupFrom fs parent.cluster name fuel v chunkInit 0
  else some (none, v)

/-! ### What a lookup sees -/

/-- The bytes of a cluster. -/
def clusterBytes (fs : Filesystem) (disk : ℕ → Buffer) (c : ℕ) : Buffer := fun i =>
  disk (clusterLba fs c + i / sectorSize) (i % sectorSize)

/-- The cluster after `n` others of a chain, `0` behind the last one. -/
def walk (nxt : ℕ → Option ℕ) : ℕ → ℕ → ℕ
  | 0, c => c
  | n + 1, c =>
    match nxt c with
    | none => 0
    | some c' => walk nxt n c'

/-- The number and the cluster of the chunk for an offset, from the ones before. -/
def position (fs : Filesystem) (nxt : ℕ → Option ℕ) (first offset : ℕ) (chunk : ℕ × ℕ) :
    Option (ℕ × ℕ) :=
  let offset := offset / fs.clusterSize
  if chunk.2 ≠ 0 ∧ chunk.1 = offset then some chunk
  else
    let start := if chunk.1 > offset ∨ chunk.2 = 0 then (0, first) else chunk
    let cluster := walk nxt (offset - start.1) start.2
    if cluster = 0 then none else some (offset, cluster)

/-- The entry that a lookup stops at: its cluster and the offset in it. -/
def find (fs : Filesystem) (nxt : ℕ → Option ℕ) (disk : ℕ → Buffer) (first : ℕ)
    (name : ShortName) : ℕ → ℕ × ℕ → ℕ → Option (Option (ℕ × ℕ))
  | 0, _, _ => none
  | fuel + 1, chunk, offset =>
    match position fs nxt first offset chunk with
    | none => some none
    | some chunk =>
      let data := clusterBytes fs disk chunk.2
      let e := offset &&& (fs.clusterSize - 1)
      if data e = 0 then some none
      else if Skipped data e ∨ ¬Named name data e then
        find fs nxt disk first name fuel chunk ((offset + 32) % 2 ^ 64)
      else some (some (chunk.2, e))

section

variable {fs : Filesystem} {v : Volume} {first offset c n : ℕ} {chunk : Chunk}

lemma follow_spec (hr : Regular fs) (n : ℕ) (v : Volume) (c : ℕ) :
    (follow fs v n c).1 = walk (next fs (table fs v)) n c ∧
      (follow fs v n c).2.disk = v.disk ∧ table fs (follow fs v n c).2 = table fs v := by
  induction n generalizing v c with
  | zero => exact ⟨rfl, rfl, rfl⟩
  | succ n ih =>
    have hnext := @getNextCluster_fst fs v c hr.small
    have hdisk : (getNextCluster fs v c).2.disk = v.disk := getClusterValue_disk
    have htable : table fs (getNextCluster fs v c).2 = table fs v := funext table_getNextCluster
    rw [follow, walk]
    dsimp only
    rw [hnext]
    cases hn : next fs (table fs v) c with
    | none => exact ⟨rfl, hdisk, htable⟩
    | some c' =>
      have hvalid : ValidCluster fs c' := by
        rw [next] at hn
        split_ifs at hn with h
        exact Option.some.inj hn ▸ h.2
      rw [Option.getD_some, if_neg hvalid.ne_zero]
      obtain ⟨h1, h2, h3⟩ := ih (getNextCluster fs v c).2 c'
      exact ⟨by rw [h1, htable], h2.trans hdisk, h3.trans htable⟩

/-- The data of a chunk with a cluster are the bytes of the cluster. -/
def Holds (fs : Filesystem) (disk : ℕ → Buffer) (chunk : Chunk) : Prop :=
  chunk.cluster ≠ 0 → ∀ i < fs.clusterSize,
    chunk.data.getD cleared i = clusterBytes fs disk chunk.cluster i

/-- What a volume and a chunk look like from the disk and the chains. -/
structure Seen (fs : Filesystem) (disk : ℕ → Buffer) (nxt : ℕ → Option ℕ) (v : Volume)
    (chunk : Chunk) (pos : ℕ × ℕ) : Prop where
  disk_eq : v.disk = disk
  next_eq : next fs (table fs v) = nxt
  pos_eq : (chunk.offset, chunk.cluster) = pos
  holds : Holds fs disk chunk

variable {disk : ℕ → Buffer} {nxt : ℕ → Option ℕ} {pos : ℕ × ℕ}

lemma chunkRead_spec (hr : Regular fs) (hsize : sectorSize ∣ fs.clusterSize) (hfirst : first ≠ 0)
    (hs : Seen fs disk nxt v chunk pos) (offset : ℕ) :
    ∃ v', (position fs nxt first offset pos = none ∧
        ∃ chunk', chunkRead fs v first offset chunk = (false, chunk', v')) ∨
      ∃ pos' chunk', position fs nxt first offset pos = some pos' ∧
        chunkRead fs v first offset chunk = (true, chunk', v') ∧
        Seen fs disk nxt v' chunk' pos' := by
  obtain ⟨rfl, rfl, rfl, hholds⟩ := hs
  rw [chunkRead, if_neg hfirst, position]
  dsimp only
  by_cases hsame : chunk.cluster ≠ 0 ∧ chunk.offset = offset / fs.clusterSize
  · rw [if_pos hsame, if_pos hsame]
    exact ⟨v, .inr ⟨_, chunk, rfl, rfl, rfl, rfl, rfl, hholds⟩⟩
  · rw [if_neg hsame, if_neg hsame]
    obtain ⟨⟨start, cluster⟩, hstart⟩ : ∃ x : ℕ × ℕ,
        (if chunk.offset > offset / fs.clusterSize ∨ chunk.cluster = 0 then (0, first)
          else (chunk.offset, chunk.cluster)) = x := ⟨_, rfl⟩
    obtain ⟨hwalk, hdisk, htable⟩ := follow_spec hr (offset / fs.clusterSize - start) v cluster
    simp only [hstart]
    refine ⟨(follow fs v (offset / fs.clusterSize - start) cluster).2, ?_⟩
    rw [← hwalk]
    by_cases hzero : (follow fs v (offset / fs.clusterSize - start) cluster).1 = 0
    · rw [if_pos hzero, if_pos hzero]
      exact .inl ⟨rfl, _, rfl⟩
    · rw [if_neg hzero, if_neg hzero]
      refine .inr ⟨_, _, rfl, rfl, hdisk, by rw [htable], rfl, fun _ i hi => ?_⟩
      obtain ⟨k, hk⟩ := hsize
      have hsectors : sectorsPerCluster fs * sectorSize = fs.clusterSize := by
        rw [sectorsPerCluster, hk, Nat.mul_div_cancel_left _ (by decide), Nat.mul_comm]
      rw [Option.getD_some, readCluster, readSectors, if_pos (by omega), hdisk]
      rfl

lemma walk_valid (hc : ValidCluster fs c) (t : ℕ → ℕ) (hne : walk (next fs t) n c ≠ 0) :
    ValidCluster fs (walk (next fs t) n c) := by
  induction n generalizing c with
  | zero => exact hc
  | succ n ih =>
    rw [walk] at hne ⊢
    cases hn : next fs t c with
    | none =>
      rw [hn] at hne
      exact absurd rfl hne
    | some c' =>
      rw [hn] at hne
      rw [next] at hn
      split_ifs at hn with h
      exact ih (Option.some.inj hn ▸ h.2) hne

lemma position_ne_zero {pos' : ℕ × ℕ} (h : position fs nxt first offset pos = some pos') :
    pos'.2 ≠ 0 := by
  rw [position] at h
  dsimp only at h
  by_cases hsame : pos.2 ≠ 0 ∧ pos.1 = offset / fs.clusterSize
  · rw [if_pos hsame] at h
    exact Option.some.inj h ▸ hsame.1
  · rw [if_neg hsame] at h
    generalize (if pos.1 > offset / fs.clusterSize ∨ pos.2 = 0 then (0, first) else pos) = start
      at h
    split_ifs at h with hzero
    exact Option.some.inj h ▸ hzero

lemma position_valid {pos' : ℕ × ℕ} {t : ℕ → ℕ} (hfirst : ValidCluster fs first)
    (hpos : pos.2 ≠ 0 → ValidCluster fs pos.2)
    (h : position fs (next fs t) first offset pos = some pos') : ValidCluster fs pos'.2 := by
  rw [position] at h
  dsimp only at h
  by_cases hsame : pos.2 ≠ 0 ∧ pos.1 = offset / fs.clusterSize
  · rw [if_pos hsame] at h
    exact Option.some.inj h ▸ hpos hsame.1
  · have hstart : ValidCluster fs
        (if pos.1 > offset / fs.clusterSize ∨ pos.2 = 0 then (0, first) else pos).2 := by
      split_ifs with hback
      · exact hfirst
      · exact hpos fun hzero => hback (.inr hzero)
    rw [if_neg hsame] at h
    generalize (if pos.1 > offset / fs.clusterSize ∨ pos.2 = 0 then (0, first) else pos) = start
      at h hstart
    split_ifs at h with hzero
    exact Option.some.inj h ▸ walk_valid hstart t hzero

/-! ### Entries -/

variable {name : ShortName} {e : ℕ} {data data' : Buffer}

/-- What decides about an entry: all of its name, and the attributes without the lowest one. -/
structure SameKey (data data' : Buffer) (e : ℕ) : Prop where
  name : ∀ i < 11, data' (e + i) = data (e + i)
  attributes : data' (e + 11) &&& 0xc8 = data (e + 11) &&& 0xc8

lemma SameKey.first_eq (h : SameKey data data' e) : data' e = data e := h.name 0 (by decide)

lemma SameKey.passed_iff (h : SameKey data data' e) :
    (Skipped data' e ∨ ¬Named name data' e) ↔ (Skipped data e ∨ ¬Named name data e) := by
  have hname : Named name data' e ↔ Named name data e := by
    refine and_congr (forall_congr' fun i => forall_congr' fun hi => ?_)
      (forall_congr' fun i => forall_congr' fun hi => ?_)
    · rw [h.name i (by omega)]
    · rw [Nat.add_assoc, h.name (8 + i) (by omega)]
  have hskipped : Skipped data' e ↔ Skipped data e := by
    rw [Skipped, Skipped, h.first_eq, h.attributes]
  rw [hname, hskipped]

/-- Two buffers with the same entry. -/
def SameEntry (data data' : Buffer) (e : ℕ) : Prop := ∀ i < 32, data' (e + i) = data (e + i)

lemma SameEntry.key (h : SameEntry data data' e) : SameKey data data' e where
  name i hi := h i (by omega)
  attributes := by rw [h 11 (by decide)]

lemma SameEntry.getNode_eq (h : SameEntry data data' e) (c : ℕ) :
    getNode fs c e data' = getNode fs c e data := by
  have hget : ∀ n i, i + n ≤ 32 → get n data' (e + i) = get n data (e + i) := by
    intro n i hi
    refine get_congr_add fun j hj => ?_
    rw [Nat.add_assoc, h (i + j) (by omega)]
  simp only [getNode, h 11 (by decide), h 13 (by decide), hget 2 14 (by decide),
    hget 2 16 (by decide), hget 2 18 (by decide), hget 2 20 (by decide), hget 2 22 (by decide),
    hget 2 24 (by decide), hget 2 26 (by decide), hget 4 28 (by decide)]

lemma entry_lt {k : ℕ} (hpower : fs.clusterSize = 512 * 2 ^ k) (ho : offset % 32 = 0) :
    offset &&& (fs.clusterSize - 1) = offset % fs.clusterSize ∧
      (offset &&& (fs.clusterSize - 1)) + 32 ≤ fs.clusterSize := by
  have hand : offset &&& (fs.clusterSize - 1) = offset % fs.clusterSize := by
    rw [hpower, show 512 * 2 ^ k = 2 ^ (9 + k) by rw [pow_add]; norm_num]
    exact Nat.and_two_pow_sub_one_eq_mod offset (9 + k)
  refine ⟨hand, ?_⟩
  have hpos : 0 < 2 ^ k := Nat.two_pow_pos k
  have hlt := Nat.mod_lt offset (show 0 < fs.clusterSize by omega)
  have hdvd : 32 ∣ fs.clusterSize := ⟨16 * 2 ^ k, by omega⟩
  have hmod : offset % fs.clusterSize % 32 = 0 := by rw [Nat.mod_mod_of_dvd _ hdvd, ho]
  rw [hand]
  omega

lemma lookupFrom_eq (hr : Regular fs) {k : ℕ} (hpower : fs.clusterSize = 512 * 2 ^ k)
    (hfirst : first ≠ 0) (fuel : ℕ) (hs : Seen fs disk nxt v chunk pos) (ho : offset % 32 = 0) :
    (lookupFrom fs first name fuel v chunk offset).map Prod.fst =
      (find fs nxt disk first name fuel pos offset).map fun stop => stop.map fun (c, e) =>
        getNode fs c e (clusterBytes fs disk c) := by
  induction fuel generalizing v chunk pos offset with
  | zero => rfl
  | succ fuel ih =>
    obtain ⟨v', ⟨hnone, chunk', hread⟩ | ⟨pos', chunk', hsome, hread, hs'⟩⟩ :=
      chunkRead_spec hr ⟨2 ^ k, hpower⟩ hfirst hs offset
    · rw [lookupFrom, find, hread, hnone]
      rfl
    · have hpos : chunk'.cluster = pos'.2 := congrArg Prod.snd hs'.pos_eq
      have hcluster := position_ne_zero hsome
      have hsame : SameEntry (clusterBytes fs disk pos'.2) (chunk'.data.getD cleared)
          (offset &&& (fs.clusterSize - 1)) := by
        intro i hi
        have hlt := (entry_lt hpower ho).2
        rw [hs'.holds (by rwa [hpos]) _ (by omega), hpos]
      rw [lookupFrom, find, hread, hsome]
      simp only [if_true, hsame.key.first_eq]
      by_cases hend : clusterBytes fs disk pos'.2 (offset &&& (fs.clusterSize - 1)) = 0
      · rw [if_pos hend, if_pos hend]
        rfl
      · rw [if_neg hend, if_neg hend]
        by_cases hpass : Skipped (clusterBytes fs disk pos'.2) (offset &&& (fs.clusterSize - 1)) ∨
            ¬Named name (clusterBytes fs disk pos'.2) (offset &&& (fs.clusterSize - 1))
        · rw [if_pos (hsame.key.passed_iff.mpr hpass), if_pos hpass]
          exact ih hs' (by omega)
        · rw [if_neg (mt hsame.key.passed_iff.mp hpass), if_neg hpass]
          simp only [Option.map_some, hpos, hsame.getNode_eq]

lemma find_stop {t : ℕ → ℕ} {k fuel : ℕ} (hpower : fs.clusterSize = 512 * 2 ^ k)
    (hfirst : ValidCluster fs first) (hpos : pos.2 ≠ 0 → ValidCluster fs pos.2)
    (ho : offset % 32 = 0)
    (h : find fs (next fs t) disk first name fuel pos offset = some (some (c, e))) :
    ValidCluster fs c ∧ e % 32 = 0 ∧ e + 32 ≤ fs.clusterSize := by
  induction fuel generalizing pos offset with
  | zero => cases h
  | succ fuel ih =>
    rw [find] at h
    cases hp : position fs (next fs t) first offset pos with
    | none =>
      rw [hp] at h
      cases h
    | some pos' =>
      have hvalid := position_valid hfirst hpos hp
      rw [hp] at h
      dsimp only at h
      split_ifs at h with hend hpass
      · cases h
      · exact ih (fun _ => hvalid) (by omega) h
      · cases h
        obtain ⟨hand, hle⟩ := entry_lt hpower ho
        have hdvd : 32 ∣ fs.clusterSize := ⟨16 * 2 ^ k, by omega⟩
        exact ⟨hvalid, by rw [hand, Nat.mod_mod_of_dvd _ hdvd, ho], hle⟩

lemma find_congr {disk' : ℕ → Buffer} {k fuel : ℕ} (hpower : fs.clusterSize = 512 * 2 ^ k)
    (hsame : ∀ c e, e % 32 = 0 → SameKey (clusterBytes fs disk c) (clusterBytes fs disk' c) e)
    (ho : offset % 32 = 0) : find fs nxt disk' first name fuel pos offset =
      find fs nxt disk first name fuel pos offset := by
  induction fuel generalizing pos offset with
  | zero => rfl
  | succ fuel ih =>
    have hdvd : 32 ∣ fs.clusterSize := ⟨16 * 2 ^ k, by omega⟩
    have hentry : (offset &&& (fs.clusterSize - 1)) % 32 = 0 := by
      rw [(entry_lt hpower ho).1, Nat.mod_mod_of_dvd _ hdvd, ho]
    rw [find, find]
    cases position fs nxt first offset pos with
    | none => rfl
    | some pos' =>
      have hkey := hsame pos'.2 _ hentry
      simp only [hkey.first_eq, hkey.passed_iff]
      rw [ih (by omega)]

end

/-! ### Flushing -/

section

variable {node : Node} {b : Buffer} {e i : ℕ}

lemma put_other {n off w : ℕ} (h : i < off ∨ off + n ≤ i) : put n b off w i = b i := by
  rcases h with h | h
  · exact put_of_lt h
  · exact put_of_ge h

lemma putNode_other (h : i < e + 11 ∨ i = e + 12 ∨ e + 32 ≤ i) : putNode node e b i = b i := by
  rw [putNode, put_other (by omega), put_other (by omega), put_other (by omega),
    put_other (by omega), put_other (by omega), put_other (by omega), put_other (by omega),
    put_other (by omega), put_other (by omega), put_other (by omega)]

lemma putNode_attributes : putNode node e b (e + 11) =
    (b (e + 11) &&& 0xfe) ||| (if node.readonly then 1 else 0) := by
  rw [putNode, put_other (by omega), put_other (by omega), put_other (by omega),
    put_other (by omega), put_other (by omega), put_other (by omega), put_other (by omega),
    put_other (by omega), put_other (by omega), put, if_pos (by omega), Nat.sub_self, pow_zero,
    Nat.div_one,
    UInt8.ofNat_toNat]

lemma attributes_key (r : Bool) (x : UInt8) :
    ((x &&& 0xfe) ||| (if r then 1 else 0)) &&& 0xc8 = x &&& 0xc8 := by
  have hbits : ∀ (r : Bool) (x : BitVec 8),
      ((x &&& 0xfe#8) ||| (if r then 1#8 else 0#8)) &&& 0xc8#8 = x &&& 0xc8#8 := by decide
  apply UInt8.toBitVec_inj.mp
  have h := hbits r x.toBitVec
  cases r <;> exact h

lemma attributes_readonly (r : Bool) (x : UInt8) :
    ((x &&& 0xfe) ||| (if r then 1 else 0)) &&& 0x01 ≠ 0 ↔ r = true := by
  have hbits : ∀ (r : Bool) (x : BitVec 8),
      ((x &&& 0xfe#8) ||| (if r then 1#8 else 0#8)) &&& 1#8 ≠ 0#8 ↔ r = true := by decide
  refine Iff.trans (not_congr ?_) (hbits r x.toBitVec)
  rw [← UInt8.toBitVec_inj]
  cases r <;> exact Iff.rfl

lemma putNode_congr {b' : Buffer} (hi : b' i = b i) (he : b' (e + 11) = b (e + 11)) :
    putNode node e b' i = putNode node e b i := by
  simp only [putNode, he, put, hi]

end

section

variable {fs : Filesystem} {v : Volume} {node : Node} {c e k : ℕ}

lemma pointer_parts (hpower : fs.clusterSize = 512 * 2 ^ k) (he : e < fs.clusterSize) :
    (c * fs.clusterSize ||| e) / fs.clusterSize = c ∧
      (c * fs.clusterSize ||| e) &&& (fs.clusterSize - 1) = e ∧
      (c * fs.clusterSize ||| e) % fs.clusterSize = e := by
  have hsize : fs.clusterSize = 2 ^ (9 + k) := by
    rw [hpower, pow_add]
    norm_num
  rw [hsize] at he ⊢
  have hor : c * 2 ^ (9 + k) ||| e = c * 2 ^ (9 + k) + e := by
    rw [← Nat.shiftLeft_eq, Nat.shiftLeft_add_eq_or_of_lt he]
  have hmod : (2 ^ (9 + k) * c + e) % 2 ^ (9 + k) = e := by
    rw [Nat.mul_add_mod, Nat.mod_eq_of_lt he]
  rw [hor, Nat.and_two_pow_sub_one_eq_mod, Nat.mul_comm]
  exact ⟨by rw [Nat.mul_add_div (Nat.two_pow_pos _), Nat.div_eq_of_lt he, Nat.add_zero], hmod,
    hmod⟩

lemma clusterLba_eq (hr : Regular fs) (hc : ValidCluster fs c) :
    clusterLba fs c = fs.firstClusterLba + c - 2 := by
  have hlast := hr.last
  obtain ⟨hge, hlt⟩ := hc
  rw [clusterLba]
  omega

lemma sectors_eq (hpower : fs.clusterSize = 512 * 2 ^ k) :
    sectorsPerCluster fs * sectorSize = fs.clusterSize := by
  rw [sectorsPerCluster, hpower, sectorSize, Nat.mul_div_cancel_left _ (by decide), Nat.mul_comm]

/-- The disk after the entry at offset `e` of a cluster was written. -/
def flushed (fs : Filesystem) (disk : ℕ → Buffer) (node : Node) (c e : ℕ) : ℕ → Buffer :=
  writeSectors disk (clusterLba fs c) (sectorsPerCluster fs)
    (putNode node e (readSectors disk (clusterLba fs c) (sectorsPerCluster fs) cleared))

lemma nodeFlush_eq (hr : Regular fs) (hpower : fs.clusterSize = 512 * 2 ^ k)
    (hc : ValidCluster fs c) (he : e < fs.clusterSize)
    (hpointer : node.pointer = c * fs.clusterSize ||| e) :
    nodeFlush fs v node = (true, { v with disk := flushed fs v.disk node c e }) := by
  obtain ⟨hdiv, hand, -⟩ := @pointer_parts fs c e k hpower he
  have hlba : entryLba fs node = clusterLba fs c := by
    have hlast := hr.last
    obtain ⟨hge, hlt⟩ := id hc
    rw [entryLba, hpointer, hdiv, clusterLba_eq hr hc]
    omega
  have hne : node.pointer ≠ 0 := by
    intro hzero
    rw [hpointer] at hzero
    rw [hzero, Nat.zero_div] at hdiv
    exact hc.ne_zero hdiv.symm
  rw [nodeFlush, if_neg hne, hlba, hpointer, hand]
  rfl

lemma readSectors_cluster (hpower : fs.clusterSize = 512 * 2 ^ k) (disk : ℕ → Buffer) (c : ℕ)
    {i : ℕ} (hi : i < fs.clusterSize) : readSectors disk (clusterLba fs c)
      (sectorsPerCluster fs) cleared i = clusterBytes fs disk c i := by
  rw [readSectors, if_pos (by rwa [sectors_eq hpower])]
  rfl

lemma flushed_byte (hpower : fs.clusterSize = 512 * 2 ^ k) (disk : ℕ → Buffer) (node : Node)
    (c : ℕ) (he : e + 32 ≤ fs.clusterSize) (s j : ℕ) :
    flushed fs disk node c e s j = disk s j ∨
      ∃ i, s = clusterLba fs c + i / sectorSize ∧ j = i % sectorSize ∧
        flushed fs disk node c e s j = putNode node e (clusterBytes fs disk c) i := by
  rw [flushed, writeSectors]
  by_cases hin : clusterLba fs c ≤ s ∧ s < clusterLba fs c + sectorsPerCluster fs ∧ j < sectorSize
  · rw [if_pos hin]
    obtain ⟨hge, hlt, hj⟩ := hin
    have hsectors := sectors_eq hpower
    rw [sectorSize] at hj hsectors ⊢
    have hindex : (s - clusterLba fs c) * 512 + j < fs.clusterSize := by omega
    generalize hi : (s - clusterLba fs c) * 512 + j = i at hindex ⊢
    exact .inr ⟨i, by omega, by omega, putNode_congr (readSectors_cluster hpower disk c hindex)
      (readSectors_cluster hpower disk c (by omega))⟩
  · rw [if_neg hin]
    exact .inl rfl

lemma clusterBytes_flushed (hpower : fs.clusterSize = 512 * 2 ^ k) (disk : ℕ → Buffer)
    (node : Node) (he : e + 32 ≤ fs.clusterSize) {i : ℕ} (hi : i < fs.clusterSize) :
    clusterBytes fs (flushed fs disk node c e) c i = putNode node e (clusterBytes fs disk c) i := by
  have hsectors := sectors_eq hpower
  rw [sectorSize] at hsectors
  rw [clusterBytes, flushed, writeSectors, sectorSize, if_pos (by omega)]
  rw [Nat.add_sub_cancel_left, Nat.div_add_mod']
  exact putNode_congr (readSectors_cluster hpower disk c hi)
    (readSectors_cluster hpower disk c (by omega))

lemma flushed_key (hpower : fs.clusterSize = 512 * 2 ^ k) (disk : ℕ → Buffer) (node : Node)
    (he : e % 32 = 0) (hle : e + 32 ≤ fs.clusterSize) (c' e' : ℕ) (he' : e' % 32 = 0) :
    SameKey (clusterBytes fs disk c') (clusterBytes fs (flushed fs disk node c e) c') e' := by
  have hbyte : ∀ i < 12, clusterBytes fs (flushed fs disk node c e) c' (e' + i) =
      clusterBytes fs disk c' (e' + i) ∨ i = 11 ∧
      clusterBytes fs (flushed fs disk node c e) c' (e' + i) =
        (clusterBytes fs disk c' (e' + i) &&& 0xfe) ||| (if node.readonly then 1 else 0) := by
    intro i hi
    rcases @flushed_byte fs e k hpower disk node c hle (clusterLba fs c' + (e' + i) / sectorSize)
        ((e' + i) % sectorSize) with hsame | ⟨x, hs, hj, hx⟩
    · exact .inl hsame
    · have hdata : clusterBytes fs disk c x = clusterBytes fs disk c' (e' + i) := by
        rw [clusterBytes, clusterBytes, hs, hj]
      rw [sectorSize] at hj
      by_cases hattr : x = e + 11
      · refine .inr ⟨by omega, ?_⟩
        rw [← hdata, hattr, ← putNode_attributes, ← hattr]
        exact hx
      · refine .inl ?_
        rw [← hdata, ← @putNode_other node (clusterBytes fs disk c) e x (by omega)]
        exact hx
  constructor
  · intro i hi
    rcases hbyte i (by omega) with h | ⟨h, -⟩
    · exact h
    · omega
  · rcases hbyte 11 (by decide) with h | ⟨-, h⟩
    · rw [h]
    · rw [h, attributes_key]

end

/-! ### Reading what was written -/

section

variable {node : Node} {b : Buffer} {e : ℕ}

lemma get_putNode (node : Node) (b : Buffer) (e : ℕ) :
    (putNode node e b (e + 13)).toNat =
        (node.timeBirth.second % 2 * 100 + node.timeBirth.nanosecond / 1000000) % 256 ∧
      get 2 (putNode node e b) (e + 14) = node.timeBirth.timeBits % 2 ^ 16 ∧
      get 2 (putNode node e b) (e + 16) = node.timeBirth.dateBits % 2 ^ 16 ∧
      get 2 (putNode node e b) (e + 18) = node.timeAccess.dateBits % 2 ^ 16 ∧
      get 2 (putNode node e b) (e + 20) = (node.cluster >>> 16) % 2 ^ 16 ∧
      get 2 (putNode node e b) (e + 22) = node.timeModify.timeBits % 2 ^ 16 ∧
      get 2 (putNode node e b) (e + 24) = node.timeModify.dateBits % 2 ^ 16 ∧
      get 2 (putNode node e b) (e + 26) = node.cluster % 2 ^ 16 ∧
      get 4 (putNode node e b) (e + 28) = node.size % 2 ^ 32 := by
  have hdisjoint : ∀ (n k : ℕ) (m : Buffer) (off w o : ℕ), o + k ≤ off ∨ off + n ≤ o →
      get k (put n m off w) o = get k m o := fun n k m off w o h => get_put_of_disjoint h
  have hself2 : ∀ (m : Buffer) (off w : ℕ), get 2 (put 2 m off w) off = w % 2 ^ 16 :=
    get_put_self 2
  have hself4 : ∀ (m : Buffer) (off w : ℕ), get 4 (put 4 m off w) off = w % 2 ^ 32 :=
    get_put_self 4
  refine ⟨?_, ?_, ?_, ?_, ?_, ?_, ?_, ?_, ?_⟩
  · rw [putNode, put_other (by omega), put_other (by omega), put_other (by omega),
      put_other (by omega), put_other (by omega), put_other (by omega), put_other (by omega),
      put_other (by omega), put, if_pos (by omega), Nat.sub_self, pow_zero, Nat.div_one,
      UInt8.toNat_ofNat']
  · rw [putNode, hdisjoint 4 2 _ _ _ _ (by omega), hdisjoint 2 2 _ _ _ _ (by omega),
      hdisjoint 2 2 _ _ _ _ (by omega), hdisjoint 2 2 _ _ _ _ (by omega),
      hdisjoint 2 2 _ _ _ _ (by omega), hdisjoint 2 2 _ _ _ _ (by omega),
      hdisjoint 2 2 _ _ _ _ (by omega), hself2]
  · rw [putNode, hdisjoint 4 2 _ _ _ _ (by omega), hdisjoint 2 2 _ _ _ _ (by omega),
      hdisjoint 2 2 _ _ _ _ (by omega), hdisjoint 2 2 _ _ _ _ (by omega),
      hdisjoint 2 2 _ _ _ _ (by omega), hdisjoint 2 2 _ _ _ _ (by omega), hself2]
  · rw [putNode, hdisjoint 4 2 _ _ _ _ (by omega), hdisjoint 2 2 _ _ _ _ (by omega),
      hdisjoint 2 2 _ _ _ _ (by omega), hdisjoint 2 2 _ _ _ _ (by omega),
      hdisjoint 2 2 _ _ _ _ (by omega), hself2]
  · rw [putNode, hdisjoint 4 2 _ _ _ _ (by omega), hdisjoint 2 2 _ _ _ _ (by omega),
      hdisjoint 2 2 _ _ _ _ (by omega), hdisjoint 2 2 _ _ _ _ (by omega), hself2]
  · rw [putNode, hdisjoint 4 2 _ _ _ _ (by omega), hdisjoint 2 2 _ _ _ _ (by omega),
      hdisjoint 2 2 _ _ _ _ (by omega), hself2]
  · rw [putNode, hdisjoint 4 2 _ _ _ _ (by omega), hdisjoint 2 2 _ _ _ _ (by omega),
      hself2]
  · rw [putNode, hdisjoint 4 2 _ _ _ _ (by omega), hself2]
  · rw [putNode, hself4]

end

/-- The times of an entry: the years have seven bits. -/
structure Time.InRange (t : Time) : Prop where
  year_ge : 1980 ≤ t.year
  year_le : t.year ≤ 2107
  month_pos : 1 ≤ t.month
  month_le : t.month ≤ 12
  day_pos : 1 ≤ t.day
  day_le : t.day ≤ 31
  hour_lt : t.hour < 24
  minute_lt : t.minute < 60
  second_lt : t.second < 60
  nanosecond_lt : t.nanosecond < 1000000000

def SameDate (t t' : Time) : Prop := t'.year = t.year ∧ t'.month = t.month ∧ t'.day = t.day

/-- The bits of the month fall on the three lowest ones of the year; they are the same ones. -/
def Time.MonthInYear (t : Time) : Prop := (t.year - 1980) % 8 = t.month / 2

section

variable {t : Time}

lemma timeBits_spec (h : t.InRange) : t.timeBits % 2 ^ 16 = t.timeBits ∧
    t.timeBits >>> 11 = t.hour ∧ (t.timeBits >>> 5) &&& 63 = t.minute ∧
    t.timeBits &&& 31 = t.second / 2 := by
  have hhour := h.hour_lt
  have hminute := h.minute_lt
  have hsecond := h.second_lt
  have hlow : t.minute <<< 5 ||| t.second >>> 1 = t.minute * 32 + t.second / 2 := by
    rw [Nat.shiftRight_eq_div_pow, ← Nat.shiftLeft_add_eq_or_of_lt (by omega), Nat.shiftLeft_eq]
  have hall : t.timeBits = t.hour * 2048 + (t.minute * 32 + t.second / 2) := by
    rw [Time.timeBits, Nat.or_assoc, hlow, ← Nat.shiftLeft_add_eq_or_of_lt (by omega),
      Nat.shiftLeft_eq]
  have h63 : (t.timeBits >>> 5) &&& 63 = t.timeBits / 32 % 64 := by
    rw [Nat.shiftRight_eq_div_pow]
    exact Nat.and_two_pow_sub_one_eq_mod _ 6
  have h31 : t.timeBits &&& 31 = t.timeBits % 32 := Nat.and_two_pow_sub_one_eq_mod _ 5
  rw [h63, h31, Nat.shiftRight_eq_div_pow, hall]
  omega

/-- The year and the month that are read are those that were written just when they agree in the
bits that they share. -/
lemma year_and_month : ∀ y < 128, ∀ m < 13,
    ((y <<< 1 ||| m) >>> 1 = y ∧ (y <<< 1 ||| m) &&& 15 = m) ↔ y % 8 = m / 2 := by
  decide +kernel

lemma getDate_iff (h : t.InRange) :
    SameDate t (getDate (t.dateBits % 2 ^ 16)) ↔ t.MonthInYear := by
  obtain ⟨y, hy⟩ : ∃ y, t.year = 1980 + y := ⟨t.year - 1980, by have := h.year_ge; omega⟩
  have hyear := h.year_le
  have hmonth := h.month_le
  have hday := h.day_le
  have hylt : y < 128 := by omega
  have hshared := year_and_month y hylt t.month (by omega)
  obtain ⟨x, hx⟩ : ∃ x, y <<< 1 ||| t.month = x := ⟨_, rfl⟩
  have hxlt : x < 2 ^ 8 := by
    rw [← hx]
    exact Nat.or_lt_two_pow (by rw [Nat.shiftLeft_eq]; omega) (by omega)
  have hbits : t.dateBits % 2 ^ 16 = x * 256 + t.day := by
    have hwide : ((t.year + 2 ^ 16 - 1980) <<< 9 ||| t.month <<< 8) =
        (2 ^ 17 ||| x) <<< 8 := by
      rw [← hx, hy, show 1980 + y + 2 ^ 16 - 1980 = 2 ^ 16 + y by omega,
        Nat.shiftLeft_or_distrib, Nat.shiftLeft_or_distrib]
      rw [← Nat.or_assoc, ← Nat.shiftLeft_or_distrib]
      congr 1
      rw [show 2 ^ 17 = 2 ^ 16 <<< 1 from rfl, ← Nat.shiftLeft_or_distrib, ← Nat.shiftLeft_add]
      congr 1
      rw [show (2 : ℕ) ^ 16 = 1 <<< 16 from rfl]
      exact Nat.shiftLeft_add_eq_or_of_lt (by omega) 1
    rw [Time.dateBits, hwide, ← Nat.shiftLeft_add_eq_or_of_lt (by omega), Nat.shiftLeft_eq]
    have hor : 2 ^ 17 ||| x = 2 ^ 17 + x := by
      rw [show (2 : ℕ) ^ 17 = 1 <<< 17 from rfl]
      exact (Nat.shiftLeft_add_eq_or_of_lt (by omega) 1).symm
    rw [hor]
    omega
  rw [hx] at hshared
  have h15 : ((x * 256 + t.day) >>> 8) &&& 15 = x &&& 15 := by
    rw [Nat.shiftRight_eq_div_pow]
    congr 1
    omega
  have h31 : (x * 256 + t.day) &&& 31 = (x * 256 + t.day) % 32 :=
    Nat.and_two_pow_sub_one_eq_mod _ 5
  have h9 : (x * 256 + t.day) >>> 9 = x >>> 1 := by
    rw [Nat.shiftRight_eq_div_pow, Nat.shiftRight_eq_div_pow]
    omega
  rw [SameDate, getDate, hbits, Time.MonthInYear, hy]
  dsimp only
  rw [h9, h15, h31, Nat.add_sub_cancel_left, ← hshared]
  constructor
  · rintro ⟨h1, h2, -⟩
    exact ⟨by omega, h2⟩
  · rintro ⟨h1, h2⟩
    exact ⟨by omega, h2, by omega⟩

end

/-! ### Round trips -/

/-- A node whose entry a lookup finds in a directory, with new data to be written. -/
structure Rewrite where
  fs : Filesystem
  v : Volume
  parent : Node
  name : ShortName
  fuel : ℕ
  found : Node
  node : Node
  regular : Regular fs
  power : ∃ k, fs.clusterSize = 512 * 2 ^ k
  parent_valid : ValidCluster fs parent.cluster
  lookup : (nodeLookup fs v parent name fuel).map Prod.fst = some (some found)
  pointer : node.pointer = found.pointer
  cluster_lt : node.cluster < 2 ^ 32
  size_lt : node.size < 2 ^ 32
  birth : node.timeBirth.InRange
  modify : node.timeModify.InRange
  access : node.timeAccess.InRange

/-- The data of an entry: the birth to ten milliseconds, the modification to two seconds. -/
structure SameData (node node' : Node) : Prop where
  cluster : node'.cluster = node.cluster
  size : node'.size = node.size
  readonly : node'.readonly = node.readonly
  birthDate : SameDate node.timeBirth node'.timeBirth
  birthHour : node'.timeBirth.hour = node.timeBirth.hour
  birthMinute : node'.timeBirth.minute = node.timeBirth.minute
  birthSecond : node'.timeBirth.second * 100 + node'.timeBirth.nanosecond / 10000000 =
    node.timeBirth.second * 100 + node.timeBirth.nanosecond / 10000000
  modifyDate : SameDate node.timeModify node'.timeModify
  modifyHour : node'.timeModify.hour = node.timeModify.hour
  modifyMinute : node'.timeModify.minute = node.timeModify.minute
  modifySecond : node'.timeModify.second / 2 = node.timeModify.second / 2
  accessDate : SameDate node.timeAccess node'.timeAccess

/-- All other entries of the cluster of a node are as they were. -/
def OthersKept (fs : Filesystem) (disk disk' : ℕ → Buffer) (pointer : ℕ) : Prop :=
  ∀ i < fs.clusterSize, (i < pointer % fs.clusterSize ∨ pointer % fs.clusterSize + 32 ≤ i) →
    clusterBytes fs disk' (pointer / fs.clusterSize) i =
      clusterBytes fs disk (pointer / fs.clusterSize) i

def Rewrite.RoundTrips (x : Rewrite) : Prop :=
  ∃ v' node', nodeFlush x.fs x.v x.node = (true, v') ∧
    (nodeLookup x.fs v' x.parent x.name x.fuel).map Prod.fst = some (some node') ∧
    SameData x.node node' ∧ OthersKept x.fs x.v.disk v'.disk x.node.pointer

/-- When the months do not change the years, and the other way, and the birth is early enough in
its second. -/
structure Encodable (node : Node) : Prop where
  birth : node.timeBirth.MonthInYear
  modify : node.timeModify.MonthInYear
  access : node.timeAccess.MonthInYear
  nanosecond_lt : node.timeBirth.nanosecond < 100000000

section

variable {fs : Filesystem} {v : Volume} {parent node : Node} {name : ShortName} {fuel : ℕ}

lemma nodeLookup_eq (hr : Regular fs) (hpower : ∃ k, fs.clusterSize = 512 * 2 ^ k)
    (hparent : ValidCluster fs parent.cluster) :
    (nodeLookup fs v parent name fuel).map Prod.fst =
      if parent.directory then
        (find fs (next fs (table fs v)) v.disk parent.cluster name fuel (0, 0) 0).map
          fun stop => stop.map fun (c, e) => getNode fs c e (clusterBytes fs v.disk c)
      else some none := by
  obtain ⟨k, hpower⟩ := hpower
  rw [nodeLookup]
  split_ifs
  · exact lookupFrom_eq hr hpower hparent.ne_zero fuel
      ⟨rfl, rfl, rfl, fun h => absurd rfl h⟩ rfl
  · rfl

lemma next_flushed {c e : ℕ} (hr : Regular fs) (hc : ValidCluster fs c) :
    next fs (table fs { v with disk := flushed fs v.disk node c e }) = next fs (table fs v) := by
  have hsame : SameTable fs v { v with disk := flushed fs v.disk node c e } := by
    intro c' hc'
    refine table_write ?_
    have hentries := hr.entries
    have hlt : c' / entriesPerSector < fs.sectorsPerFat := by
      rw [Nat.div_lt_iff_lt_mul (by decide), Nat.mul_comm]
      exact lt_of_lt_of_le hc'.2 hentries
    have hcopies : fs.sectorsPerFat ≤ fs.fatCount * fs.sectorsPerFat :=
      Nat.le_mul_of_pos_left _ hr.fatCount_pos
    have hge := hc.1
    rw [clusterLba_eq hr hc, hr.first]
    omega
  exact funext hsame.next_eq

/-- **The lookup after the flush** finds the entry at the same place, with what was written. -/
lemma lookup_flushed (x : Rewrite) : ∃ v' c e, nodeFlush x.fs x.v x.node = (true, v') ∧
    (nodeLookup x.fs v' x.parent x.name x.fuel).map Prod.fst =
      some (some (getNode x.fs c e (putNode x.node e (clusterBytes x.fs x.v.disk c)))) ∧
    OthersKept x.fs x.v.disk v'.disk x.node.pointer := by
  obtain ⟨k, hpower⟩ := x.power
  have hlookup := x.lookup
  rw [nodeLookup_eq x.regular ⟨k, hpower⟩ x.parent_valid] at hlookup
  split_ifs at hlookup with hdirectory
  · obtain ⟨stop, hstop, hfound⟩ := Option.map_eq_some_iff.mp hlookup
    obtain ⟨⟨c, e⟩, rfl, hnode⟩ := Option.map_eq_some_iff.mp hfound
    obtain ⟨hc, he, hle⟩ := find_stop hpower x.parent_valid (fun h => absurd rfl h) rfl hstop
    have hpointer : x.node.pointer = c * x.fs.clusterSize ||| e := by
      rw [x.pointer, ← hnode]
      rfl
    obtain ⟨hdiv, -, hmod⟩ := @pointer_parts x.fs c e k hpower (by omega)
    refine ⟨_, c, e, nodeFlush_eq x.regular hpower hc (by omega) hpointer, ?_, ?_⟩
    · rw [nodeLookup_eq x.regular ⟨k, hpower⟩ x.parent_valid, if_pos hdirectory,
        next_flushed x.regular hc,
        find_congr hpower (flushed_key hpower x.v.disk x.node he hle) rfl, hstop]
      have hentry : SameEntry (putNode x.node e (clusterBytes x.fs x.v.disk c))
          (clusterBytes x.fs (flushed x.fs x.v.disk x.node c e) c) e := fun i hi =>
        clusterBytes_flushed hpower x.v.disk x.node hle (by omega)
      rw [Option.map_some, Option.map_some]
      dsimp only
      rw [hentry.getNode_eq]
    · intro i hi hother
      rw [hpointer, hmod] at hother
      rw [hpointer, hdiv, clusterBytes_flushed hpower x.v.disk x.node hle hi]
      exact putNode_other (by omega)
  · cases hlookup

/-- The fraction of the birth has eight bits, and is written in milliseconds. -/
lemma birthSecond_iff {second nanosecond : ℕ} (hnanosecond : nanosecond < 1000000000) :
    (second / 2 * 2 + (second % 2 * 100 + nanosecond / 1000000) % 256 / 100) * 100 +
        (second % 2 * 100 + nanosecond / 1000000) % 256 % 100 * 1000000 / 10000000 =
        second * 100 + nanosecond / 10000000 ↔ nanosecond < 100000000 := by
  obtain ⟨q, hq⟩ : ∃ q, nanosecond / 1000000 = q := ⟨_, rfl⟩
  have hten : nanosecond / 10000000 = q / 10 := by omega
  have hlt : nanosecond < 100000000 ↔ q < 100 := by omega
  have hq1 : q < 1000 := by omega
  have hback : ∀ x, x * 1000000 / 10000000 = x / 10 := fun x => by omega
  rw [hq, hten, hlt, hback]
  rcases Nat.mod_two_eq_zero_or_one second with h | h
  · rw [h]
    omega
  · rw [h]
    omega

lemma cluster_halves {cluster : ℕ} (h : cluster < 2 ^ 32) :
    cluster % 2 ^ 16 ||| (cluster >>> 16 % 2 ^ 16) <<< 16 = cluster := by
  rw [Nat.or_comm, ← Nat.shiftLeft_add_eq_or_of_lt (Nat.mod_lt _ (by norm_num)),
    Nat.shiftLeft_eq, Nat.shiftRight_eq_div_pow]
  omega

lemma sameData_iff {b : Buffer} {c e : ℕ} (hcluster : node.cluster < 2 ^ 32)
    (hsize : node.size < 2 ^ 32) (hbirth : node.timeBirth.InRange)
    (hmodify : node.timeModify.InRange) (haccess : node.timeAccess.InRange) :
    SameData node (getNode fs c e (putNode node e b)) ↔ Encodable node := by
  obtain ⟨hfraction, hbt, hbd, had, hhigh, hmt, hmd, hlow, hget⟩ := get_putNode node b e
  obtain ⟨hbmod, hbhour, hbminute, hbsecond⟩ := timeBits_spec hbirth
  obtain ⟨hmmod, hmhour, hmminute, hmsecond⟩ := timeBits_spec hmodify
  have hreadonly : decide (putNode node e b (e + 11) &&& 0x01 ≠ 0) = node.readonly := by
    rw [putNode_attributes]
    exact Bool.eq_iff_iff.mpr (decide_eq_true_iff.trans (attributes_readonly node.readonly _))
  have hbirthDate := getDate_iff hbirth
  have hmodifyDate := getDate_iff hmodify
  have haccessDate := getDate_iff haccess
  have hseconds := @birthSecond_iff node.timeBirth.second _ hbirth.nanosecond_lt
  constructor
  · intro h
    have hb := h.birthDate
    have hm := h.modifyDate
    have ha := h.accessDate
    have hs := h.birthSecond
    simp only [getNode, getBirth, getTime, hbt, hbd, hbmod, hmt, hmd, had, hfraction, hbsecond]
      at hb hm ha hs
    exact ⟨hbirthDate.mp hb, hmodifyDate.mp hm, haccessDate.mp ha, hseconds.mp hs⟩
  · intro h
    constructor
    · simp only [getNode, hlow, hhigh, cluster_halves hcluster]
    · simp only [getNode, hget, Nat.mod_eq_of_lt hsize]
    · exact hreadonly
    · simp only [getNode, getBirth, getTime, hbt, hbd]
      exact hbirthDate.mpr h.birth
    · simp only [getNode, getBirth, getTime, hbt, hbmod, hbhour]
    · simp only [getNode, getBirth, getTime, hbt, hbmod, hbminute]
    · simp only [getNode, getBirth, getTime, hbt, hbmod, hbsecond, hfraction]
      exact hseconds.mpr h.nanosecond_lt
    · simp only [getNode, getTime, hmt, hmd]
      exact hmodifyDate.mpr h.modify
    · simp only [getNode, getTime, hmt, hmmod, hmhour]
    · simp only [getNode, getTime, hmt, hmmod, hmminute]
    · simp only [getNode, getTime, hmt, hmmod, hmsecond, Nat.shiftLeft_eq]
      omega
    · simp only [getNode, had]
      exact haccessDate.mpr h.access

/-- **A lookup after a flush** returns what was written just when the node can be encoded. -/
theorem roundTrips_iff (x : Rewrite) : x.RoundTrips ↔ Encodable x.node := by
  obtain ⟨v', c, e, hflush, hlookup, hothers⟩ := lookup_flushed x
  have hsame := @sameData_iff x.fs x.node (clusterBytes x.fs x.v.disk c) c e x.cluster_lt
    x.size_lt x.birth x.modify x.access
  constructor
  · rintro ⟨v'', node', hflush', hlookup', hdata, -⟩
    rw [hflush] at hflush'
    cases hflush'
    rw [hlookup] at hlookup'
    cases hlookup'
    exact hsame.mp hdata
  · intro h
    exact ⟨v', _, hflush, hlookup, hsame.mpr h, hothers⟩

end

/-! ### A node of January 2024 -/

def newYear : Time := ⟨2024, 1, 1, 0, 0, 0, 0⟩

lemma newYear_inRange : newYear.InRange := by constructor <;> decide

/-- A volume with one entry, of a file with the name `A`. -/
def oneFile : Volume where
  disk b i := if b = 2 then (if i = 0 then 0x41 else if i < 11 then 0x20 else 0) else 0
  fatBitmap _ := false
  fatData := cleared

def smallVolume : Filesystem where
  config := ⟨512, 0, 11⟩
  clusterSize := 512
  reservedSectors := 1
  fatCount := 1
  sectorCount := 12
  sectorsPerFat := 1
  rootDirectoryCluster := 2
  firstClusterLba := 2

lemma smallVolume_regular : Regular smallVolume := by constructor <;> decide

def oneFileName : ShortName := ⟨fun i => if i = 0 then 0x41 else 0x20, fun _ => 0x20⟩

lemma oneFile_find : find smallVolume (next smallVolume (table smallVolume oneFile)) oneFile.disk
    2 oneFileName 1 (0, 0) 0 = some (some (2, 0)) := by
  rw [find]
  rfl

def newYearRewrite : Rewrite where
  fs := smallVolume
  v := oneFile
  parent := getRoot smallVolume
  name := oneFileName
  fuel := 1
  found := getNode smallVolume 2 0 (clusterBytes smallVolume oneFile.disk 2)
  node := ⟨1024, false, false, 3, 0, newYear, newYear, newYear⟩
  regular := smallVolume_regular
  power := ⟨0, rfl⟩
  parent_valid := by decide
  lookup := by
    rw [nodeLookup_eq smallVolume_regular ⟨0, rfl⟩ (by decide)]
    refine (if_pos rfl).trans ?_
    exact congrArg (Option.map _) oneFile_find
  pointer := by decide
  cluster_lt := by decide
  size_lt := by decide
  birth := newYear_inRange
  modify := newYear_inRange
  access := newYear_inRange

theorem newYear_not_roundTrips : ¬newYearRewrite.RoundTrips := by
  obtain ⟨v', c, e, hflush, hlookup, -⟩ := lookup_flushed newYearRewrite
  rintro ⟨v'', node', hflush', hlookup', hdata, -⟩
  rw [hflush] at hflush'
  cases hflush'
  rw [hlookup] at hlookup'
  cases hlookup'
  have hencodable := (sameData_iff newYearRewrite.cluster_lt newYearRewrite.size_lt
    newYear_inRange newYear_inRange newYear_inRange).mp hdata
  exact absurd hencodable.birth (show ¬(2024 - 1980) % 8 = 1 / 2 by decide)

end KernelModel.Fat32
