import Mathlib.Tactic

/-!
`syscall_fd_stream`: what is read from one descriptor is written to several others.

The nodes behind the descriptors are free in how much they take at a time: the read number `j` gives
at most `give j` bytes, and the write number `j` to destination `i` accepts at most `accept i j`.
All descriptors have passed the checks at the beginning of the call.
-/

namespace KernelModel.Stream

/-- `STREAM_MAX_BUFFER_SIZE` -/
def streamMaxBufferSize : ℕ := 0x100000

/-- A source: the bytes from its offset on, and how many reads there have been. -/
structure Source where
  data : List UInt8
  reads : ℕ
  deriving DecidableEq, Repr

/-- A destination: the bytes it has accepted, and how many writes there have been. -/
structure Destination where
  received : List UInt8
  writes : ℕ
  deriving DecidableEq, Repr

def vfsNodeRead (give : ℕ → ℕ) (size : ℕ) (s : Source) : List UInt8 × Source :=
  let block := s.data.take (min size (give s.reads))
  (block, ⟨s.data.drop block.length, s.reads + 1⟩)

def vfsNodeWrite (accept : ℕ → ℕ) (buffer : List UInt8) (size : ℕ) (d : Destination) :
    ℕ × Destination :=
  let chunkSize := min size (accept d.writes)
  (chunkSize, ⟨d.received ++ buffer.take chunkSize, d.writes + 1⟩)

/-- The loop that writes one block to a destination. -/
def writeLoop (accept : ℕ → ℕ) (buffer : List UInt8) : ℕ → ℕ → Destination → Destination
  | 0, _, d => d
  | fuel + 1, writeCount, d =>
    if writeCount = 0 then d
    else
      let r := vfsNodeWrite accept buffer writeCount d
      if r.1 = 0 then r.2 else writeLoop accept buffer fuel (writeCount - r.1) r.2

/-- The loop over blocks; no result if the fuel does not suffice. -/
def streamLoop (give : ℕ → ℕ) (accept : ℕ → ℕ → ℕ) (bufferLength : ℕ) :
    ℕ → ℕ → ℕ → Source → List Destination → Option (ℕ × Source × List Destination)
  | 0, _, _, _, _ => none
  | fuel + 1, length, out, src, dsts =>
    let r :=
      vfsNodeRead give (if length ≠ 0 ∧ bufferLength > length then length else bufferLength) src
    let count := r.1.length
    if count = 0 then some (out, r.2, dsts)
    else
      let dsts := dsts.mapIdx fun i d => writeLoop (accept i) r.1 count count d
      if length ≠ 0 then
        if length - count = 0 then some (out + count, r.2, dsts)
        else streamLoop give accept bufferLength fuel (length - count) (out + count) r.2 dsts
      else streamLoop give accept bufferLength fuel length (out + count) r.2 dsts

/-- The call with a source that has the bytes `data`, and `n` destinations. -/
def syscallFdStream (give : ℕ → ℕ) (accept : ℕ → ℕ → ℕ) (data : List UInt8) (n length : ℕ) :
    Option (ℕ × Source × List Destination) :=
  if n = 0 then some (0, ⟨data, 0⟩, [])
  else
    let bufferLength := if length = 0 ∨ length > streamMaxBufferSize then streamMaxBufferSize
      else length
    streamLoop give accept bufferLength (data.length + 1) length 0 ⟨data, 0⟩
      (List.replicate n ⟨[], 0⟩)

/-- Every destination has the bytes that were read from the source, and the count is theirs. -/
def Faithful (data : List UInt8) (n length : ℕ)
    (r : Option (ℕ × Source × List Destination)) : Prop :=
  ∃ out src dsts, r = some (out, src, dsts) ∧ dsts.length = n ∧ out ≤ data.length ∧
    src.data = data.drop out ∧ (length ≠ 0 → out ≤ length) ∧
    ∀ d ∈ dsts, d.received = data.take out

/-! ### Blocks and pieces -/

/-- The sizes of the pieces in which a destination takes `n` bytes, from its write number `j` on. -/
def pieces (accept : ℕ → ℕ) : ℕ → ℕ → ℕ → List ℕ
  | 0, _, _ => []
  | fuel + 1, n, j =>
    if n = 0 then []
    else min n (accept j) :: pieces accept fuel (n - min n (accept j)) (j + 1)

/-- The blocks in which the source gives its bytes. -/
def blocks (give : ℕ → ℕ) (bufferLength : ℕ) : ℕ → ℕ → Source → List (List UInt8)
  | 0, _, _ => []
  | fuel + 1, length, src =>
    let r :=
      vfsNodeRead give (if length ≠ 0 ∧ bufferLength > length then length else bufferLength) src
    let count := r.1.length
    if count = 0 then []
    else r.1 ::
      if length ≠ 0 then
        if length - count = 0 then [] else blocks give bufferLength fuel (length - count) r.2
      else blocks give bufferLength fuel length r.2

/-- Every piece of the block has the first bytes of the block. -/
def Repeats (block : List UInt8) (sizes : List ℕ) : Prop :=
  ∀ a k b, sizes = a ++ k :: b → (block.drop a.sum).take k = block.take k

/-- Every piece that the destination takes, from its write number `j` on, has the first bytes of
its block. -/
def AllRepeat (accept : ℕ → ℕ) : List (List UInt8) → ℕ → Prop
  | [], _ => True
  | block :: bs, j => Repeats block (pieces accept block.length block.length j) ∧
      AllRepeat accept bs (j + (pieces accept block.length block.length j).length)

section

variable {accept : ℕ → ℕ} {block : List UInt8}

lemma sum_pieces (hpos : ∀ j, 1 ≤ accept j) : ∀ (fuel n j : ℕ), n ≤ fuel →
    (pieces accept fuel n j).sum = n := by
  intro fuel
  induction fuel with
  | zero =>
    intro n j hn
    simp [pieces, Nat.le_zero.mp hn]
  | succ fuel ih =>
    intro n j hn
    rw [pieces]
    split_ifs with h0
    · simp [h0]
    · have := hpos j
      rw [List.sum_cons, ih _ _ (by omega)]
      omega

lemma writeLoop_eq (hpos : ∀ j, 1 ≤ accept j) : ∀ (fuel n : ℕ) (d : Destination), n ≤ fuel →
    writeLoop accept block fuel n d
      = ⟨d.received ++ ((pieces accept fuel n d.writes).map block.take).flatten,
        d.writes + (pieces accept fuel n d.writes).length⟩ := by
  intro fuel
  induction fuel with
  | zero =>
    intro n d _
    simp [writeLoop, pieces]
  | succ fuel ih =>
    intro n d hn
    have hj := hpos d.writes
    rw [writeLoop, pieces]
    by_cases h0 : n = 0
    · simp [h0]
    · have hchunk : ¬ min n (accept d.writes) = 0 := by omega
      simp only [h0, hchunk, if_false, vfsNodeWrite]
      rw [ih _ _ (by omega)]
      simp only [List.map_cons, List.flatten_cons, List.append_assoc, List.length_cons,
        Destination.mk.injEq, true_and]
      omega

/-- The first bytes again and again are the block exactly if every piece has them. -/
lemma flatten_take_eq_iff : ∀ (sizes : List ℕ) (rest : List UInt8),
    sizes.sum = rest.length → (∀ k ∈ sizes, k ≤ block.length) →
    ((sizes.map block.take).flatten = rest ↔
      ∀ a k b, sizes = a ++ k :: b → (rest.drop a.sum).take k = block.take k) := by
  intro sizes
  induction sizes with
  | nil =>
    intro rest hsum _
    have hrest : rest = [] := List.eq_nil_of_length_eq_zero (by simpa using hsum.symm)
    simp [hrest]
  | cons k sizes ih =>
    intro rest hsum hle
    rw [List.sum_cons] at hsum
    have hk : (block.take k).length = k := by
      rw [List.length_take]
      have := hle k (by simp)
      omega
    have hsplit : (block.take k ++ (sizes.map block.take).flatten = rest) ↔
        rest.take k = block.take k ∧ (sizes.map block.take).flatten = rest.drop k := by
      constructor
      · intro h
        rw [← h, List.take_append_of_le_length hk.ge, List.drop_append_of_le_length hk.ge]
        simp [List.take_of_length_le hk.le, List.drop_of_length_le hk.le]
      · rintro ⟨h, h'⟩
        rw [h', ← h, List.take_append_drop]
    rw [List.map_cons, List.flatten_cons, hsplit,
      ih (rest.drop k) (by rw [List.length_drop]; omega) fun m hm => hle m (by simp [hm])]
    constructor
    · rintro ⟨h, hrest⟩ a m b heq
      cases a with
      | nil =>
        obtain ⟨rfl, -⟩ := List.cons.inj heq
        simpa using h
      | cons x a =>
        obtain ⟨rfl, heq'⟩ := List.cons.inj heq
        have := hrest a m b heq'
        rwa [List.drop_drop] at this
    · intro h
      refine ⟨by simpa using h [] k sizes rfl, fun a m b heq => ?_⟩
      have := h (k :: a) m b (by rw [heq]; rfl)
      rwa [List.sum_cons, ← List.drop_drop] at this

/-- What a destination gets of the blocks, from its write number `j` on. -/
def got (accept : ℕ → ℕ) : List (List UInt8) → ℕ → List UInt8
  | [], _ => []
  | block :: bs, j => ((pieces accept block.length block.length j).map block.take).flatten ++
      got accept bs (j + (pieces accept block.length block.length j).length)

/-- A destination with the blocks. -/
def deliver (accept : ℕ → ℕ) (bs : List (List UInt8)) (d : Destination) : Destination :=
  bs.foldl (fun d block => writeLoop accept block block.length block.length d) d

lemma deliver_received (hpos : ∀ j, 1 ≤ accept j) : ∀ (bs : List (List UInt8)) (d : Destination),
    (deliver accept bs d).received = d.received ++ got accept bs d.writes := by
  intro bs
  induction bs with
  | nil =>
    intro d
    simp [deliver, got]
  | cons block bs ih =>
    intro d
    have hcons : deliver accept (block :: bs) d
        = deliver accept bs (writeLoop accept block block.length block.length d) := rfl
    rw [hcons, ih, writeLoop_eq hpos _ _ _ le_rfl, got, List.append_assoc]

lemma le_of_mem_pieces (hpos : ∀ j, 1 ≤ accept j) {j k : ℕ}
    (hk : k ∈ pieces accept block.length block.length j) : k ≤ block.length := by
  have hsum := sum_pieces hpos block.length block.length j le_rfl
  have := List.single_le_sum (fun _ _ => Nat.zero_le _) k hk
  omega

lemma length_flatten_pieces (block : List UInt8) (hpos : ∀ j, 1 ≤ accept j) (j : ℕ) :
    ((pieces accept block.length block.length j).map block.take).flatten.length = block.length := by
  have hmap : (pieces accept block.length block.length j).map (List.length ∘ block.take)
      = (pieces accept block.length block.length j).map id := by
    refine List.map_congr_left fun k hk => ?_
    have := le_of_mem_pieces hpos hk
    simpa using this
  rw [List.length_flatten, List.map_map, hmap, List.map_id, sum_pieces hpos _ _ _ le_rfl]

/-- **The bytes arrive** exactly if every piece repeats the first bytes of its block. -/
lemma got_eq_iff (hpos : ∀ j, 1 ≤ accept j) : ∀ (bs : List (List UInt8)) (j : ℕ),
    got accept bs j = bs.flatten ↔ AllRepeat accept bs j := by
  intro bs
  induction bs with
  | nil =>
    intro j
    simp [got, AllRepeat]
  | cons block bs ih =>
    intro j
    have hlen := length_flatten_pieces block hpos j
    have hsum := sum_pieces hpos block.length block.length j le_rfl
    have hblock := flatten_take_eq_iff _ block hsum fun k hk => le_of_mem_pieces hpos hk
    rw [got, List.flatten_cons, AllRepeat, ← ih]
    constructor
    · intro h
      obtain ⟨h, h'⟩ := List.append_inj h hlen
      exact ⟨hblock.mp h, h'⟩
    · rintro ⟨h, h'⟩
      rw [hblock.mpr h, h']

end

section

variable {give : ℕ → ℕ} {accept : ℕ → ℕ → ℕ} {bufferLength : ℕ}

lemma vfsNodeRead_spec (give : ℕ → ℕ) (size : ℕ) (src : Source) :
    (vfsNodeRead give size src).1 = src.data.take (vfsNodeRead give size src).1.length ∧
      (vfsNodeRead give size src).2.data = src.data.drop (vfsNodeRead give size src).1.length ∧
      (vfsNodeRead give size src).1.length ≤ size ∧
      (vfsNodeRead give size src).1.length ≤ src.data.length := by
  have hblock : (vfsNodeRead give size src).1 = src.data.take (min size (give src.reads)) := rfl
  have hlen : (vfsNodeRead give size src).1.length
      = min (min size (give src.reads)) src.data.length := by
    rw [hblock, List.length_take]
  refine ⟨?_, rfl, by omega, by omega⟩
  rw [hlen, hblock]
  rcases Nat.le_total (min size (give src.reads)) src.data.length with h | h
  · rw [min_eq_left h]
  · rw [min_eq_right h, List.take_of_length_le h, List.take_length]

/-- What is asked of the source at a time. -/
def askSize (bufferLength length : ℕ) : ℕ :=
  if length ≠ 0 ∧ bufferLength > length then length else bufferLength

lemma askSize_le (bufferLength : ℕ) {length : ℕ} (h : length ≠ 0) :
    askSize bufferLength length ≤ length := by
  unfold askSize
  split_ifs <;> omega

lemma blocks_succ (fuel length : ℕ) (src : Source) : blocks give bufferLength (fuel + 1) length src
    = if (vfsNodeRead give (askSize bufferLength length) src).1.length = 0 then []
      else (vfsNodeRead give (askSize bufferLength length) src).1 ::
        if length ≠ 0 then
          if length - (vfsNodeRead give (askSize bufferLength length) src).1.length = 0 then []
          else blocks give bufferLength fuel
            (length - (vfsNodeRead give (askSize bufferLength length) src).1.length)
            (vfsNodeRead give (askSize bufferLength length) src).2
        else blocks give bufferLength fuel length
          (vfsNodeRead give (askSize bufferLength length) src).2 := rfl

lemma flatten_blocks (give : ℕ → ℕ) (bufferLength : ℕ) : ∀ (fuel length : ℕ) (src : Source),
    (blocks give bufferLength fuel length src).flatten
        = src.data.take (blocks give bufferLength fuel length src).flatten.length ∧
      (length ≠ 0 → (blocks give bufferLength fuel length src).flatten.length ≤ length) := by
  intro fuel
  induction fuel with
  | zero =>
    intro length src
    simp [blocks]
  | succ fuel ih =>
    intro length src
    rw [blocks_succ]
    obtain ⟨hblock, hdata, hsize, hlen⟩ :=
      vfsNodeRead_spec give (askSize bufferLength length) src
    generalize vfsNodeRead give (askSize bufferLength length) src = r at *
    -- a block, and the blocks of the rest of the source
    have hcons : ∀ bs : List (List UInt8), bs.flatten = r.2.data.take bs.flatten.length →
        (r.1 :: bs).flatten = src.data.take (r.1 :: bs).flatten.length := by
      intro bs hbs
      rw [List.flatten_cons, List.length_append]
      conv_lhs => rw [hblock, hbs, hdata]
      rw [List.take_add]
    split_ifs with h0 hlength hzero
    · simp
    · refine ⟨hcons [] (by simp), fun _ => ?_⟩
      have := askSize_le bufferLength hlength
      simp only [List.flatten_cons, List.flatten_nil, List.append_nil]
      omega
    · obtain ⟨hbs, hle⟩ := ih (length - r.1.length) r.2
      refine ⟨hcons _ hbs, fun _ => ?_⟩
      have := hle hzero
      rw [List.flatten_cons, List.length_append]
      omega
    · obtain ⟨hbs, -⟩ := ih length r.2
      exact ⟨hcons _ hbs, fun h => absurd h hlength⟩

/-- **The loop** ends, and every destination has got the blocks. -/
lemma streamLoop_spec (give : ℕ → ℕ) (accept : ℕ → ℕ → ℕ) (bufferLength : ℕ) :
    ∀ (fuel length out : ℕ) (src : Source) (dsts : List Destination),
    src.data.length < fuel →
    ∃ src', streamLoop give accept bufferLength fuel length out src dsts
        = some (out + (blocks give bufferLength fuel length src).flatten.length, src',
          dsts.mapIdx fun i d => deliver (accept i) (blocks give bufferLength fuel length src) d) ∧
      src'.data = src.data.drop (blocks give bufferLength fuel length src).flatten.length := by
  intro fuel
  induction fuel with
  | zero =>
    intro length out src dsts h
    omega
  | succ fuel ih =>
    intro length out src dsts h
    have hloop : streamLoop give accept bufferLength (fuel + 1) length out src dsts
        = (let r := vfsNodeRead give (askSize bufferLength length) src
          if r.1.length = 0 then some (out, r.2, dsts)
          else
            let dsts := dsts.mapIdx fun i d => writeLoop (accept i) r.1 r.1.length r.1.length d
            if length ≠ 0 then
              if length - r.1.length = 0 then some (out + r.1.length, r.2, dsts)
              else streamLoop give accept bufferLength fuel (length - r.1.length)
                (out + r.1.length) r.2 dsts
            else streamLoop give accept bufferLength fuel length (out + r.1.length) r.2 dsts) := rfl
    rw [blocks_succ, hloop]
    obtain ⟨hblock, hdata, hsize, hlen⟩ :=
      vfsNodeRead_spec give (askSize bufferLength length) src
    generalize vfsNodeRead give (askSize bufferLength length) src = r at *
    have hdeliver : ∀ bs, (dsts.mapIdx fun i d =>
      writeLoop (accept i) r.1 r.1.length r.1.length d).mapIdx
        (fun i d => deliver (accept i) bs d) =
          dsts.mapIdx fun i d => deliver (accept i) (r.1 :: bs) d := by
      intro bs
      rw [List.mapIdx_mapIdx]
      rfl
    by_cases h0 : r.1.length = 0
    · simp only [h0, if_true]
      have hnil : (dsts.mapIdx fun i d => deliver (accept i) [] d) = dsts :=
        List.ext_getElem (by simp) fun i _ _ => by simp [deliver]
      refine ⟨r.2, by rw [hnil]; rfl, ?_⟩
      rw [hdata, h0]
      rfl
    simp only [h0, if_false]
    have hshort : r.2.data.length < fuel := by
      rw [hdata, List.length_drop]
      omega
    -- the rest of the loop, on the rest of the source
    have hrest : ∀ n : ℕ, ∃ src', streamLoop give accept bufferLength fuel n (out + r.1.length) r.2
        (dsts.mapIdx fun i d => writeLoop (accept i) r.1 r.1.length r.1.length d)
          = some (out + (r.1 :: blocks give bufferLength fuel n r.2).flatten.length, src',
            dsts.mapIdx fun i d => deliver (accept i)
              (r.1 :: blocks give bufferLength fuel n r.2) d) ∧
        src'.data = src.data.drop (r.1 :: blocks give bufferLength fuel n r.2).flatten.length := by
      intro n
      obtain ⟨src', hrun, hsrc⟩ := ih n (out + r.1.length) r.2
        (dsts.mapIdx fun i d => writeLoop (accept i) r.1 r.1.length r.1.length d) hshort
      refine ⟨src', ?_, ?_⟩
      · rw [hrun, hdeliver, List.flatten_cons, List.length_append, add_assoc]
      · rw [hsrc, hdata, List.drop_drop, List.flatten_cons, List.length_append]
    by_cases hlength : length = 0
    · simp only [hlength, ne_eq, not_true_eq_false, if_false]
      exact hrest 0
    · simp only [hlength, ne_eq, not_false_eq_true, if_true]
      by_cases hzero : length - r.1.length = 0
      · simp only [hzero, if_true]
        refine ⟨r.2, ?_, ?_⟩
        · have hone : (dsts.mapIdx fun i d => deliver (accept i) [r.1] d)
              = dsts.mapIdx fun i d => writeLoop (accept i) r.1 r.1.length r.1.length d := rfl
          rw [hone]
          simp
        · rw [hdata]
          simp
      · simp only [hzero, if_false]
        exact hrest _

end

/-! ### When the bytes arrive -/

/-- What is read at a time at most. -/
def bufferLength (length : ℕ) : ℕ :=
  if length = 0 ∨ length > streamMaxBufferSize then streamMaxBufferSize else length

/-- **The copies are faithful** exactly if whatever a destination accepts after a part of a block
repeats the first bytes of that block. -/
theorem faithful_iff (give : ℕ → ℕ) (accept : ℕ → ℕ → ℕ) (hpos : ∀ i j, 1 ≤ accept i j)
    (data : List UInt8) (n length : ℕ) :
    Faithful data n length (syscallFdStream give accept data n length) ↔
      ∀ i < n, AllRepeat (accept i)
        (blocks give (bufferLength length) (data.length + 1) length ⟨data, 0⟩) 0 := by
  by_cases hn : n = 0
  · subst hn
    refine iff_of_true ⟨0, ⟨data, 0⟩, [], rfl, rfl, by simp, rfl, by simp, by simp⟩ ?_
    intro i hi
    omega
  obtain ⟨src', hrun, hsrc⟩ := streamLoop_spec give accept
    (bufferLength length) (data.length + 1) length 0 ⟨data, 0⟩
    (List.replicate n ⟨[], 0⟩) (by simp)
  obtain ⟨htake, hle⟩ := flatten_blocks give (bufferLength length)
    (data.length + 1) length ⟨data, 0⟩
  have hcall : syscallFdStream give accept data n length = streamLoop give accept
      (bufferLength length) (data.length + 1) length 0 ⟨data, 0⟩ (List.replicate n ⟨[], 0⟩) := by
    rw [syscallFdStream, if_neg hn]
    rfl
  rw [hcall, hrun]
  generalize blocks give (bufferLength length) (data.length + 1) length ⟨data, 0⟩ = bs at *
  have hgot : ∀ i, (deliver (accept i) bs ⟨[], 0⟩).received = got (accept i) bs 0 := fun i => by
    rw [deliver_received (hpos i)]
    rfl
  have hdsts : ∀ d, d ∈ (List.replicate n ⟨[], 0⟩).mapIdx (fun i d => deliver (accept i) bs d) ↔
      ∃ i < n, d = deliver (accept i) bs ⟨[], 0⟩ := by
    intro d
    simp [List.mem_mapIdx, eq_comm]
  constructor
  · rintro ⟨out, src, dsts, heq, -, -, -, -, hall⟩ i hi
    simp only [Option.some.injEq, Prod.mk.injEq, zero_add] at heq
    obtain ⟨rfl, rfl, rfl⟩ := heq
    have hd := hall _ ((hdsts _).mpr ⟨i, hi, rfl⟩)
    rw [hgot] at hd
    exact (got_eq_iff (hpos i) bs 0).mp (hd.trans htake.symm)
  · intro h
    refine ⟨_, src', _, rfl, by simp, ?_, by simpa using hsrc, by simpa using hle, fun d hd => ?_⟩
    · have := congrArg List.length htake
      rw [List.length_take] at this
      simp only at this
      omega
    · obtain ⟨i, hi, rfl⟩ := (hdsts d).mp hd
      rw [hgot, (got_eq_iff (hpos i) bs 0).mpr (h i hi), zero_add]
      exact htake

/-- A source of three bytes, of which the destination takes all but the last one at once. -/
theorem not_faithful_partial : ¬ Faithful [1, 2, 3] 1 0
    (syscallFdStream (fun _ => 10) (fun _ j => if j = 0 then 2 else 1) [1, 2, 3] 1 0) := by
  have hcall : syscallFdStream (fun _ => 10) (fun _ j => if j = 0 then 2 else 1) [1, 2, 3] 1 0
      = some (3, ⟨[], 2⟩, [⟨[1, 2, 1], 2⟩]) := by decide
  rintro ⟨out, src, dsts, heq, -, -, -, -, hall⟩
  rw [hcall] at heq
  simp only [Option.some.injEq, Prod.mk.injEq] at heq
  obtain ⟨rfl, rfl, rfl⟩ := heq
  have := hall ⟨[1, 2, 1], 2⟩ (by simp)
  exact absurd this (by decide)

lemma repeats_single (block : List UInt8) : Repeats block [block.length] := by
  intro a k b h
  have ha : a = [] := by
    cases a with
    | nil => rfl
    | cons x a => simp at h
  simp [ha]

theorem faithful_whole :
    Faithful [1, 2, 3] 2 0 (syscallFdStream (fun _ => 2) (fun _ _ => 5) [1, 2, 3] 2 0) := by
  refine (faithful_iff (fun _ => 2) (fun _ _ => 5) (fun _ _ => by norm_num) [1, 2, 3] 2 0).mpr ?_
  have hblocks : blocks (fun _ => 2) (bufferLength 0) 4 0 ⟨[1, 2, 3], 0⟩ = [[1, 2], [3]] := by
    decide
  intro i _
  rw [show ([1, 2, 3] : List UInt8).length + 1 = 4 from rfl, hblocks]
  exact ⟨repeats_single [1, 2], repeats_single [3], trivial⟩

end KernelModel.Stream
