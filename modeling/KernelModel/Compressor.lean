import Mathlib.Tactic

/-!
The compressor.

The output is a sequence of runs: literal bytes behind a header with their number, or a
match, three bytes that hold a length and a distance into what came before. At every offset
a search with a failure table looks for the longest prefix of the coming bytes in the window
before the offset; matches are at least eight bytes away from what they describe.

The counters are 32-bit words, like the length of the input. A loop of the source whose end is not
evident is given a number of rounds, and has no result when these do not suffice.
-/

namespace KernelModel.Compressor

inductive Level
  | none
  | fast
  | full
  deriving DecidableEq, Repr

def minMatchLength : ℕ := 4
def maxNonMatchLength : ℕ := (1 <<< 14) - 1
def maxMatchLength : ℕ := (1 <<< 13) - 1
def matchAlignment : ℕ := 8

def windowSize : Level → ℕ
  | .fast => (1 <<< 5) - 1
  | _ => (1 <<< 10) - 1

def maxPreprocessedMatchLength : Level → ℕ
  | .fast => (1 <<< 5) - 1
  | _ => (1 <<< 10) - 1

/-! ### Headers -/

def encodeNonMatch (nonMatchLength : ℕ) : List UInt8 :=
  UInt8.ofNat (((nonMatchLength &&& 0x3f) <<< 2) ||| ((if nonMatchLength > 63 then 1 else 0) <<< 1))
    :: if nonMatchLength > 63 then [UInt8.ofNat (nonMatchLength >>> 6)] else []

def encodedMatch (matchLength matchOffset : ℕ) : List UInt8 :=
  [UInt8.ofNat (((matchLength &&& 0x7f) <<< 1) ||| 1),
    UInt8.ofNat (((matchOffset &&& 3) <<< 6) ||| (matchLength >>> 7)),
    UInt8.ofNat (matchOffset >>> 2)]

section

variable (data : List UInt8)

def byte (i : ℕ) : UInt8 := data.getD i 0

/-- The `length` bytes from `offset` on. -/
def slice (offset length : ℕ) : List UInt8 := (data.drop offset).take length

/-! ### Searching for a match -/

/-- The marker in the failure table. -/
def kmpEnd : ℕ := 0xffff

/-- The loop that follows the table until the letters agree. -/
def fallBack (p : ℕ → UInt8) (table : ℕ → ℕ) (i : ℕ) : ℕ → ℕ → Option ℕ
  | 0, _ => none
  | f + 1, j => if j ≠ kmpEnd ∧ p i ≠ p j then fallBack p table i f (table j) else some j

/-- The failure table after its first `n + 1` entries, with the `j` of the next round. -/
def buildTable (p : ℕ → UInt8) (table : ℕ → ℕ) : ℕ → Option ((ℕ → ℕ) × ℕ)
  | 0 => some (Function.update table 0 kmpEnd, 0)
  | n + 1 =>
    (buildTable p table n).bind fun (t, j) =>
      if p (n + 1) = p j then
        some (Function.update t (n + 1) (t j), (j + 1) &&& 0xffff)
      else
        let t' := Function.update t (n + 1) (j % 2 ^ 16)
        (fallBack p t' (n + 1) (n + 2) j).map fun j' => (t', (j' + 1) &&& 0xffff)

/-- The state of the search: the letters that agree, the place in the window, the best match. -/
structure Search where
  j : ℕ
  i : ℕ
  matchLength : ℕ
  matchOffset : ℕ
  deriving DecidableEq, Repr

/-- Remembers the current match if it is longer; `dist` is the length of the window. -/
def Search.record (dist : ℕ) (s : Search) : Search :=
  if s.j > s.matchLength then ⟨s.j, s.i, s.j, dist + s.j - s.i⟩ else s

/-- The search for the letters of `p` in the window `w`. -/
def search (p w : ℕ → UInt8) (table : ℕ → ℕ) (length dist : ℕ) : ℕ → Search → Option Search
  | 0, _ => none
  | f + 1, s =>
    if s.j < length ∧ s.i + matchAlignment ≤ dist + s.j then
      if p s.j = w s.i then
        search p w table length dist f { s with j := s.j + 1, i := s.i + 1 }
      else
        let s' := s.record dist
        if table s.j = kmpEnd then
          search p w table length dist f { s' with j := 0, i := s.i + 1 }
        else
          search p w table length dist f { s' with j := table s.j }
    else some s

/-- The loop that makes a full match longer, for at most `n` bytes. -/
def extend (offset matchOffset : ℕ) : ℕ → ℕ → ℕ
  | 0, matchLength => matchLength
  | n + 1, matchLength =>
    if byte data (offset + matchLength) = byte data (offset - matchOffset + matchLength) then
      extend offset matchOffset n (matchLength + 1)
    else matchLength

/-- The match found at an offset, with the failure table left behind. -/
def findMatch (level : Level) (table : ℕ → ℕ) (offset : ℕ) : Option (ℕ × ℕ × (ℕ → ℕ)) :=
  let capped := min (data.length - offset) maxMatchLength
  let preprocessed := min capped (maxPreprocessedMatchLength level)
  let windowOffset := if offset < windowSize level then 0 else offset - windowSize level
  let dist := offset - windowOffset
  let p := fun i => byte data (offset + i)
  let w := fun i => byte data (windowOffset + i)
  (buildTable p table (preprocessed - 1)).bind fun (t, _) =>
    (search p w t preprocessed dist (2 * (dist + preprocessed) + 1) ⟨0, 0, 0, 0⟩).map fun s =>
      let s' := s.record dist
      let matchLength :=
        if s'.matchLength = preprocessed then
          extend data offset s'.matchOffset (capped - s'.matchLength) s'.matchLength
        else s'.matchLength
      (matchLength, s'.matchOffset, t)

/-! ### Compressing -/

/-- The state of the main loop; `out` is what has been written. -/
structure State where
  offset : ℕ
  nonMatchLength : ℕ
  table : ℕ → ℕ
  out : List UInt8

/-- The pending literal bytes behind their header. -/
def nonMatch (offset nonMatchLength : ℕ) : List UInt8 :=
  encodeNonMatch nonMatchLength ++ slice data (offset - nonMatchLength) nonMatchLength

/-- The body of the main loop. -/
def compressRound (level : Level) (s : State) : Option State :=
  (findMatch data level s.table s.offset).map fun (matchLength, matchOffset, t) =>
    let flush := s.nonMatchLength = maxNonMatchLength ∨
      s.nonMatchLength ≠ 0 ∧ matchLength ≥ minMatchLength
    let out := if flush then s.out ++ nonMatch data s.offset s.nonMatchLength else s.out
    let nonMatchLength := if flush then 0 else s.nonMatchLength
    if matchLength < minMatchLength then
      ⟨(s.offset + 1) % 2 ^ 32, (nonMatchLength + 1) % 2 ^ 32, t, out⟩
    else
      ⟨(s.offset + matchLength) % 2 ^ 32, nonMatchLength, t,
        out ++ encodedMatch matchLength matchOffset⟩

def compressLoop (level : Level) : ℕ → State → Option State
  | 0, s => if s.offset < data.length then none else some s
  | f + 1, s =>
    if s.offset < data.length then (compressRound data level s).bind (compressLoop level f)
    else some s

/-- The loop without compression. -/
def storeLoop : ℕ → ℕ → Option (List UInt8)
  | 0, offset => if offset < data.length then none else some []
  | f + 1, offset =>
    if offset < data.length then
      let chunk := min (data.length - offset) maxNonMatchLength
      (storeLoop f ((offset + chunk) % 2 ^ 32)).map fun out =>
        encodeNonMatch chunk ++ slice data offset chunk ++ out
    else some []

/-- `compressor_compress`: what is written for the given bytes. -/
def compressorCompress (level : Level) : Option (List UInt8) :=
  match level with
  | .none => storeLoop data data.length 0
  | _ =>
    (compressLoop data level data.length ⟨0, 0, fun _ => 0, []⟩).map fun s =>
      if s.nonMatchLength ≠ 0 then s.out ++ nonMatch data s.offset s.nonMatchLength else s.out

end

end KernelModel.Compressor
