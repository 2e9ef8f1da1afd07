import Mathlib.Tactic

/-!
The decompressor, a routine in assembly.

The state is that of the processor: the registers the routine uses, the memory and the label
of the block of instructions that comes next. A step executes one block, up to the jump that
ends it or to the next label. Addresses and registers are numbers below `2 ^ 64`, and the
conditional jumps compare signed words.
-/

namespace KernelModel.Decompressor

/-! ### Words and memory -/

abbrev Memory := ℕ → UInt8

def add64 (x y : ℕ) : ℕ := (x + y) % 2 ^ 64
def sub64 (x y : ℕ) : ℕ := (x + (2 ^ 64 - y)) % 2 ^ 64

/-- A word as a signed number. -/
def signed (x : ℕ) : ℤ := if x < 2 ^ 63 then x else x - 2 ^ 64

/-- `movzx`, of the byte at an address. -/
def loadByte (m : Memory) (a : ℕ) : ℕ := (m (a % 2 ^ 64)).toNat

/-- The `n` bytes from an address on as a number, the first byte being the lowest. -/
def loadBytes (m : Memory) (a : ℕ) : ℕ → ℕ
  | 0 => 0
  | n + 1 => loadByte m a + 256 * loadBytes m (a + 1) n

def loadQword (m : Memory) (a : ℕ) : ℕ := loadBytes m a 8

def storeQword (m : Memory) (a v : ℕ) : Memory := fun x =>
  if x < 2 ^ 64 ∧ sub64 x a < 8 then UInt8.ofNat (v / 256 ^ sub64 x a) else m x

lemma loadByte_lt (m : Memory) (a : ℕ) : loadByte m a < 256 := UInt8.toNat_lt _

lemma loadBytes_div (m : Memory) {n k : ℕ} (hk : k < n) (a : ℕ) :
    loadBytes m a n / 256 ^ k % 256 = loadByte m (a + k) := by
  induction n generalizing a k with
  | zero => omega
  | succ n ih =>
    have hlt := loadByte_lt m a
    rw [loadBytes]
    cases k with
    | zero =>
      rw [pow_zero, Nat.div_one, Nat.add_mul_mod_self_left, Nat.mod_eq_of_lt hlt, add_zero]
    | succ k =>
      rw [pow_succ', ← Nat.div_div_eq_div_mul, Nat.add_mul_div_left _ _ (by norm_num),
        Nat.div_eq_of_lt hlt, zero_add, ih (by omega), add_assoc, add_comm 1 k]

/-- **Copying a word.** The eight bytes at `dst` become those at `src`. -/
lemma storeQword_loadQword (m : Memory) (src : ℕ) {dst : ℕ} (hdst : dst + 8 ≤ 2 ^ 64) {x : ℕ}
    (hx : x < 2 ^ 64) : storeQword m dst (loadQword m src) x
      = if dst ≤ x ∧ x < dst + 8 then m ((src + (x - dst)) % 2 ^ 64) else m x := by
  by_cases hin : dst ≤ x ∧ x < dst + 8
  · have hsub : sub64 x dst = x - dst := by
      rw [sub64]
      omega
    have hk : x - dst < 8 := by omega
    rw [storeQword, hsub, if_pos ⟨hx, hk⟩, if_pos hin]
    apply UInt8.toNat_inj.mp
    rw [UInt8.toNat_ofNat', loadQword]
    exact loadBytes_div m hk src
  · have hsub : ¬ sub64 x dst < 8 := by
      rw [sub64]
      omega
    rw [storeQword, if_neg (fun h => hsub h.2), if_neg hin]

/-! ### The routine -/

inductive Label
  | processNextHeader
  | processChunk
  | alreadyAligned
  | copyNextQword
  | skipCopy
  | readNonMatch
  | smallNonMatch
  | ret
  deriving DecidableEq, Repr

structure Cpu where
  label : Label
  rax : ℕ
  rcx : ℕ
  rdx : ℕ
  rdi : ℕ
  rsi : ℕ
  r8 : ℕ
  r9 : ℕ
  mem : Memory

/-- The first block: the compressed bytes, their number and the output buffer are given. -/
def compressorDecompress (data dataLength out : ℕ) (m : Memory) (rax rcx r8 r9 : ℕ) : Cpu :=
  let rsi := add64 dataLength data
  ⟨if signed data ≥ signed rsi then .ret else .processNextHeader, rax, rcx, out, data, rsi, r8, r9,
    m⟩

/-- The header of a run: a match is decoded here, literal bytes are left to other blocks. -/
def processNextHeader (s : Cpu) : Cpu :=
  let rax := loadByte s.mem s.rdi
  if rax &&& 1 = 0 then { s with label := .readNonMatch, rax := rax }
  else
    let rcx := loadByte s.mem (s.rdi + 1)
    let r8 := loadByte s.mem (s.rdi + 2)
    let r9 := rcx
    let rax := rax >>> 1
    let rcx := rcx &&& 63
    let r8 := r8 <<< 2
    let r9 := r9 >>> 6
    let rcx := rcx <<< 7
    let rcx := rcx ||| rax
    let r9 := r9 ||| r8
    let r8 := s.rdx
    let r8 := sub64 r8 r9
    let rdi := add64 s.rdi 3
    ⟨.processChunk, rax, rcx, s.rdx, rdi, s.rsi, r8, r9, s.mem⟩

/-- The copy up to the next multiple of eight in the output buffer. -/
def processChunk (s : Cpu) : Cpu :=
  let rax := sub64 0 s.rdx
  let rax := rax &&& 7
  if rax = 0 then { s with label := .alreadyAligned, rax := rax }
  else
    let r9 := loadQword s.mem s.r8
    let mem := storeQword s.mem s.rdx r9
    if signed rax ≥ signed s.rcx then
      ⟨.skipCopy, rax, s.rcx, s.rdx, s.rdi, s.rsi, s.r8, r9, mem⟩
    else
      let rcx := sub64 s.rcx rax
      let rdx := add64 s.rdx rax
      let r8 := add64 s.r8 rax
      ⟨.alreadyAligned, rax, rcx, rdx, s.rdi, s.rsi, r8, r9, mem⟩

def copyNextQword (s : Cpu) : Cpu :=
  let r9 := loadQword s.mem (s.r8 + s.rax)
  let mem := storeQword s.mem (add64 s.rdx s.rax) r9
  let rax := add64 s.rax 8
  ⟨if signed rax < signed s.rcx then .copyNextQword else .skipCopy, rax, s.rcx, s.rdx, s.rdi, s.rsi,
    s.r8, r9, mem⟩

def skipCopy (s : Cpu) : Cpu :=
  { s with
    rdx := add64 s.rdx s.rcx
    label := if signed s.rdi < signed s.rsi then .processNextHeader else .ret }

def readNonMatch (s : Cpu) : Cpu :=
  let rcx := s.rax
  let rcx := rcx >>> 2
  if s.rax &&& 2 = 0 then { s with label := .smallNonMatch, rcx := rcx }
  else
    let rax := loadByte s.mem (s.rdi + 1)
    let r8 := add64 s.rdi 2
    let rax := rax <<< 6
    let rcx := rcx ||| rax
    let rdi := add64 (add64 s.rdi rcx) 2
    ⟨.processChunk, rax, rcx, s.rdx, rdi, s.rsi, r8, s.r9, s.mem⟩

def smallNonMatch (s : Cpu) : Cpu :=
  { s with
    label := .processChunk
    r8 := add64 s.rdi 1
    rdi := add64 (add64 s.rdi s.rcx) 1 }

/-- The execution of the next block. -/
def step (s : Cpu) : Cpu :=
  match s.label with
  | .processNextHeader => processNextHeader s
  | .processChunk => processChunk s
  | .alreadyAligned => { s with label := .copyNextQword, rax := 0 }
  | .copyNextQword => copyNextQword s
  | .skipCopy => skipCopy s
  | .readNonMatch => readNonMatch s
  | .smallNonMatch => smallNonMatch s
  | .ret => s

/-- The second state is reached from the first. -/
def Reaches (s t : Cpu) : Prop := ∃ n, step^[n] s = t

lemma Reaches.refl (s : Cpu) : Reaches s s := ⟨0, rfl⟩

lemma Reaches.single (s : Cpu) : Reaches s (step s) := ⟨1, rfl⟩

lemma Reaches.trans {s t u : Cpu} (h : Reaches s t) (h' : Reaches t u) : Reaches s u := by
  obtain ⟨n, rfl⟩ := h
  obtain ⟨m, rfl⟩ := h'
  exact ⟨m + n, by rw [Function.iterate_add_apply]⟩

end KernelModel.Decompressor
