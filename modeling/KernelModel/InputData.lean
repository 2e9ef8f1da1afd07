import KernelModel.Blocks
import KernelModel.LittleEndian

/-!
The initial stack of a process.

The arguments and the environment are copies in the kernel: a string with its zero has a size of 32
bits, and all of them together are less than the memory. The end of the stack is written through a
region of the kernel that maps the same pages; the region begins at a key, and a write that misses
it fails.
-/

namespace KernelModel.Elf

open LittleEndian

def elfStackSize : ℕ := 0x800000
def elfStackAlignment : ℕ := 16
def elfAuxvRandomDataSize : ℕ := 16
def pageSize : ℕ := 4096

def atNull : ℕ := 0
def atPhdr : ℕ := 3
def atPhent : ℕ := 4
def atPhnum : ℕ := 5
def atPagesz : ℕ := 6
def atBase : ℕ := 7
def atFlags : ℕ := 8
def atEntry : ℕ := 9
def atPlatform : ℕ := 15
def atHwcap : ℕ := 16
def atRandom : ℕ := 25
def atHwcap2 : ℕ := 26
def atExecfn : ℕ := 31

/-- A string of the kernel, without its zero. -/
structure CString where
  chars : List UInt8
  zero_notMem : 0 ∉ chars
  length_lt : chars.length + 1 < 2 ^ 32

namespace CString

def bytes (s : CString) : List UInt8 := s.chars ++ [0]

/-- `smm_length` -/
def smmLength (s : CString) : ℕ := s.chars.length

end CString

/-- `ELF_AUXV_PLATFORM` -/
def elfAuxvPlatform : CString := ⟨[120, 56, 54, 95, 54, 52], by decide, by decide⟩

/-- The sizes of the strings with their zeros. -/
def stringBytes (l : List CString) : ℕ := (l.map fun s => s.bytes.length).sum

/-- `elf_loader_context_t`, as `_generate_input_data` finds it: the stack lies below its top. -/
structure Context where
  path : CString
  argv : List CString
  environ : List CString
  userPhdrAddress : UInt64
  phentsize : UInt16
  phnum : UInt16
  entry : UInt64
  interpreterImageBase : UInt64
  stackTop : ℕ
  argc_lt : argv.length < 2 ^ 32
  environ_lt : environ.length < 2 ^ 32
  inMemory : stringBytes argv + stringBytes environ < 2 ^ 63
  stack_le : elfStackSize ≤ stackTop
  stackTop_lt : stackTop < 2 ^ 64

/-- The loops over the strings: the size of the pointers and of the string table. -/
def countStrings (l : List CString) (s : ℕ × ℕ) : ℕ × ℕ :=
  l.foldl (fun s string =>
    ((s.1 + 8) % 2 ^ 64, (s.2 + (string.smmLength + 1) % 2 ^ 32) % 2 ^ 64)) s

/-- `size` and `string_table_size` -/
def inputSizes (ctx : Context) : ℕ × ℕ :=
  let (size, stringTableSize) := countStrings ctx.environ (countStrings ctx.argv (8, 0))
  (size + 8 + 13 * 16,
    stringTableSize + (elfAuxvPlatform.smmLength + 1) + (elfAuxvRandomDataSize + 1) +
      (ctx.path.smmLength + 1))

def totalSize (ctx : Context) : ℕ :=
  ((inputSizes ctx).1 + (inputSizes ctx).2 + elfStackAlignment - 1) / elfStackAlignment *
    elfStackAlignment

def pmmAlignUpAddress (base : ℕ) : ℕ := (base + pageSize - 1) / pageSize * pageSize

/-! ### The pushes -/

/-- The region, and the two pointers into it. -/
structure Pushes where
  buffer : Block UInt8
  dataPtr : ℕ
  stringTablePtr : ℕ

section

variable (key pointerDifference : ℕ)

/-- `PUSH_DATA_VALUE` -/
def pushDataValue (value : ℕ) (s : Pushes) : Option Pushes :=
  if s.dataPtr - key + 8 ≤ s.buffer.size then some
    { s with
      buffer := ⟨s.buffer.size, put 8 s.buffer.data (s.dataPtr - key) value⟩
      dataPtr := s.dataPtr + 8 }
  else none

/-- Bytes are added to the string table. -/
def pushBytes (bytes : List UInt8) (s : Pushes) : Option Pushes :=
  (s.buffer.copyInto (s.stringTablePtr - key) bytes).map fun buffer =>
    { s with buffer, stringTablePtr := s.stringTablePtr + bytes.length }

/-- `PUSH_AUXV_VALUE` -/
def pushAuxvValue (type value : ℕ) (s : Pushes) : Option Pushes :=
  (pushDataValue key type s).bind (pushDataValue key value)

/-- `string_table_ptr+pointer_difference` -/
def userPointer (s : Pushes) : ℕ := (s.stringTablePtr + pointerDifference) % 2 ^ 64

/-- The loop over the arguments or the environment. -/
def pushStrings : List CString → Pushes → Option Pushes
  | [], s => some s
  | string :: l, s => do
    let s ← pushDataValue key (userPointer pointerDifference s) s
    let s ← pushBytes key string.bytes s
    pushStrings l s

/-- The entry for a pointer into the string table, and what it points to. -/
def pushAuxvBytes (type : ℕ) (bytes : List UInt8) (s : Pushes) : Option Pushes :=
  (pushAuxvValue key type (userPointer pointerDifference s) s).bind (pushBytes key bytes)

end

/-- The body of `_generate_input_data` from the first push on. -/
def pushAll (ctx : Context) (hwcap : UInt32) (random : List UInt8) (key pointerDifference : ℕ)
    (s : Pushes) : Option Pushes := do
  let s ← pushDataValue key ctx.argv.length s
  let s ← pushStrings key pointerDifference ctx.argv s
  let s ← pushStrings key pointerDifference ctx.environ s
  let s ← pushDataValue key 0 s
  let s ← pushAuxvValue key atPhdr ctx.userPhdrAddress.toNat s
  let s ← pushAuxvValue key atPhent ctx.phentsize.toNat s
  let s ← pushAuxvValue key atPhnum ctx.phnum.toNat s
  let s ← pushAuxvValue key atPagesz pageSize s
  let s ← pushAuxvValue key atBase ctx.interpreterImageBase.toNat s
  let s ← pushAuxvValue key atFlags 0 s
  let s ← pushAuxvValue key atEntry ctx.entry.toNat s
  let s ← pushAuxvBytes key pointerDifference atPlatform elfAuxvPlatform.bytes s
  let s ← pushAuxvValue key atHwcap hwcap.toNat s
  let s ← pushAuxvBytes key pointerDifference atRandom random s
  let s ← pushAuxvValue key atHwcap2 0 s
  let s ← pushAuxvBytes key pointerDifference atExecfn ctx.path.bytes s
  pushAuxvValue key atNull 0 s

/-- The memory of a process some of whose pages are those of a region. -/
def throughRegion (address length : ℕ) (data memory : ℕ → UInt8) (u : ℕ) : UInt8 :=
  if address ≤ u ∧ u < address + length then data (u - address) else memory u

inductive Error
  | noSpace
  deriving DecidableEq

/-- `_generate_input_data`, with the bytes of `random_generate`, the key of the region and the
memory of the process: the new top of the stack, and the memory. -/
def generateInputData (ctx : Context) (hwcap : UInt32) (random : List UInt8) (key : ℕ)
    (memory : ℕ → UInt8) : Option (Except Error (ℕ × (ℕ → UInt8))) :=
  let total := totalSize ctx
  if total > elfStackSize then some (.error .noSpace)
  else
    let length := pmmAlignUpAddress total
    let address := ctx.stackTop - length
    -- `vmm_map_page` panics
    if address % pageSize ≠ 0 then none
    else
      let stackTop := ctx.stackTop - total
      let buffer := key + (2 ^ 64 - total) % pageSize
      let pointerDifference := (stackTop + 2 ^ 64 - buffer) % 2 ^ 64
      (pushAll ctx hwcap random key pointerDifference
        ⟨⟨length, fun j => memory (address + j)⟩, buffer, buffer + (inputSizes ctx).1⟩).map fun s =>
          .ok (stackTop, throughRegion address length s.buffer.data memory)

/-! ### What a process finds -/

section

variable (ctx : Context) (hwcap : UInt32) (random : List UInt8) (memory m : ℕ → UInt8) (top : ℕ)

/-- The number of words in the pointer area. -/
def wordCount : ℕ := 1 + ctx.argv.length + ctx.environ.length + 1 + 26

/-- The string table begins where the pointer area ends. -/
def tableStart : ℕ := top + 8 * wordCount ctx

def tableLength : ℕ := stringBytes ctx.argv + stringBytes ctx.environ +
  elfAuxvPlatform.bytes.length + random.length + ctx.path.bytes.length

/-- The bytes are in the string table. -/
structure InTable (p : ℕ) (bytes : List UInt8) : Prop where
  start : tableStart ctx top ≤ p
  stop : p + bytes.length ≤ tableStart ctx top + tableLength ctx random
  bytes_eq : ∀ i < bytes.length, m (p + i) = bytes.getD i 0

/-- The auxiliary vector, with its three pointers. -/
def auxv (platform rand execfn : ℕ) : List (ℕ × ℕ) :=
  [(atPhdr, ctx.userPhdrAddress.toNat), (atPhent, ctx.phentsize.toNat), (atPhnum, ctx.phnum.toNat),
    (atPagesz, pageSize), (atBase, ctx.interpreterImageBase.toNat), (atFlags, 0),
    (atEntry, ctx.entry.toNat), (atPlatform, platform), (atHwcap, hwcap.toNat), (atRandom, rand),
    (atHwcap2, 0), (atExecfn, execfn), (atNull, 0)]

/-- Words behind one another. -/
def WordsAt (a : ℕ) (words : List ℕ) : Prop :=
  ∀ i < words.length, get 8 m (a + 8 * i) = words.getD i 0

/-- The new end of the stack. -/
structure WellFormed : Prop where
  aligned : ctx.stackTop % 16 = 0 → top % 16 = 0
  inside : tableStart ctx top + tableLength ctx random ≤ ctx.stackTop
  frame : ∀ u, u < top ∨ tableStart ctx top + tableLength ctx random ≤ u → m u = memory u
  argc : get 8 m top = ctx.argv.length
  argv : ∀ i (h : i < ctx.argv.length),
    InTable ctx random m top (get 8 m (top + 8 * (1 + i))) ctx.argv[i].bytes
  environ : ∀ i (h : i < ctx.environ.length),
    InTable ctx random m top (get 8 m (top + 8 * (1 + ctx.argv.length + i))) ctx.environ[i].bytes
  terminator : get 8 m (top + 8 * (1 + ctx.argv.length + ctx.environ.length)) = 0
  auxiliary : ∃ platform rand execfn,
    WordsAt m (top + 8 * (1 + ctx.argv.length + ctx.environ.length + 1))
      ((auxv ctx hwcap platform rand execfn).flatMap fun entry => [entry.1, entry.2]) ∧
    InTable ctx random m top platform elfAuxvPlatform.bytes ∧
    InTable ctx random m top rand random ∧ InTable ctx random m top execfn ctx.path.bytes

end

/-! ### The sizes -/

@[simp] lemma length_bytes (s : CString) : s.bytes.length = s.chars.length + 1 :=
  List.length_append

@[simp] lemma stringBytes_cons (s : CString) (l : List CString) :
    stringBytes (s :: l) = s.chars.length + 1 + stringBytes l := by
  rw [stringBytes, List.map_cons, List.sum_cons, length_bytes, stringBytes]

lemma length_flatMap_bytes (l : List CString) :
    (l.flatMap CString.bytes).length = stringBytes l := List.length_flatMap

lemma countStrings_eq (l : List CString) {a b : ℕ} (ha : a + 8 * l.length < 2 ^ 64)
    (hb : b + stringBytes l < 2 ^ 64) :
    countStrings l (a, b) = (a + 8 * l.length, b + stringBytes l) := by
  induction l generalizing a b with
  | nil => rfl
  | cons s l ih =>
    rw [List.length_cons] at ha
    rw [stringBytes_cons] at hb
    have hs := s.length_lt
    have hstep : countStrings (s :: l) (a, b) =
        countStrings l (a + 8, b + (s.chars.length + 1)) := by
      rw [countStrings, List.foldl_cons]
      dsimp only [CString.smmLength]
      rw [Nat.mod_eq_of_lt hs, Nat.mod_eq_of_lt (by omega : a + 8 < 2 ^ 64),
        Nat.mod_eq_of_lt (by omega : b + (s.chars.length + 1) < 2 ^ 64)]
      rfl
    rw [hstep, ih (by omega) (by omega), stringBytes_cons, List.length_cons]
    exact Prod.ext (by dsimp only; omega) (by dsimp only; omega)

lemma inputSizes_eq (ctx : Context) {random : List UInt8}
    (h : random.length = elfAuxvRandomDataSize) :
    inputSizes ctx = (8 * wordCount ctx, tableLength ctx random + 1) := by
  have hargc := ctx.argc_lt
  have henviron := ctx.environ_lt
  have hmemory := ctx.inMemory
  rw [inputSizes, countStrings_eq ctx.argv (by omega) (by omega),
    countStrings_eq ctx.environ (by omega) (by omega)]
  dsimp only [tableLength, wordCount, CString.smmLength]
  rw [h, length_bytes, length_bytes]
  exact Prod.ext (by dsimp only; omega) (by dsimp only; omega)

/-! ### What a push adds -/

/-- The words and the bytes that were pushed so far are where they belong: the words from `o` on,
and the bytes behind the `size` bytes of the words. -/
structure Pushed (key o size : ℕ) (init : Block UInt8) (words : List ℕ) (bytes : List UInt8)
    (s : Pushes) : Prop where
  size_eq : s.buffer.size = init.size
  dataPtr : s.dataPtr = key + (o + 8 * words.length)
  stringTablePtr : s.stringTablePtr = key + (o + size + bytes.length)
  room : 8 * words.length ≤ size
  word : ∀ i < words.length, get 8 s.buffer.data (o + 8 * i) = words.getD i 0
  byte : ∀ i < bytes.length, s.buffer.data (o + size + i) = bytes.getD i 0
  rest : ∀ i, i < o ∨ o + size + bytes.length ≤ i → s.buffer.data i = init.data i

/-- The function pushes these words, which depend on where the next string is for the process, and
these bytes. -/
def Emits (key o size table : ℕ) (init : Block UInt8) (f : Pushes → Option Pushes)
    (ws : ℕ → List ℕ) (bs : List UInt8) : Prop :=
  ∀ words bytes s, Pushed key o size init words bytes s →
    8 * (words.length + (ws (table + bytes.length)).length) ≤ size →
    o + size + bytes.length + bs.length ≤ init.size →
    table + bytes.length < 2 ^ 64 →
    ∃ s', f s = some s' ∧
      Pushed key o size init (words ++ ws (table + bytes.length)) (bytes ++ bs) s'

section

variable {key o size table pd : ℕ} {init : Block UInt8}

lemma Emits.bind {f : Pushes → Option Pushes} {g : Pushes → Option Pushes} {ws ws' : ℕ → List ℕ}
    {bs bs' : List UInt8} (hf : Emits key o size table init f ws bs)
    (hg : Emits key o size table init g ws' bs')
    (hend : table + (init.size - (o + size)) < 2 ^ 64) :
    Emits key o size table init (fun s => f s >>= g) (fun p => ws p ++ ws' (p + bs.length))
      (bs ++ bs') := by
  intro words bytes s hs hwords hbytes htable
  rw [List.length_append] at hwords hbytes
  obtain ⟨s1, hf1, hs1⟩ := hf words bytes s hs (by omega) (by omega) htable
  have hnext : table + (bytes ++ bs).length = table + bytes.length + bs.length := by
    rw [List.length_append, Nat.add_assoc]
  obtain ⟨s2, hg2, hs2⟩ := hg _ _ s1 hs1 (by rw [hnext, List.length_append]; omega)
    (by rw [List.length_append]; omega) (by rw [hnext]; omega)
  refine ⟨s2, ?_, ?_⟩
  · show f s >>= g = _
    rw [hf1]
    exact hg2
  · rwa [hnext, List.append_assoc, List.append_assoc] at hs2

lemma Emits.congr {f : Pushes → Option Pushes} {ws ws' : ℕ → List ℕ} {bs bs' : List UInt8}
    (h : Emits key o size table init f ws bs) (hws : ∀ p, ws p = ws' p) (hbs : bs = bs') :
    Emits key o size table init f ws' bs' := by
  rwa [← hbs, ← funext hws]

lemma emits_pushDataValue {value : ℕ} (hvalue : value < 2 ^ 64) (hsize : o + size ≤ init.size) :
    Emits key o size table init (pushDataValue key value) (fun _ => [value]) [] := by
  intro words bytes s hs hwords _ _
  rw [List.length_singleton] at hwords
  have hoff : s.dataPtr - key = o + 8 * words.length := by
    rw [hs.dataPtr, Nat.add_sub_cancel_left]
  have hpush : pushDataValue key value s = some
      { s with
        buffer := ⟨s.buffer.size, put 8 s.buffer.data (o + 8 * words.length) value⟩
        dataPtr := s.dataPtr + 8 } := by
    rw [pushDataValue, hoff, if_pos (by rw [hs.size_eq]; omega)]
  refine ⟨_, hpush, ?_⟩
  rw [List.append_nil]
  refine ⟨hs.size_eq, ?_, hs.stringTablePtr, ?_, ?_, ?_, ?_⟩
  · rw [List.length_append, List.length_singleton]
    have hptr := hs.dataPtr
    dsimp only
    omega
  · rw [List.length_append, List.length_singleton]
    exact hwords
  · intro i hi
    rw [List.length_append, List.length_singleton] at hi
    rcases Nat.lt_succ_iff_lt_or_eq.mp hi with hlt | rfl
    · rw [get_put_of_disjoint (by omega), hs.word i hlt,
        List.getD_append _ _ _ _ hlt]
    · rw [get_put_self, Nat.mod_eq_of_lt (hvalue.trans_le (by norm_num)),
        List.getD_append_right _ _ _ _ le_rfl,
        Nat.sub_self, List.getD_cons_zero]
  · intro i hi
    exact (put_of_ge (by omega)).trans (hs.byte i hi)
  · intro i hi
    refine Eq.trans ?_ (hs.rest i hi)
    rcases hi with hi | hi
    · exact put_of_lt (by omega)
    · exact put_of_ge (by omega)

lemma emits_pushBytes (l : List UInt8) :
    Emits key o size table init (pushBytes key l) (fun _ => []) l := by
  intro words bytes s hs _ hbytes _
  have hoff : s.stringTablePtr - key = o + size + bytes.length := by
    rw [hs.stringTablePtr, Nat.add_sub_cancel_left]
  have hroom := hs.room
  have hpush : pushBytes key l s = some
      { s with
        buffer := ⟨s.buffer.size, fun i => if o + size + bytes.length ≤ i then
          l.getD (i - (o + size + bytes.length)) (s.buffer.data i) else s.buffer.data i⟩
        stringTablePtr := s.stringTablePtr + l.length } := by
    rw [pushBytes, hoff, Block.copyInto_eq (by rw [hs.size_eq]; exact hbytes), Option.map_some]
  refine ⟨_, hpush, ?_⟩
  rw [List.append_nil]
  refine ⟨hs.size_eq, hs.dataPtr, ?_, hroom, ?_, ?_, ?_⟩
  · rw [List.length_append, hs.stringTablePtr]
    dsimp only
    omega
  · intro i hi
    refine Eq.trans (get_congr fun j h1 h2 => ?_) (hs.word i hi)
    exact if_neg (by omega)
  · intro i hi
    rw [List.length_append] at hi
    dsimp only
    by_cases hlt : i < bytes.length
    · rw [if_neg (by omega), hs.byte i hlt, List.getD_append _ _ _ _ hlt]
    · have hindex : o + size + i - (o + size + bytes.length) = i - bytes.length := by omega
      rw [if_pos (by omega), List.getD_append_right _ _ _ _ (by omega), hindex,
        List.getD_eq_getElem _ _ (by omega), List.getD_eq_getElem _ _ (by omega)]
  · intro i hi
    rw [List.length_append] at hi
    dsimp only
    rcases hi with hi | hi
    · rw [if_neg (by omega), hs.rest i (Or.inl hi)]
    · rw [if_pos (by omega), List.getD_eq_default _ _ (by omega), hs.rest i (by omega)]

/-- The pointers to strings that lie behind one another. -/
def pointers : List CString → ℕ → List ℕ
  | [], _ => []
  | s :: l, p => p :: pointers l (p + s.bytes.length)

@[simp] lemma length_pointers (l : List CString) (p : ℕ) : (pointers l p).length = l.length := by
  induction l generalizing p with
  | nil => rfl
  | cons s l ih => rw [pointers, List.length_cons, List.length_cons, ih]

lemma pointers_getD (l : List CString) (p : ℕ) {i : ℕ} (h : i < l.length) :
    (pointers l p).getD i 0 = p + stringBytes (l.take i) := by
  induction l generalizing p i with
  | nil => exact absurd h (Nat.not_lt_zero i)
  | cons s l ih =>
    cases i with
    | zero => rfl
    | succ i =>
      rw [pointers, List.getD_cons_succ, ih _ (Nat.lt_of_succ_lt_succ h), List.take_succ_cons,
        stringBytes_cons, length_bytes, Nat.add_assoc]

variable (hsize : o + size ≤ init.size) (hend : table + (init.size - (o + size)) < 2 ^ 64)
  (hpd : (key + (o + size) + pd) % 2 ^ 64 = table)
include hsize

lemma emits_pushAuxvValue {type value : ℕ} (htype : type < 2 ^ 64) (hvalue : value < 2 ^ 64)
    (hend : table + (init.size - (o + size)) < 2 ^ 64) :
    Emits key o size table init (pushAuxvValue key type value) (fun _ => [type, value]) [] :=
  (emits_pushDataValue htype hsize).bind (emits_pushDataValue hvalue hsize) hend

include hpd

lemma emits_pushPointer :
    Emits key o size table init (fun s => pushDataValue key (userPointer pd s) s) (fun p => [p])
      [] := by
  intro words bytes s hs hwords hbytes htable
  have hpointer : userPointer pd s = table + bytes.length := by
    rw [userPointer, hs.stringTablePtr]
    omega
  dsimp only
  rw [hpointer]
  exact emits_pushDataValue htable hsize words bytes s hs hwords hbytes htable

include hend

lemma emits_pushStrings (l : List CString) :
    Emits key o size table init (pushStrings key pd l) (pointers l) (l.flatMap CString.bytes) := by
  induction l with
  | nil =>
    intro words bytes s hs _ _ _
    refine ⟨s, rfl, ?_⟩
    rwa [pointers, List.flatMap_nil, List.append_nil, List.append_nil]
  | cons string l ih =>
    exact (emits_pushPointer hsize hpd).bind ((emits_pushBytes string.bytes).bind ih hend) hend

lemma emits_pushAuxvBytes {type : ℕ} (htype : type < 2 ^ 64) (l : List UInt8) :
    Emits key o size table init (pushAuxvBytes key pd type l) (fun p => [type, p]) l := by
  intro words bytes s hs hwords hbytes htable
  have hpointer : userPointer pd s = table + bytes.length := by
    rw [userPointer, hs.stringTablePtr]
    omega
  rw [pushAuxvBytes, hpointer]
  exact ((emits_pushAuxvValue hsize htype htable hend).bind (emits_pushBytes l) hend) words bytes s
    hs hwords hbytes htable

/-- The words of the pointer area. -/
def areaWords (ctx : Context) (hwcap : UInt32) (random : List UInt8) (table : ℕ) : List ℕ :=
  let environ := table + stringBytes ctx.argv
  let platform := environ + stringBytes ctx.environ
  let rand := platform + elfAuxvPlatform.bytes.length
  ctx.argv.length :: (pointers ctx.argv table ++ (pointers ctx.environ environ ++
    0 :: (auxv ctx hwcap platform rand (rand + random.length)).flatMap fun entry =>
      [entry.1, entry.2]))

/-- The bytes of the string table. -/
def tableBytes (ctx : Context) (random : List UInt8) : List UInt8 :=
  ctx.argv.flatMap CString.bytes ++ (ctx.environ.flatMap CString.bytes ++
    (elfAuxvPlatform.bytes ++ (random ++ ctx.path.bytes)))

lemma emits_pushAll (ctx : Context) (hwcap : UInt32) (random : List UInt8) :
    Emits key o size table init (pushAll ctx hwcap random key pd)
      (areaWords ctx hwcap random) (tableBytes ctx random) := by
  have hargc : ctx.argv.length < 2 ^ 64 := ctx.argc_lt.trans (by norm_num)
  have hvalue : ∀ {type value : ℕ}, type < 2 ^ 64 → value < 2 ^ 64 →
      Emits key o size table init (pushAuxvValue key type value) (fun _ => [type, value]) [] :=
    fun htype hvalue => emits_pushAuxvValue hsize htype hvalue hend
  have hbytes : ∀ {type : ℕ} (l : List UInt8), type < 2 ^ 64 →
      Emits key o size table init (pushAuxvBytes key pd type l) (fun p => [type, p]) l :=
    fun l htype => emits_pushAuxvBytes hsize hend hpd htype l
  have hvector :=
    (hvalue (by decide : atPhdr < 2 ^ 64) (UInt64.toNat_lt ctx.userPhdrAddress)).bind (
    (hvalue (by decide : atPhent < 2 ^ 64)
      ((UInt16.toNat_lt ctx.phentsize).trans (by decide))).bind (
    (hvalue (by decide : atPhnum < 2 ^ 64) ((UInt16.toNat_lt ctx.phnum).trans (by decide))).bind (
    (hvalue (by decide : atPagesz < 2 ^ 64) (by decide : pageSize < 2 ^ 64)).bind (
    (hvalue (by decide : atBase < 2 ^ 64) (UInt64.toNat_lt ctx.interpreterImageBase)).bind (
    (hvalue (by decide : atFlags < 2 ^ 64) (by decide : 0 < 2 ^ 64)).bind (
    (hvalue (by decide : atEntry < 2 ^ 64) (UInt64.toNat_lt ctx.entry)).bind (
    (hbytes elfAuxvPlatform.bytes (by decide : atPlatform < 2 ^ 64)).bind (
    (hvalue (by decide : atHwcap < 2 ^ 64) ((UInt32.toNat_lt hwcap).trans (by decide))).bind (
    (hbytes random (by decide : atRandom < 2 ^ 64)).bind (
    (hvalue (by decide : atHwcap2 < 2 ^ 64) (by decide : 0 < 2 ^ 64)).bind (
    (hbytes ctx.path.bytes (by decide : atExecfn < 2 ^ 64)).bind
    (hvalue (by decide : atNull < 2 ^ 64) (by decide : 0 < 2 ^ 64))
    hend) hend) hend) hend) hend) hend) hend) hend) hend) hend) hend) hend
  have hall :=
    (emits_pushDataValue hargc hsize).bind ((emits_pushStrings hsize hend hpd ctx.argv).bind
    ((emits_pushStrings hsize hend hpd ctx.environ).bind
      ((emits_pushDataValue (by decide : 0 < 2 ^ 64) hsize).bind hvector hend) hend) hend) hend
  refine Emits.congr hall (fun p => ?_) ?_
  · simp [areaWords, auxv, length_flatMap_bytes, Nat.add_assoc, -List.length_flatMap]
  · simp [tableBytes]

end

/-! ### Reading it back -/

lemma length_auxv (ctx : Context) (hwcap : UInt32) (platform rand execfn : ℕ) :
    ((auxv ctx hwcap platform rand execfn).flatMap fun entry => [entry.1, entry.2]).length = 26 :=
  rfl

@[simp] lemma length_areaWords (ctx : Context) (hwcap : UInt32) (random : List UInt8) (table : ℕ) :
    (areaWords ctx hwcap random table).length = wordCount ctx := by
  rw [areaWords, List.length_cons, List.length_append, List.length_append, List.length_cons,
    length_pointers, length_pointers, length_auxv, wordCount]
  omega

@[simp] lemma length_tableBytes (ctx : Context) (random : List UInt8) :
    (tableBytes ctx random).length = tableLength ctx random := by
  rw [tableBytes, List.length_append, List.length_append, List.length_append, List.length_append,
    length_flatMap_bytes, length_flatMap_bytes, tableLength]
  omega

lemma flatMap_split (l : List CString) {i : ℕ} (h : i < l.length) :
    l.flatMap CString.bytes = (l.take i).flatMap CString.bytes ++
      (l[i].bytes ++ (l.drop (i + 1)).flatMap CString.bytes) := by
  conv_lhs => rw [← List.take_append_drop i l, List.drop_eq_getElem_cons h]
  rw [List.flatMap_append, List.flatMap_cons]

section

variable {ctx : Context} {hwcap : UInt32} {random : List UInt8} {m : ℕ → UInt8} {top : ℕ}
  (hword : ∀ i < wordCount ctx,
    get 8 m (top + 8 * i) = (areaWords ctx hwcap random (tableStart ctx top)).getD i 0)
  (hbyte : ∀ i < tableLength ctx random,
    m (tableStart ctx top + i) = (tableBytes ctx random).getD i 0)

include hbyte in
lemma inTable_of_split {before bytes : List UInt8} (behind : List UInt8)
    (h : tableBytes ctx random = before ++ (bytes ++ behind)) :
    InTable ctx random m top (tableStart ctx top + before.length) bytes := by
  have hlength := congrArg List.length h
  rw [length_tableBytes, List.length_append, List.length_append] at hlength
  refine ⟨Nat.le_add_right _ _, by omega, fun i hi => ?_⟩
  rw [Nat.add_assoc, hbyte _ (by omega), h, List.getD_append_right _ _ _ _ (by omega),
    Nat.add_sub_cancel_left, List.getD_append _ _ _ _ hi]

include hword

lemma read_argc : get 8 m top = ctx.argv.length := by
  have h := hword 0 (by rw [wordCount]; omega)
  rwa [Nat.mul_zero, Nat.add_zero] at h

lemma read_argv {i : ℕ} (h : i < ctx.argv.length) :
    get 8 m (top + 8 * (1 + i)) = tableStart ctx top + stringBytes (ctx.argv.take i) := by
  rw [hword _ (by rw [wordCount]; omega), areaWords, Nat.add_comm 1 i, List.getD_cons_succ,
    List.getD_append _ _ _ _ (by rwa [length_pointers]), pointers_getD _ _ h]

lemma read_environ {i : ℕ} (h : i < ctx.environ.length) :
    get 8 m (top + 8 * (1 + ctx.argv.length + i)) =
      tableStart ctx top + (stringBytes ctx.argv + stringBytes (ctx.environ.take i)) := by
  have hindex : 1 + ctx.argv.length + i = ctx.argv.length + i + 1 := by omega
  rw [hword _ (by rw [wordCount]; omega), areaWords, hindex, List.getD_cons_succ,
    List.getD_append_right _ _ _ _ (by rw [length_pointers]; omega), length_pointers,
    Nat.add_sub_cancel_left, List.getD_append _ _ _ _ (by rwa [length_pointers]),
    pointers_getD _ _ h, Nat.add_assoc]

lemma read_behind {i : ℕ} (h : i < 27) :
    get 8 m (top + 8 * (1 + ctx.argv.length + ctx.environ.length + i)) =
      (0 :: (auxv ctx hwcap (tableStart ctx top + stringBytes ctx.argv + stringBytes ctx.environ)
        (tableStart ctx top + stringBytes ctx.argv + stringBytes ctx.environ +
          elfAuxvPlatform.bytes.length)
        (tableStart ctx top + stringBytes ctx.argv + stringBytes ctx.environ +
          elfAuxvPlatform.bytes.length + random.length)).flatMap fun entry =>
            [entry.1, entry.2]).getD i 0 := by
  have hindex : 1 + ctx.argv.length + ctx.environ.length + i =
      ctx.argv.length + (ctx.environ.length + i) + 1 := by omega
  rw [hword _ (by rw [wordCount]; omega), areaWords, hindex, List.getD_cons_succ,
    List.getD_append_right _ _ _ _ (by rw [length_pointers]; omega), length_pointers,
    Nat.add_sub_cancel_left, List.getD_append_right _ _ _ _ (by rw [length_pointers]; omega),
    length_pointers, Nat.add_sub_cancel_left]

include hbyte

lemma wellFormed_of_read {memory : ℕ → UInt8} (haligned : ctx.stackTop % 16 = 0 → top % 16 = 0)
    (hinside : tableStart ctx top + tableLength ctx random ≤ ctx.stackTop)
    (hframe : ∀ u, u < top ∨ tableStart ctx top + tableLength ctx random ≤ u → m u = memory u) :
    WellFormed ctx hwcap random memory m top where
  aligned := haligned
  inside := hinside
  frame := hframe
  argc := read_argc hword
  argv i h := by
    rw [read_argv hword h, ← length_flatMap_bytes]
    refine inTable_of_split hbyte ((ctx.argv.drop (i + 1)).flatMap CString.bytes ++
      (ctx.environ.flatMap CString.bytes ++
        (elfAuxvPlatform.bytes ++ (random ++ ctx.path.bytes)))) ?_
    rw [tableBytes, flatMap_split ctx.argv h, List.append_assoc, List.append_assoc]
  environ i h := by
    rw [read_environ hword h, ← length_flatMap_bytes, ← length_flatMap_bytes, ← List.length_append]
    refine inTable_of_split hbyte ((ctx.environ.drop (i + 1)).flatMap CString.bytes ++
      (elfAuxvPlatform.bytes ++ (random ++ ctx.path.bytes))) ?_
    rw [tableBytes, flatMap_split ctx.environ h, List.append_assoc, List.append_assoc,
      List.append_assoc]
  terminator := read_behind hword (Nat.zero_lt_succ 26)
  auxiliary := by
    let platform := tableStart ctx top + stringBytes ctx.argv + stringBytes ctx.environ
    let rand := platform + elfAuxvPlatform.bytes.length
    have hplatform : platform = tableStart ctx top + (ctx.argv.flatMap CString.bytes ++
        ctx.environ.flatMap CString.bytes).length := by
      rw [List.length_append, length_flatMap_bytes, length_flatMap_bytes, ← Nat.add_assoc]
    have hrand : rand = tableStart ctx top + (ctx.argv.flatMap CString.bytes ++
        ctx.environ.flatMap CString.bytes ++ elfAuxvPlatform.bytes).length := by
      rw [List.length_append, ← Nat.add_assoc, ← hplatform]
    refine ⟨platform, rand, rand + random.length, fun i hi => ?_, ?_, ?_, ?_⟩
    · rw [length_auxv] at hi
      have h := read_behind hword (Nat.succ_lt_succ hi)
      rw [List.getD_cons_succ] at h
      have hindex : top + 8 * (1 + ctx.argv.length + ctx.environ.length + 1) + 8 * i =
          top + 8 * (1 + ctx.argv.length + ctx.environ.length + (i + 1)) := by omega
      rw [hindex]
      exact h
    · rw [hplatform]
      refine inTable_of_split hbyte (random ++ ctx.path.bytes) ?_
      rw [tableBytes, List.append_assoc]
    · rw [hrand]
      refine inTable_of_split hbyte ctx.path.bytes ?_
      rw [tableBytes, List.append_assoc, List.append_assoc]
    · rw [hrand, Nat.add_assoc, ← List.length_append]
      refine inTable_of_split hbyte [] ?_
      rw [tableBytes, List.append_nil, List.append_assoc, List.append_assoc, List.append_assoc]

end

/-- The place in the page where the block of the new stack begins. -/
def pageOffset (ctx : Context) : ℕ := (2 ^ 64 - totalSize ctx) % pageSize

section

variable (ctx : Context) {random : List UInt8}

lemma totalSize_mod : totalSize ctx % 16 = 0 := by
  rw [totalSize, elfStackAlignment]
  exact Nat.mul_mod_left _ _

lemma totalSize_gt (hrandom : random.length = elfAuxvRandomDataSize) :
    8 * wordCount ctx + tableLength ctx random < totalSize ctx := by
  rw [totalSize, inputSizes_eq ctx hrandom, elfStackAlignment]
  omega

variable {ctx} (htotal : totalSize ctx ≤ elfStackSize)
include htotal

lemma pageOffset_add : pageOffset ctx + totalSize ctx = pmmAlignUpAddress (totalSize ctx) := by
  rw [elfStackSize] at htotal
  rw [pageOffset, pmmAlignUpAddress, pageSize]
  omega

lemma pushAll_run (hrandom : random.length = elfAuxvRandomDataSize) (hwcap : UInt32) {key : ℕ}
    (hkey : key + elfStackSize ≤ 2 ^ 64) (data : ℕ → UInt8) :
    ∃ s, pushAll ctx hwcap random key
        ((ctx.stackTop - totalSize ctx + 2 ^ 64 - (key + pageOffset ctx)) % 2 ^ 64)
        ⟨⟨pmmAlignUpAddress (totalSize ctx), data⟩, key + pageOffset ctx,
          key + pageOffset ctx + (inputSizes ctx).1⟩ = some s ∧
      Pushed key (pageOffset ctx) (8 * wordCount ctx) ⟨pmmAlignUpAddress (totalSize ctx), data⟩
        (areaWords ctx hwcap random (tableStart ctx (ctx.stackTop - totalSize ctx)))
        (tableBytes ctx random) s := by
  have hgt := totalSize_gt ctx hrandom
  have hpage := pageOffset_add htotal
  have htop := ctx.stackTop_lt
  have hstack := ctx.stack_le
  have hoffset : pageOffset ctx < pageSize := Nat.mod_lt _ (by decide)
  rw [elfStackSize] at htotal hstack hkey
  rw [pageSize] at hoffset
  have hinit : Pushed key (pageOffset ctx) (8 * wordCount ctx)
      ⟨pmmAlignUpAddress (totalSize ctx), data⟩ [] []
      ⟨⟨pmmAlignUpAddress (totalSize ctx), data⟩, key + pageOffset ctx,
        key + pageOffset ctx + (inputSizes ctx).1⟩ := by
    refine ⟨rfl, rfl, ?_, Nat.zero_le _, fun i hi => absurd hi (Nat.not_lt_zero i),
      fun i hi => absurd hi (Nat.not_lt_zero i), fun i _ => rfl⟩
    rw [inputSizes_eq ctx hrandom, List.length_nil, Nat.add_zero]
    exact Nat.add_assoc _ _ _
  have hemits : Emits key (pageOffset ctx) (8 * wordCount ctx)
      (tableStart ctx (ctx.stackTop - totalSize ctx)) ⟨pmmAlignUpAddress (totalSize ctx), data⟩
      (pushAll ctx hwcap random key
        ((ctx.stackTop - totalSize ctx + 2 ^ 64 - (key + pageOffset ctx)) % 2 ^ 64))
      (areaWords ctx hwcap random) (tableBytes ctx random) := by
    apply emits_pushAll
    · dsimp only
      omega
    · dsimp only [tableStart]
      omega
    · rw [tableStart]
      omega
  have hrun := hemits [] [] _ hinit
  rw [List.length_nil, List.length_nil, length_areaWords, length_tableBytes, Nat.zero_add,
    Nat.add_zero, List.nil_append, List.nil_append] at hrun
  refine hrun le_rfl ?_ ?_
  · dsimp only
    omega
  · rw [tableStart]
    omega

end

lemma wellFormed_of_pushed {ctx : Context} {random : List UInt8} {hwcap : UInt32} {key : ℕ}
    {memory : ℕ → UInt8} {s : Pushes}
    (hrandom : random.length = elfAuxvRandomDataSize) (htotal : totalSize ctx ≤ elfStackSize)
    (h : Pushed key (pageOffset ctx) (8 * wordCount ctx)
      ⟨pmmAlignUpAddress (totalSize ctx),
        fun j => memory (ctx.stackTop - pmmAlignUpAddress (totalSize ctx) + j)⟩
      (areaWords ctx hwcap random (tableStart ctx (ctx.stackTop - totalSize ctx)))
      (tableBytes ctx random) s) :
    WellFormed ctx hwcap random memory
      (throughRegion (ctx.stackTop - pmmAlignUpAddress (totalSize ctx))
        (pmmAlignUpAddress (totalSize ctx)) s.buffer.data memory)
      (ctx.stackTop - totalSize ctx) := by
  have hgt := totalSize_gt ctx hrandom
  have hmod := totalSize_mod ctx
  have hpage := pageOffset_add htotal
  have hstack := ctx.stack_le
  have hlength : pmmAlignUpAddress (totalSize ctx) ≤ elfStackSize := by
    rw [elfStackSize] at htotal
    rw [pmmAlignUpAddress, pageSize, elfStackSize]
    omega
  refine @wellFormed_of_read _ hwcap _ _ _ (fun i hi => ?_) (fun i hi => ?_) _ (by omega) ?_ ?_
  · rw [← h.word i (by rwa [length_areaWords])]
    refine get_congr_add fun j hj => ?_
    rw [throughRegion, if_pos (by omega)]
    congr 1
    omega
  · rw [← h.byte i (by rwa [length_tableBytes]), tableStart, throughRegion, if_pos (by omega)]
    congr 1
    omega
  · rw [tableStart]
    omega
  · intro u hu
    rw [tableStart] at hu
    rw [throughRegion]
    split_ifs with hin
    · rw [h.rest _ (by rw [length_tableBytes]; omega)]
      exact congrArg memory (by omega)
    · rfl

/-- **A process finds its arguments**, and nothing else is written. A stack whose top is inside a
page is not mapped. -/
theorem generateInputData_wellFormed (ctx : Context) (hwcap : UInt32) (random : List UInt8)
    (key : ℕ) (memory : ℕ → UInt8) (hrandom : random.length = elfAuxvRandomDataSize)
    (hkey : key + elfStackSize ≤ 2 ^ 64) :
    match generateInputData ctx hwcap random key memory with
    | none => ctx.stackTop % pageSize ≠ 0
    | some (.error .noSpace) => elfStackSize < totalSize ctx
    | some (.ok (top, m)) => WellFormed ctx hwcap random memory m top := by
  by_cases htotal : totalSize ctx ≤ elfStackSize
  · have hpage : (ctx.stackTop - pmmAlignUpAddress (totalSize ctx)) % pageSize =
        ctx.stackTop % pageSize := by
      have hstack := ctx.stack_le
      rw [elfStackSize] at htotal hstack
      rw [pmmAlignUpAddress, pageSize]
      omega
    by_cases hmapped : ctx.stackTop % pageSize = 0
    · obtain ⟨s, hs, hpushed⟩ := pushAll_run htotal hrandom hwcap hkey
        fun j => memory (ctx.stackTop - pmmAlignUpAddress (totalSize ctx) + j)
      have hresult : generateInputData ctx hwcap random key memory = some (.ok
          (ctx.stackTop - totalSize ctx,
            throughRegion (ctx.stackTop - pmmAlignUpAddress (totalSize ctx))
              (pmmAlignUpAddress (totalSize ctx)) s.buffer.data memory)) := by
        rw [generateInputData]
        dsimp only
        rw [if_neg (Nat.not_lt.mpr htotal), if_neg (not_not.mpr (hpage.trans hmapped))]
        exact congrArg (Option.map _) hs
      rw [hresult]
      exact wellFormed_of_pushed hrandom htotal hpushed
    · have hresult : generateInputData ctx hwcap random key memory = none := by
        rw [generateInputData]
        dsimp only
        rw [if_neg (Nat.not_lt.mpr htotal), if_pos (hpage ▸ hmapped)]
      rw [hresult]
      exact hmapped
  · have hresult : generateInputData ctx hwcap random key memory = some (.error .noSpace) := by
      rw [generateInputData]
      exact if_pos (Nat.lt_of_not_le htotal)
    rw [hresult]
    exact Nat.lt_of_not_le htotal

/-- A program with one argument and one string of the environment. -/
def oneArgument : Context where
  path := ⟨[47, 97], by decide, by decide⟩
  argv := [⟨[98, 99, 100], by decide, by decide⟩]
  environ := [⟨[72, 61, 47], by decide, by decide⟩]
  userPhdrAddress := 0x400040
  phentsize := 56
  phnum := 3
  entry := 0x401000
  interpreterImageBase := 0
  stackTop := 0x7fffffff0000
  argc_lt := by decide
  environ_lt := by decide
  inMemory := by decide
  stack_le := by decide
  stackTop_lt := by decide

theorem generateInputData_oneArgument : ∃ top m,
    generateInputData oneArgument 0 (List.replicate 16 7) 0x1000 (fun _ => 0) =
      some (.ok (top, m)) ∧
      WellFormed oneArgument 0 (List.replicate 16 7) (fun _ => 0) m top := by
  have h := generateInputData_wellFormed oneArgument 0 (List.replicate 16 7) 0x1000 (fun _ => 0)
    (by decide) (by decide)
  cases hresult : generateInputData oneArgument 0 (List.replicate 16 7) 0x1000 (fun _ => 0) with
  | none =>
    rw [hresult] at h
    exact absurd (by decide) h
  | some result =>
    rw [hresult] at h
    cases result with
    | error e =>
      cases e
      exact absurd h (by decide)
    | ok result => exact ⟨result.1, result.2, rfl, h⟩

end KernelModel.Elf
