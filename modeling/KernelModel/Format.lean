import Mathlib.Tactic

/-!
The formatters of the kernel and of the system library.

A conversion is the list of the characters it adds to the buffer, in order. The two formatters read
the template and the arguments in the same way; they differ in the loops over the digits, in what
they do with a character that does not fit, and in when they stop.
-/

namespace KernelModel.Format

/-- The code of an ASCII character. -/
abbrev code (c : Char) : UInt8 := UInt8.ofNat c.toNat

def codes (text : String) : List UInt8 := text.toList.map code

/-! ### Digits -/

/-- `_format_base16_char` -/
def formatBase16Char (value : ℕ) : UInt8 :=
  UInt8.ofNat (value % 16 + if value % 16 > 9 then 87 else 48)

/-- `do ... while (value)` over the decimal digits; the last digit is stored first. -/
def base10Digits (value : ℕ) : List UInt8 :=
  UInt8.ofNat (value % 10 + 48) :: if value / 10 = 0 then [] else base10Digits (value / 10)
decreasing_by omega

/-- `do ... while (value)` over the hexadecimal digits, in the kernel. -/
def base16Digits (value : ℕ) : List UInt8 :=
  formatBase16Char value :: if value / 16 = 0 then [] else base16Digits (value / 16)
decreasing_by omega

/-- `while (data)` over the hexadecimal digits, in the library. -/
def sysBase16Digits (data : ℕ) : List UInt8 :=
  if data = 0 then [] else formatBase16Char data :: sysBase16Digits (data / 16)
decreasing_by omega

/-- How a formatter writes a number. -/
structure Numbers where
  base10Int : ℕ → List UInt8
  base16Int : ℕ → List UInt8

/-- `_format_base10_int` and `_format_base16_int` of the kernel. -/
def kernelNumbers : Numbers where
  base10Int value := (base10Digits value).reverse
  base16Int value := (base16Digits value).reverse

/-- `_format_base10_int` of the library, which pads to a width. -/
def sysFormatBase10Int (value minWidth : ℕ) : List UInt8 :=
  let buffer := base10Digits value
  List.replicate (minWidth - buffer.length) (code '0') ++ buffer.reverse

def sysNumbers : Numbers where
  base10Int value := sysFormatBase10Int value 0
  base16Int value := (sysBase16Digits value).reverse

/-! ### Arguments -/

/-- An argument: a word, a pointer to a string or a null pointer, or a pointer to bytes. -/
inductive Arg
  | word (value : ℕ)
  | string (text : Option (List UInt8))
  | bytes (b : List UInt8)

/-- The size in the flags. -/
inductive Size
  | int
  | shortShort
  | short
  | long
  deriving DecidableEq

def nextWord : List Arg → Option (ℕ × List Arg)
  | .word value :: args => some (value, args)
  | _ => none

def nextString : List Arg → Option (Option (List UInt8) × List Arg)
  | .string text :: args => some (text, args)
  | _ => none

def nextBytes : List Arg → Option (List UInt8 × List Arg)
  | .bytes b :: args => some (b, args)
  | _ => none

/-- A word as a signed number of the given size. -/
def signedData (size : Size) (word : ℕ) : ℤ :=
  let data := if size = .long then (word : ℤ).bmod (2 ^ 64) else (word : ℤ).bmod (2 ^ 32)
  match size with
  | .short => data.bmod (2 ^ 16)
  | .shortShort => data.bmod (2 ^ 8)
  | _ => data

/-- A word as an unsigned number of the given size. -/
def unsignedData (size : Size) (word : ℕ) : ℕ :=
  let data := if size = .long then word % 2 ^ 64 else word % 2 ^ 32
  match size with
  | .short => data % 2 ^ 16
  | .shortShort => data % 2 ^ 8
  | _ => data

section

variable (n : Numbers)

/-- `_format_int` -/
def formatInt (sign hex : Bool) (size : Size) (word : ℕ) : List UInt8 :=
  let signed := signedData size word
  let front := if sign ∧ signed < 0 then [code '-'] else []
  let data := if sign then signed.natAbs else unsignedData size word
  if data = 0 then front ++ [code '0']
  else front ++ if hex then n.base16Int data else n.base10Int data

/-- The byte size of `%v`. -/
def formatSize (size : ℕ) : List UInt8 :=
  if size < 0x400 then n.base10Int size ++ codes " B"
  else if size < 0x100000 then n.base10Int (((size + 0x200) % 2 ^ 64) >>> 10) ++ codes " KB"
  else if size < 0x40000000 then n.base10Int (((size + 0x80000) % 2 ^ 64) >>> 20) ++ codes " MB"
  else if size < 0x10000000000 then
    n.base10Int (((size + 0x20000000) % 2 ^ 64) >>> 30) ++ codes " GB"
  else if size < 0x4000000000000 then
    n.base10Int (((size + 0x8000000000) % 2 ^ 64) >>> 40) ++ codes " TB"
  else if size < 0x1000000000000000 then
    n.base10Int (((size + 0x2000000000000) % 2 ^ 64) >>> 50) ++ codes " PB"
  else n.base10Int (((size + 0x800000000000000) % 2 ^ 64) >>> 60) ++ codes " EB"

/-- The address of `%p`, from the given number of nibbles on. -/
def formatAddress (address : ℕ) : ℕ → List UInt8
  | 0 => []
  | nibbles + 1 =>
    (if nibbles + 1 = 8 then [code '_'] else []) ++
      formatBase16Char (address >>> (4 * nibbles)) :: formatAddress address nibbles

/-- Nibble `i` of some bytes, the high one of a byte first. -/
def formatNibble (b : List UInt8) (i : ℕ) : UInt8 :=
  formatBase16Char ((b.getD (i / 2) 0).toNat >>> (if i % 2 = 0 then 4 else 0))

def formatUuid (uuid : List UInt8) : List UInt8 :=
  (List.range 32).flatMap fun i =>
    (if i = 8 ∨ i = 12 ∨ i = 16 ∨ i = 20 then [code '-'] else []) ++ [formatNibble uuid i]

def formatMac (macAddress : List UInt8) : List UInt8 :=
  (List.range 12).flatMap fun i =>
    (if i ≠ 0 ∧ i % 2 = 0 then [code ':'] else []) ++ [formatNibble macAddress i]

def formatIp4 (ip4 : ℕ) : List UInt8 :=
  (List.range 4).flatMap fun i =>
    (if i ≠ 0 then [code '.'] else []) ++ n.base10Int ((ip4 >>> (24 - 8 * i)) % 256)

/-- The conversions that only one of the two formatters knows. -/
def singleSided : List UInt8 := codes "jJfwt"

/-- The characters that a conversion adds, and the arguments behind it; none for a conversion that
only one of the formatters knows, or if the argument is not what the conversion wants. -/
def convert (size : Size) (c : UInt8) (args : List Arg) : Option (List UInt8 × List Arg) :=
  if c = code 'c' then
    (nextWord args).map fun (value, args) => ([UInt8.ofNat value], args)
  else if c = code 's' then
    (nextString args).map fun (text, args) => (text.getD (codes "(null)"), args)
  else if c = code 'd' then
    (nextWord args).map fun (value, args) => (formatInt n true false size value, args)
  else if c = code 'u' then
    (nextWord args).map fun (value, args) => (formatInt n false false size value, args)
  else if c = code 'x' then
    (nextWord args).map fun (value, args) => (formatInt n false true size value, args)
  else if c = code 'X' then
    (nextWord args).map fun (value, args) =>
      ([formatBase16Char ((value % 256) >>> 4), formatBase16Char (value % 256)], args)
  else if c = code 'v' then
    (nextWord args).map fun (value, args) => (formatSize n (value % 2 ^ 64), args)
  else if c = code 'p' then
    (nextWord args).map fun (value, args) => (formatAddress (value % 2 ^ 64) 16, args)
  else if c = code 'g' then
    (nextBytes args).map fun (uuid, args) => (formatUuid uuid, args)
  else if c = code 'M' then
    (nextBytes args).map fun (macAddress, args) => (formatMac macAddress, args)
  else if c = code 'I' then
    (nextWord args).map fun (value, args) => (formatIp4 n (value % 2 ^ 32), args)
  else if c ∈ singleSided then none
  else some ([code '%', c], args)

end

/-! ### The template -/

/-- The loop over the modifiers behind a percent sign: the size, the conversion and the rest. -/
def readFlags (size : Size) : List UInt8 → Option (Size × UInt8 × List UInt8)
  | [] => none
  | c :: template =>
    if c = code 'l' then readFlags .long template
    else if c = code 'h' then
      match template with
      | [] => readFlags .short []
      | d :: rest =>
        if d = code 'h' then readFlags .shortShort rest else readFlags .short (d :: rest)
    else some (size, c, template)
termination_by template => template.length

lemma readFlags_length {size size' : Size} {c : UInt8} {template rest : List UInt8}
    (h : readFlags size template = some (size', c, rest)) : rest.length < template.length := by
  induction size, template using readFlags.induct with
  | case1 size =>
    rw [readFlags] at h
    cases h
  | case2 size template ih =>
    rw [readFlags.eq_def] at h
    simp only [if_true] at h
    exact (ih h).trans (Nat.lt_succ_self _)
  | case3 size hl ih =>
    rw [readFlags, if_neg hl, if_pos rfl] at h
    exact (ih h).trans (Nat.lt_succ_self _)
  | case4 size template hl ih =>
    rw [readFlags, if_neg hl, if_pos rfl] at h
    simp only [if_true] at h
    exact (ih h).trans (by simp)
  | case5 size d template hd hl ih =>
    rw [readFlags, if_neg hl, if_pos rfl] at h
    simp only [if_neg hd] at h
    exact (ih h).trans (Nat.lt_succ_self _)
  | case6 size d template hl hh =>
    rw [readFlags.eq_def] at h
    simp only [if_neg hl, if_neg hh, Option.some.injEq, Prod.mk.injEq] at h
    rw [h.2.2]
    exact Nat.lt_succ_self _

structure BufferState where
  buffer : ℕ → UInt8
  offset : ℕ
  length : ℕ

/-- `_buffer_state_add` of the kernel: the last position is written again and again. -/
def add (out : BufferState) (c : UInt8) : BufferState :=
  { out with
    buffer := Function.update out.buffer out.offset c
    offset := out.offset + if out.offset < out.length then 1 else 0 }

/-- `_buffer_state_add` of the library. -/
def sysAdd (out : BufferState) (c : UInt8) : BufferState :=
  if out.offset ≥ out.length then out
  else { out with
    buffer := Function.update out.buffer out.offset c
    offset := out.offset + 1 }

/-- The loop over the template, in the kernel. -/
def formatLoop (template : List UInt8) (args : List Arg) (out : BufferState) :
    Option BufferState :=
  match template with
  | [] => some out
  | c :: template =>
    if c ≠ code '%' then formatLoop template args (add out c)
    else
      match _h : readFlags .int template with
      | none => some out
      | some (size, c, rest) =>
        (convert kernelNumbers size c args).bind fun (text, args) =>
          formatLoop rest args (text.foldl add out)
termination_by template.length
decreasing_by
  · exact Nat.lt_succ_self _
  · exact (readFlags_length _h).trans (Nat.lt_succ_self _)

/-- The loop over the template, in the library: it stops when the buffer is full. -/
def sysFormatLoop (template : List UInt8) (args : List Arg) (out : BufferState) :
    Option BufferState :=
  match template with
  | [] => some out
  | c :: template =>
    if out.offset ≥ out.length then some out
    else if c ≠ code '%' then sysFormatLoop template args (sysAdd out c)
    else
      match _h : readFlags .int template with
      | none => some out
      | some (size, c, rest) =>
        (convert sysNumbers size c args).bind fun (text, args) =>
          sysFormatLoop rest args (text.foldl sysAdd out)
termination_by template.length
decreasing_by
  · exact Nat.lt_succ_self _
  · exact (readFlags_length _h).trans (Nat.lt_succ_self _)

/-- The text is ended; the length and the buffer are returned. -/
def BufferState.finish (out : BufferState) : ℕ × (ℕ → UInt8) :=
  (out.offset, Function.update out.buffer out.offset 0)

/-- `format_string_va` -/
def formatStringVa (buffer : ℕ → UInt8) (length : ℕ) (template : List UInt8) (args : List Arg) :
    Option (ℕ × (ℕ → UInt8)) :=
  if length = 0 then some (0, buffer)
  else (formatLoop template args ⟨buffer, 0, length - 1⟩).map BufferState.finish

/-- `sys_format_string_va` -/
def sysFormatStringVa (buffer : ℕ → UInt8) (length : ℕ) (template : List UInt8)
    (args : List Arg) : Option (ℕ × (ℕ → UInt8)) :=
  if length = 0 then some (0, buffer)
  else (sysFormatLoop template args ⟨buffer, 0, length - 1⟩).map BufferState.finish

end KernelModel.Format
