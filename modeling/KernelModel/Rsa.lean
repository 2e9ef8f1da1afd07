import KernelModel.Words

/-!
The long division of the RSA module: numbers of words, and the reciprocal of a modulus.

A loop that carries from word to word says after how many words it stops. A word that is written
to the number that is being read was read before, so a loop reads the number as it was.
-/

namespace KernelModel.Rsa

open Function Words

/-- `rsa_number_t` -/
structure RsaNumber where
  length : ℕ
  capacity : ℕ
  data : ℕ → UInt32

namespace RsaNumber

def value (a : RsaNumber) : ℕ := Words.value a.data a.length

end RsaNumber

/-- `rsa_number_create` -/
def rsaNumberCreate (maxNumberLength : ℕ) : RsaNumber := ⟨0, maxNumberLength, fun _ => 0⟩

/-- The second loop of `_normalize`. -/
def trim (data : ℕ → UInt32) : ℕ → ℕ
  | 0 => 0
  | n + 1 => if n + 1 > 1 ∧ data n = 0 then trim data n else n + 1

/-- `_normalize` -/
def normalize (a : RsaNumber) : RsaNumber :=
  let data i := if a.length ≤ i ∧ i < a.capacity then 0 else a.data i
  { a with length := trim data a.length, data }

/-- The loop of `_is_less_than`. -/
def lessFrom (a b : ℕ → UInt32) : ℕ → Bool
  | 0 => false
  | i + 1 => if a i < b i then true else if a i > b i then false else lessFrom a b i

/-- `_is_less_than` -/
def isLessThan (a b : RsaNumber) : Bool :=
  if a.length < b.length then true
  else if a.length > b.length then false
  else lessFrom a.data b.data a.length

/-- The second loop of `_add`: the sum of two words is a word. -/
def addLoop (a b out : ℕ → UInt32) (bOffset : ℕ) : ℕ → (ℕ → UInt32) × ℕ
  | 0 => (fun i => if i < bOffset then a i else out i, 0)
  | n + 1 =>
    let (out, carry) := addLoop a b out bOffset n
    let i := bOffset + n
    let carry := (carry + (a i + b (i - bOffset)).toNat) % 2 ^ 64
    (update out i (UInt32.ofNat carry), carry / 2 ^ 32)

/-- `_add` -/
def add (a b : RsaNumber) (bOffset : ℕ) (out : RsaNumber) : RsaNumber :=
  normalize { out with
    length := a.length + 1
    data := (addLoop a.data b.data out.data bOffset (a.length - bOffset)).1 }

/-- The loop of `_subtract`. -/
def subtractLoop (a b out : ℕ → UInt32) : ℕ → (ℕ → UInt32) × ℕ
  | 0 => (out, 0)
  | i + 1 =>
    let (out, carry) := subtractLoop a b out i
    let value : ℤ := (a i).toNat - (b i).toNat - carry
    (update out i (UInt32.ofNat (value % 2 ^ 32).toNat), if value < 0 then 1 else 0)

/-- `_subtract`; the assertion only logs. -/
def subtract (a b out : RsaNumber) : RsaNumber :=
  normalize { out with
    length := a.length
    data := (subtractLoop a.data b.data out.data a.length).1 }

/-- The second loop of `_mult_int`. -/
def multIntLoop (a : ℕ → UInt32) (b : UInt32) (out : ℕ → UInt32) (outOffset : ℕ) :
    ℕ → (ℕ → UInt32) × ℕ
  | 0 => (fun i => if i < outOffset then 0 else out i, 0)
  | i + 1 =>
    let (out, carry) := multIntLoop a b out outOffset i
    let carry := (carry + (a i).toNat * b.toNat) % 2 ^ 64
    (update out (i + outOffset) (UInt32.ofNat carry), carry / 2 ^ 32)

/-- `_mult_int` -/
def multInt (a : RsaNumber) (b : UInt32) (out : RsaNumber) (outOffset : ℕ) : RsaNumber :=
  let (data, carry) := multIntLoop a.data b out.data outOffset a.length
  normalize { out with
    length := a.length + outOffset + 1
    data := update data (a.length + outOffset) (UInt32.ofNat carry) }

/-- The loop of `_shift_left_nooverflow`. -/
def shiftLoop (a : ℕ → UInt32) (b : ℕ) (out : ℕ → UInt32) : ℕ → (ℕ → UInt32) × ℕ
  | 0 => (out, 0)
  | i + 1 =>
    let (out, carry) := shiftLoop a b out i
    let carry := carry ||| (a i).toNat <<< b % 2 ^ 64
    (update out i (UInt32.ofNat carry), carry / 2 ^ 32)

/-- `_shift_left_nooverflow` -/
def shiftLeftNooverflow (a : RsaNumber) (b : ℕ) (out : RsaNumber) : RsaNumber :=
  { out with length := a.length, data := (shiftLoop a.data b out.data a.length).1 }

/-- `__builtin_clz` -/
def clz (w : UInt32) : ℕ := 31 - Nat.log2 w.toNat

/-- The inner loop of `_calculate_mu`; `k` is the product with the digit. -/
def correctDigit (a128 b64 : ℕ) : ℕ → ℕ
  | 0 => 0
  | digit + 1 => if a128 < b64 * (digit + 1) then correctDigit a128 b64 digit else digit + 1

/-- The numbers of `_calculate_mu`. -/
structure Division where
  a : RsaNumber
  mu : RsaNumber
  tmp : RsaNumber

section

variable (modulus : RsaNumber) (maxNumberLength : ℕ)

def shift : ℕ := clz (modulus.data (modulus.length - 1))

/-- `b` -/
def divisor : RsaNumber :=
  shiftLeftNooverflow modulus (shift modulus) (rsaNumberCreate maxNumberLength)

/-- Before the loop. -/
def firstDivision : Division :=
  let a := rsaNumberCreate maxNumberLength
  { a :=
      { a with
        length := modulus.length * 2 + 1
        data := update a.data (modulus.length * 2) (UInt32.ofNat (1 <<< shift modulus)) }
    mu := { rsaNumberCreate maxNumberLength with
      length := (divisor modulus maxNumberLength).length + 2 }
    tmp := rsaNumberCreate maxNumberLength }

/-- What is assigned to the digit first. -/
def trialDigit (a b : RsaNumber) (i : ℕ) : ℕ :=
  let b32 := b.data (b.length - 1)
  let a64 := (a.data i).toNat <<< 32 ||| (a.data (i - 1)).toNat
  if a.data i = b32 then 0xffffffff else a64 / b32.toNat

/-- The digit after the inner loop. -/
def estimatedDigit (a b : RsaNumber) (i : ℕ) : UInt32 :=
  let b64 := (b.data (b.length - 1)).toNat <<< 32 ||| (b.data (b.length - 2)).toNat
  let a64 := (a.data i).toNat <<< 32 ||| (a.data (i - 1)).toNat
  let a128 := a64 <<< 32 ||| (a.data (i - 2)).toNat
  UInt32.ofNat (correctDigit a128 b64 (UInt32.ofNat (trialDigit a b i)).toNat)

/-- A round of the loop of `_calculate_mu`. -/
def divide (b : RsaNumber) (j : ℕ) (s : Division) : Division :=
  let digit := estimatedDigit s.a b (j + b.length)
  let tmp := multInt b digit s.tmp j
  let (a, digit) := if isLessThan s.a tmp then (add s.a b j s.a, digit - 1) else (s.a, digit)
  { a := subtract a tmp a, mu := { s.mu with data := update s.mu.data j digit }, tmp }

/-- After the first rounds; the loop counts down. -/
def divisions : ℕ → Division
  | 0 => firstDivision modulus maxNumberLength
  | n + 1 => divide (divisor modulus maxNumberLength)
      ((divisor modulus maxNumberLength).length - n) (divisions n)

/-- `_calculate_mu` -/
def calculateMu : RsaNumber :=
  normalize (divisions modulus maxNumberLength ((divisor modulus maxNumberLength).length + 1)).mu

end

end KernelModel.Rsa
