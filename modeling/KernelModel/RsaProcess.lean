import KernelModel.Rsa

/-!
The exponentiation of the RSA module.

The exponent is read from the top in windows of at most six bits that end in a one, and every
product is reduced with the reciprocal of the modulus. A number that is created has the capacity
of the state.
-/

namespace KernelModel.Rsa

open Function

/-- `_clear` -/
def clear (a : RsaNumber) : RsaNumber :=
  { a with data := fun i => if i < a.capacity then 0 else a.data i }

/-- The inner loop of `_mult` and of `_square`. -/
def multRow (x : UInt32) (b : ℕ → UInt32) (i : ℕ) (out : ℕ → UInt32) :
    ℕ → (ℕ → UInt32) × ℕ
  | 0 => (out, 0)
  | j + 1 =>
    let (out, carry) := multRow x b i out j
    let carry := (carry + (out (i + j)).toNat + x.toNat * (b j).toNat) % 2 ^ 64
    (update out (i + j) (UInt32.ofNat carry), carry / 2 ^ 32)

/-- The outer loop of `_mult` and of `_square`. -/
def multLoop (a : ℕ → UInt32) (aRightShift : ℕ) (b : ℕ → UInt32) (bLength : ℕ)
    (out : ℕ → UInt32) : ℕ → ℕ → UInt32
  | 0 => out
  | i + 1 =>
    let (out, carry) :=
      multRow (a (i + aRightShift)) b i (multLoop a aRightShift b bLength out i) bLength
    update out (i + bLength) (UInt32.ofNat carry)

/-- `_mult` -/
def mult (a : RsaNumber) (aRightShift : ℕ) (b out : RsaNumber) : RsaNumber :=
  let out := clear out
  if aRightShift ≥ a.length then { out with length := 1 }
  else
    normalize { out with
      length := a.length - aRightShift + b.length
      data := multLoop a.data aRightShift b.data b.length out.data (a.length - aRightShift) }

/-- `_square` -/
def square (a out : RsaNumber) : RsaNumber :=
  let out := clear out
  normalize { out with
    length := a.length * 2
    data := multLoop a.data 0 a.data a.length out.data a.length }

/-- `_subtract_fixed_length` -/
def subtractFixedLength (a b : RsaNumber) (length : ℕ) (out : RsaNumber) : RsaNumber :=
  normalize { out with
    length := length
    data := (subtractLoop a.data b.data out.data length).1 }

/-- `rsa_state_t` -/
structure RsaState where
  maxNumberLength : ℕ
  modulus : RsaNumber
  mu : RsaNumber
  publicKey : Option RsaNumber
  privateKey : Option RsaNumber

namespace RsaState

variable (state : RsaState)

def create : RsaNumber := rsaNumberCreate state.maxNumberLength

/-- The number one, with which the accumulator starts. -/
def one : RsaNumber :=
  { state.create with length := 1, data := update state.create.data 0 1 }

/-- The loop of `_modulo`. A round makes the value smaller, so that it is a bound of the rounds. -/
def moduloLoop : ℕ → RsaNumber → RsaNumber
  | 0, a => a
  | n + 1, a =>
    if isLessThan state.modulus a then moduloLoop n (subtract a state.modulus a) else a

/-- `_modulo`; the assertion only logs. -/
def modulo (a : RsaNumber) : RsaNumber :=
  if isLessThan a state.modulus then a
  else
    let k := state.modulus.length
    let tmp1 := mult a (k - 1) state.mu state.create
    let tmp2 := mult tmp1 (k + 1) state.modulus state.create
    let a := subtractFixedLength a tmp2 (k + 1) a
    state.moduloLoop a.value a

/-- The two numbers of `tmp`, the one at `j` first. -/
abbrev Pair : Type := RsaNumber × RsaNumber

/-- `_square` into the other number, `_modulo` and `j^=1` -/
def squareStep (tmp : Pair) : Pair := (state.modulo (square tmp.1 tmp.2), tmp.1)

/-- `_mult` into the other number, `_modulo` and `j^=1` -/
def multStep (tmp : Pair) (b : RsaNumber) : Pair := (state.modulo (mult tmp.1 0 b tmp.2), tmp.1)

/-- The entries of `table`. -/
def tableEntry (value valueSq : RsaNumber) : ℕ → RsaNumber
  | 0 => value
  | i + 1 => state.modulo (mult (tableEntry value valueSq i) 0 valueSq state.create)

end RsaState

/-- `__builtin_ffs` -/
def ffs (w : ℕ) : ℕ := (((List.range 32).find? w.testBit).map (· + 1)).getD 0

/-- `mask`, `mask_length` and `tmp` of `rsa_state_process`. -/
structure Window where
  mask : ℕ
  maskLength : ℕ
  tmp : RsaState.Pair

namespace RsaState

variable (state : RsaState) (table : ℕ → RsaNumber)

/-- The window has all its bits. -/
def flush (s : Window) : Window :=
  let padding := ffs s.mask - 1
  let mask := s.mask / 2 ^ padding
  let tmp := state.squareStep^[s.maskLength - padding] s.tmp
  let tmp := state.multStep tmp (table (mask / 2))
  ⟨0, 0, state.squareStep^[padding] tmp⟩

/-- A round of the loop over the bits of the exponent. -/
def bitStep (exponent : RsaNumber) (i : ℕ) (s : Window) : Window :=
  let bit := (exponent.data (i / 32)).toNat / 2 ^ (i % 32) % 2
  let mask := (s.mask * 2 + bit) % 2 ^ 32
  let maskLength := s.maskLength + if mask = 0 then 0 else 1
  let s' : Window := ⟨mask, maskLength, s.tmp⟩
  if i ≠ 0 then
    if mask = 0 then { s' with tmp := state.squareStep s.tmp }
    else if maskLength < 6 then s'
    else state.flush table s'
  else if maskLength = 0 then { s' with tmp := state.squareStep s.tmp }
  else state.flush table s'

/-- The loop over the bits of the exponent; it counts down. -/
def bitLoop (exponent : RsaNumber) : ℕ → Window → Window
  | 0, s => s
  | i + 1, s => bitLoop exponent i (state.bitStep table exponent i s)

end RsaState

/-- What `rsa_state_process` copies to its result. -/
def copyResult (result out : RsaNumber) : RsaNumber :=
  { out with
    length := result.length
    data := fun i => if i < result.capacity then result.data i else out.data i }

/-- `RSA_PUBLIC_KEY` and `RSA_PRIVATE_KEY` -/
inductive Key where
  | publicKey
  | privateKey

/-- `rsa_state_process`; nothing is returned where it panics. -/
def rsaStateProcess (state : RsaState) (value : RsaNumber) (key : Key) (out : RsaNumber) :
    Option RsaNumber :=
  if value.capacity ≠ state.maxNumberLength then none
  else
    let value := normalize value
    if !isLessThan value state.modulus then none
    else
      match (match key with
        | .publicKey => state.publicKey
        | .privateKey => state.privateKey) with
      | none => none
      | some exponent =>
        if !isLessThan exponent state.modulus then none
        else if out.capacity ≠ state.maxNumberLength then none
        else
          let valueSq := state.modulo (square value state.create)
          let s := state.bitLoop (state.tableEntry value valueSq) exponent (exponent.length * 32)
            ⟨0, 0, (state.one, state.create)⟩
          some (copyResult s.tmp.1 out)

end KernelModel.Rsa
