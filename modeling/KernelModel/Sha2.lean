import KernelModel.LittleEndian
import Mathlib.Data.Nat.NthRoot.Defs
import Mathlib.Tactic

/-!
The secure hash algorithm SHA-256, as FIPS 180-4 states it, for messages of whole bytes.

The standard limits a message to less than `2 ^ 64` bits; the digest here is that of the
standard for these. A message of any other length is one whose length is taken modulo `2 ^ 64`.
-/

namespace KernelModel.Sha2

open LittleEndian

abbrev Word := BitVec 32

/-! ### Functions and constants -/

def ch (x y z : Word) : Word := (x &&& y) ^^^ (~~~x &&& z)

def maj (x y z : Word) : Word := (x &&& y) ^^^ (x &&& z) ^^^ (y &&& z)

def bigSigma0 (x : Word) : Word := x.rotateRight 2 ^^^ x.rotateRight 13 ^^^ x.rotateRight 22

def bigSigma1 (x : Word) : Word := x.rotateRight 6 ^^^ x.rotateRight 11 ^^^ x.rotateRight 25

def smallSigma0 (x : Word) : Word := x.rotateRight 7 ^^^ x.rotateRight 18 ^^^ (x >>> 3)

def smallSigma1 (x : Word) : Word := x.rotateRight 17 ^^^ x.rotateRight 19 ^^^ (x >>> 10)

/-- The first sixty-four primes. -/
def primes : List ℕ := (List.range 312).filter Nat.Prime

/-- The first thirty-two bits of the fractional part of a cube root. -/
def cubeRootBits (n : ℕ) : Word := BitVec.ofNat 32 (Nat.nthRoot 3 (n * 2 ^ 96))

/-- The first thirty-two bits of the fractional part of a square root. -/
def squareRootBits (n : ℕ) : Word := BitVec.ofNat 32 (Nat.sqrt (n * 2 ^ 64))

def constant (t : ℕ) : Word := cubeRootBits (primes.getD t 0)

/-- The working variables, and the hash values. -/
@[ext] structure Words where
  a : Word
  b : Word
  c : Word
  d : Word
  e : Word
  f : Word
  g : Word
  h : Word
  deriving DecidableEq

def initial : Words where
  a := squareRootBits 2
  b := squareRootBits 3
  c := squareRootBits 5
  d := squareRootBits 7
  e := squareRootBits 11
  f := squareRootBits 13
  g := squareRootBits 17
  h := squareRootBits 19

/-! ### Padding -/

lemma exists_zeroBytes (length : ℕ) : ∃ k, (length + 1 + k) % 64 = 56 :=
  ⟨63 * (length + 1) + 56, by omega⟩

/-- The smallest number of zero bytes with which the length comes last in a block. -/
def zeroBytes (length : ℕ) : ℕ := Nat.find (exists_zeroBytes length)

/-- A number in `n` bytes, the highest one first. -/
def bytesOf (n v : ℕ) : List UInt8 := (List.range n).map fun i => byte v (n - 1 - i)

/-- What is added to a message: a bit `1`, zeros, and the number of its bits. -/
def padding (length : ℕ) : List UInt8 :=
  0x80 :: (List.replicate (zeroBytes length) 0 ++ bytesOf 8 (8 * length))

def pad (message : List UInt8) : List UInt8 := message ++ padding message.length

/-! ### The hash -/

/-- The message schedule of a block with the words `m`. -/
def schedule (m : ℕ → Word) (t : ℕ) : Word :=
  if t < 16 then m t
  else smallSigma1 (schedule m (t - 2)) + schedule m (t - 7) +
    smallSigma0 (schedule m (t - 15)) + schedule m (t - 16)

/-- One round, with word `w` of the schedule and constant `k`. -/
def round (r : Words) (k w : Word) : Words :=
  let t1 := r.h + bigSigma1 r.e + ch r.e r.f r.g + k + w
  let t2 := bigSigma0 r.a + maj r.a r.b r.c
  { a := t1 + t2
    b := r.a
    c := r.b
    d := r.c
    e := r.d + t1
    f := r.e
    g := r.f
    h := r.g }

/-- The rounds `0` to `n - 1`. -/
def rounds (m : ℕ → Word) (r : Words) (n : ℕ) : Words :=
  (List.range n).foldl (fun r t => round r (constant t) (schedule m t)) r

/-- The hash values after a block with the words `m`. -/
def compress (hash : Words) (m : ℕ → Word) : Words :=
  let r := rounds m hash 64
  { a := r.a + hash.a
    b := r.b + hash.b
    c := r.c + hash.c
    d := r.d + hash.d
    e := r.e + hash.e
    f := r.f + hash.f
    g := r.g + hash.g
    h := r.h + hash.h }

/-- Word `j` of block `i` of a message. -/
def blockWord (message : ℕ → UInt8) (i j : ℕ) : Word :=
  BitVec.ofNat 32 (getBig 4 message (64 * i + 4 * j))

/-- The hash values after `i` blocks. -/
def hash (message : ℕ → UInt8) : ℕ → Words
  | 0 => initial
  | i + 1 => compress (hash message i) (blockWord message i)

/-- The bytes of the hash values. -/
def Words.bytes (r : Words) : List UInt8 :=
  [r.a, r.b, r.c, r.d, r.e, r.f, r.g, r.h].flatMap fun w => bytesOf 4 w.toNat

/-- The message digest. -/
def digest (message : List UInt8) : List UInt8 :=
  (hash (fun i => (pad message).getD i 0) ((pad message).length / 64)).bytes

/-! ### What follows -/

lemma zeroBytes_eq (length : ℕ) : zeroBytes length = (119 - length % 64) % 64 := by
  rw [zeroBytes, Nat.find_eq_iff]
  refine ⟨by omega, fun k hk => ?_⟩
  omega

lemma length_bytesOf (n v : ℕ) : (bytesOf n v).length = n := by
  rw [bytesOf, List.length_map, List.length_range]

lemma length_padding (length : ℕ) : (padding length).length = zeroBytes length + 9 := by
  rw [padding, List.length_cons, List.length_append, List.length_replicate, length_bytesOf]

lemma schedule_of_lt {m : ℕ → Word} {t : ℕ} (h : t < 16) : schedule m t = m t := by
  rw [schedule, if_pos h]

lemma schedule_of_ge {m : ℕ → Word} {t : ℕ} (h : 16 ≤ t) :
    schedule m t = smallSigma1 (schedule m (t - 2)) + schedule m (t - 7) +
      smallSigma0 (schedule m (t - 15)) + schedule m (t - 16) := by
  rw [schedule, if_neg (by omega)]

lemma schedule_congr {m m' : ℕ → Word} (h : ∀ j < 16, m j = m' j) (t : ℕ) :
    schedule m t = schedule m' t := by
  induction t using Nat.strong_induction_on with
  | _ t ih =>
    rcases Nat.lt_or_ge t 16 with hlt | hge
    · rw [schedule_of_lt hlt, schedule_of_lt hlt, h t hlt]
    · rw [schedule_of_ge hge, schedule_of_ge hge, ih _ (by omega), ih (t - 7) (by omega),
        ih (t - 15) (by omega), ih (t - 16) (by omega)]

lemma rounds_congr {m m' : ℕ → Word} (h : ∀ j < 16, m j = m' j) (r : Words) (n : ℕ) :
    rounds m r n = rounds m' r n := by
  have hround : (fun r t => round r (constant t) (schedule m t)) =
      fun r t => round r (constant t) (schedule m' t) := by
    funext r t
    rw [schedule_congr h t]
  rw [rounds, rounds, hround]

lemma compress_congr {m m' : ℕ → Word} (h : ∀ j < 16, m j = m' j) (r : Words) :
    compress r m = compress r m' := by
  rw [compress, compress, rounds_congr h]

attribute [irreducible] constant rounds compress

end KernelModel.Sha2
