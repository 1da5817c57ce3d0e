import KeyTree.Sha2.Basic
import Mathlib.Algebra.GroupWithZero.Nat

/-!
# The SHA-2 digests, word by word

The digests once more, as the standard defines them: words are bit vectors, and a word of the
schedule, the state after a round and the state after a block are functions of their number. Nothing
is optimised. The tables are computed from prime numbers, so no table of `Sha256` or `Sha512` is
taken on trust.

* **`Standard.schedule`**: the word of round `t`, by the recurrence.
* **`Standard.after`**: the state after `t` rounds on a block; **`Standard.chain`**: after `i` blocks.
* **`Standard.digest`**: the digest of a message, for **`Standard.sha256`** and
  **`Standard.sha512`**.
-/

namespace KeyTree.Sha2.Standard

/-- What tells one digest of the family from another. The mixing functions are given by the
distances that a word is moved: three rotations, or two and a shift. -/
structure Parameters where
  wordBytes : Nat
  rounds : Nat
  bigSigma0 : Nat × Nat × Nat
  bigSigma1 : Nat × Nat × Nat
  smallSigma0 : Nat × Nat × Nat
  smallSigma1 : Nat × Nat × Nat

def sha256 : Parameters where
  wordBytes := 4
  rounds := 64
  bigSigma0 := (2, 13, 22)
  bigSigma1 := (6, 11, 25)
  smallSigma0 := (7, 18, 3)
  smallSigma1 := (17, 19, 10)

def sha512 : Parameters where
  wordBytes := 8
  rounds := 80
  bigSigma0 := (28, 34, 39)
  bigSigma1 := (14, 18, 41)
  smallSigma0 := (1, 8, 7)
  smallSigma1 := (19, 61, 6)

/-! ## Tables -/

/-- The eighty prime numbers below 410, in order. -/
def primes : List Nat :=
  (List.range 410).filter fun n => 2 ≤ n ∧ ∀ d < n, 2 ≤ d → n % d ≠ 0

/-- The largest number that agrees with `start` above its lowest `bits` bits and whose power with
exponent `k` is at most `n`. -/
def floorRoot (k n : Nat) : (bits start : Nat) → Nat
  | 0, start => start
  | bits + 1, start =>
    floorRoot k n bits (if (start + 2 ^ bits) ^ k ≤ n then start + 2 ^ bits else start)

/-- The first `width` bits behind the point in the root with exponent `k` of `n`. The root's whole
part, below 32, is cut off. -/
def rootFraction (k n width : Nat) : BitVec width :=
  BitVec.ofNat width (floorRoot k (n * 2 ^ (k * width)) (width + 5) 0)

namespace Parameters

variable (p : Parameters)

abbrev Word : Type :=
  BitVec (8 * p.wordBytes)

/-- The constant of round `t`, from the cube root of a prime. -/
def constant (t : Nat) : p.Word :=
  rootFraction 3 (primes.getD t 0) (8 * p.wordBytes)

/-- The state in front of the first block, from the square roots of the first primes. -/
def initial : State p.Word :=
  let word i := rootFraction 2 (primes.getD i 0) (8 * p.wordBytes)
  ⟨word 0, word 1, word 2, word 3, word 4, word 5, word 6, word 7⟩

/-! ## One block -/

/-- Three rotated copies of a word, added without carry. -/
def rotations (distances : Nat × Nat × Nat) (x : p.Word) : p.Word :=
  x.rotateRight distances.1 ^^^ x.rotateRight distances.2.1 ^^^ x.rotateRight distances.2.2

/-- Two rotated copies of a word and a shifted one, added without carry. -/
def rotationsAndShift (distances : Nat × Nat × Nat) (x : p.Word) : p.Word :=
  x.rotateRight distances.1 ^^^ x.rotateRight distances.2.1 ^^^ (x >>> distances.2.2)

def schedule (block : Nat → p.Word) (t : Nat) : p.Word :=
  if t < 16 then block t
  else
    p.rotationsAndShift p.smallSigma1 (schedule block (t - 2)) + schedule block (t - 7) +
      p.rotationsAndShift p.smallSigma0 (schedule block (t - 15)) + schedule block (t - 16)
termination_by t

def after (start : State p.Word) (block : Nat → p.Word) : Nat → State p.Word
  | 0 => start
  | t + 1 =>
    let s := after start block t
    let t₁ := s.h + p.rotations p.bigSigma1 s.e + ((s.e &&& s.f) ^^^ (~~~ s.e &&& s.g)) +
      p.constant t + p.schedule block t
    let t₂ := p.rotations p.bigSigma0 s.a + ((s.a &&& s.b) ^^^ (s.a &&& s.c) ^^^ (s.b &&& s.c))
    { a := t₁ + t₂, b := s.a, c := s.b, d := s.c, e := s.d + t₁, f := s.e, g := s.f, h := s.g }

/-! ## The whole message -/

/-- The message, `0x80`, the fewest zeros that make the whole a multiple of sixteen words, and the
message's length in bits as two words. -/
def padded (message : Bytes) : Bytes :=
  let zeros := (List.range (16 * p.wordBytes)).find? fun k =>
    (message.length + 1 + k + 2 * p.wordBytes) % (16 * p.wordBytes) = 0
  message ++ [0x80] ++ List.replicate (zeros.getD 0) 0 ++
    (List.range (2 * p.wordBytes)).reverse.map fun i => UInt8.ofNat (8 * message.length / 256 ^ i)

/-- Word `t` of block `i`: its first byte weighs most. -/
def blockWord (bytes : Bytes) (i t : Nat) : p.Word :=
  let first := (16 * i + t) * p.wordBytes
  BitVec.ofNat _ ((List.range p.wordBytes).map fun j =>
    (bytes.getD (first + j) 0).toNat * 256 ^ (p.wordBytes - 1 - j)).sum

def chain (bytes : Bytes) : Nat → State p.Word
  | 0 => p.initial
  | i + 1 =>
    let before := chain bytes i
    before + p.after before (p.blockWord bytes i) p.rounds

/-- The digest: the words of the last state, the first byte of each the one that weighs most. -/
def digest (message : Bytes) : Bytes :=
  let bytes := p.padded message
  (p.chain bytes (bytes.length / (16 * p.wordBytes))).toList.flatMap fun word =>
    (List.range p.wordBytes).map fun j =>
      UInt8.ofNat (word.toNat / 256 ^ (p.wordBytes - 1 - j))

end Parameters

end KeyTree.Sha2.Standard
