import KeyTree.Bytes

/-!
# The SHA-2 digests

One algorithm at two word sizes. A `Variant` holds what differs: the words, the four mixing
functions, the round constants and the initial state. The message is padded to whole blocks of
sixteen words, and each block is compressed into a state of eight words.

* **`Variant.pad`** with **`Variant.blockBytes_dvd_length_pad`**: the padded message consists of
  whole blocks.
* **`Variant.schedule`**: the words that the rounds take in, one each. It works on a window of the
  sixteen latest words: the oldest is handed out, the one that follows them is taken in.
* **`Variant.compress`**: one block. **`Variant.absorb`**: that many blocks in order.
* **`Variant.digest`**: the whole digest, eight words long.
-/

namespace KeyTree.Sha2

/-- The eight words that are carried from round to round and from block to block. -/
structure State (α : Type) where
  a : α
  b : α
  c : α
  d : α
  e : α
  f : α
  g : α
  h : α
  deriving DecidableEq, Repr

namespace State

variable {α : Type}

def toList (s : State α) : List α :=
  [s.a, s.b, s.c, s.d, s.e, s.f, s.g, s.h]

instance [Add α] : Add (State α) where
  add s t :=
    ⟨s.a + t.a, s.b + t.b, s.c + t.c, s.d + t.d, s.e + t.e, s.f + t.f, s.g + t.g, s.h + t.h⟩

end State

/-- What tells one digest of the family from another. -/
structure Variant (α : Type) where
  wordBytes : Nat
  wordBytes_pos : 0 < wordBytes
  /-- The word with a given value, reduced to its size. -/
  ofNat : Nat → α
  toNat : α → Nat
  /-- Mixes the first word of the state. -/
  bigSigma0 : α → α
  /-- Mixes the fifth word of the state. -/
  bigSigma1 : α → α
  /-- Mixes an early word of the schedule. -/
  smallSigma0 : α → α
  /-- Mixes a late word of the schedule. -/
  smallSigma1 : α → α
  constants : List α
  initial : State α

/-- Each bit of `x` chooses the bit of `y` or that of `z`. -/
def choose {α : Type} [AndOp α] [XorOp α] [Complement α] (x y z : α) : α :=
  (x &&& y) ^^^ (~~~ x &&& z)

/-- The bit that at least two of the three have. -/
def majority {α : Type} [AndOp α] [XorOp α] (x y z : α) : α :=
  (x &&& y) ^^^ (x &&& z) ^^^ (y &&& z)

namespace Variant

variable {α : Type} (v : Variant α)

/-! ## Padding -/

def blockBytes : Nat :=
  16 * v.wordBytes

/-- How many zero bytes stand between the end mark and the length: the fewest that fill a block. -/
def zeros (length : Nat) : Nat :=
  (v.blockBytes - (length + 1 + 2 * v.wordBytes) % v.blockBytes) % v.blockBytes

/-- The message, the end mark `0x80`, zeros, and the message's length in bits as two words. -/
def pad (message : Bytes) : Bytes :=
  message ++ 0x80 :: List.replicate (v.zeros message.length) 0 ++
    bigEndian (2 * v.wordBytes) (8 * message.length)

theorem blockBytes_pos : 0 < v.blockBytes :=
  Nat.mul_pos (by decide) v.wordBytes_pos

theorem zeros_lt (length : Nat) : v.zeros length < v.blockBytes :=
  Nat.mod_lt _ v.blockBytes_pos

theorem length_pad (message : Bytes) :
    (v.pad message).length = message.length + 1 + 2 * v.wordBytes + v.zeros message.length := by
  simp only [pad, List.length_append, List.length_cons, List.length_replicate, length_bigEndian]
  omega

theorem blockBytes_dvd_length_pad (message : Bytes) :
    v.blockBytes ∣ (v.pad message).length := by
  have hpos := v.blockBytes_pos
  rw [length_pad, Nat.dvd_iff_mod_eq_zero, zeros, Nat.add_mod_mod]
  rw [← Nat.mod_add_mod]
  have hlt := Nat.mod_lt (message.length + 1 + 2 * v.wordBytes) hpos
  rw [Nat.add_sub_cancel' (Nat.le_of_lt hlt), Nat.mod_self]

/-! ## One block -/

def words (block : Bytes) : Vector α 16 :=
  Vector.ofFn fun i =>
    v.ofNat (ofBigEndian ((block.drop (v.wordBytes * i)).take v.wordBytes))

variable [Add α]

/-- The word that follows sixteen words of the schedule. -/
def following (window : Vector α 16) : α :=
  v.smallSigma1 window[14] + window[9] + v.smallSigma0 window[1] + window[0]

def slide (window : Vector α 16) : Vector α 16 :=
  window.tail.push (v.following window)

/-- The next `count` words of the schedule, of which `window` shows the first sixteen. -/
def schedule : Nat → Vector α 16 → List α
  | 0, _ => []
  | count + 1, window => window[0] :: schedule count (v.slide window)

variable [AndOp α] [XorOp α] [Complement α]

/-- One round, with its constant and its word of the schedule. -/
def round (s : State α) (constant word : α) : State α :=
  let t₁ := s.h + v.bigSigma1 s.e + choose s.e s.f s.g + constant + word
  let t₂ := v.bigSigma0 s.a + majority s.a s.b s.c
  { a := t₁ + t₂, b := s.a, c := s.b, d := s.c, e := s.d + t₁, f := s.e, g := s.f, h := s.g }

/-- All rounds on one block, and the state from before them added on top. -/
def compress (s : State α) (block : Bytes) : State α :=
  let schedule := v.schedule v.constants.length (v.words block)
  s + (v.constants.zip schedule).foldl (fun t (constant, word) => v.round t constant word) s

/-! ## The whole message -/

/-- The state after the first `count` blocks of `bytes`. -/
def absorb : Nat → State α → Bytes → State α
  | 0, s, _ => s
  | count + 1, s, bytes =>
    absorb count (v.compress s (bytes.take v.blockBytes)) (bytes.drop v.blockBytes)

def output (s : State α) : FixedBytes (8 * v.wordBytes) :=
  ⟨s.toList.flatMap fun word => bigEndian v.wordBytes (v.toNat word), by
    simp [State.toList, List.flatMap_cons]; omega⟩

def digest (message : Bytes) : FixedBytes (8 * v.wordBytes) :=
  let padded := v.pad message
  v.output (v.absorb (padded.length / v.blockBytes) v.initial padded)

end Variant

end KeyTree.Sha2
