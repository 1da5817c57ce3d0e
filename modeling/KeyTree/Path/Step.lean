import KeyTree.Failure

/-!
# Steps of a path

A step names a child by an index below `2 ^ 31` and says whether the child is hardened. As text it
is the index in decimal digits, with one mark behind them, `h` or an apostrophe, if it is hardened.

* **`Step.childNumber`** packs both into 32 bits.
* **`Step.text`** writes a step, **`Step.parse`** reads one. The digits are judged before the size of
  the number, and the number by its value, however many zeros stand in front.
-/

namespace KeyTree

@[ext]
structure Step where
  index : UInt32
  hardened : Bool
  deriving DecidableEq, Repr

/-- The child number of the first hardened child; indices are smaller. -/
def hardenedOffset : UInt32 := 0x80000000

namespace Step

/-- The index, in the upper half of the range if the step is hardened. -/
def childNumber (step : Step) : UInt32 :=
  if step.hardened then step.index + hardenedOffset else step.index

/-! ## Text -/

def hardenedMark : UInt8 := 'h'.toUInt8

def apostrophe : UInt8 := 39

def text (step : Step) : Bytes :=
  Decimal.text step.index.toNat ++ if step.hardened then [hardenedMark] else []

/-! ## Reading -/

/-- The segment without a mark at its end, and whether there was one. At most one is taken off. -/
def splitMark (segment : Bytes) : Bytes × Bool :=
  match segment.getLast? with
  | some c => if c = hardenedMark ∨ c = apostrophe then (segment.dropLast, true) else (segment, false)
  | none => (segment, false)

/-- The number `n` with one more digit, unless that makes it too large for an index. -/
def pushDigit (n : UInt64) (c : UInt8) : Option UInt64 :=
  let next := n * 10 + (c - Decimal.zero).toUInt64
  if next < hardenedOffset.toUInt64 then some next else none

/-- The index that a string of digits denotes, if it is in range. Reading ends with the first digit
that makes the number too large. -/
def readIndex (digits : Bytes) : Option UInt32 :=
  (digits.foldlM pushDigit 0).map UInt64.toUInt32

def parse (segment : Bytes) : Except Failure Step :=
  let (digits, hardened) := splitMark segment
  if digits = [] ∨ ¬ digits.all (Decimal.IsDigit ·) then .error (.badSegment segment)
  else
    match readIndex digits with
    | some index => .ok { index, hardened }
    | none => .error (.indexTooLarge segment)

end Step

end KeyTree
