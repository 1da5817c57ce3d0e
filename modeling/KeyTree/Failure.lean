import KeyTree.Decimal

/-!
# Failures

What can go wrong on the way from a key and a path to a derived key. Causes are grouped into
categories, which is what callers tell failures apart by.

* **`Failure.message`** is the full wording, **`Failure.shown`** the part that is displayed, which
  ends in front of a zero byte.
* **`Failure.quotes_badSegment`**, **`Failure.quotes_indexTooLarge`**: a segment that is refused is
  quoted as it is.
* **`Category.not_isDecode_and_isPath`**: no category is both about reading the key and about
  reading the path.
-/

namespace KeyTree

/-- The kinds of failure: three of reading the key, two of reading the path, and the rest. -/
inductive Category where
  | malformedText
  | checksumMismatch
  | keySize
  | pathSegment
  | indexRange
  | missingFormat
  | derivation
  | other
  deriving DecidableEq, Repr

namespace Category

/-- The wording of a failure of which no more than the category is known. -/
def message : Category → Bytes
  | malformedText => ascii "Invalid base58 string"
  | checksumMismatch => ascii "Base58check checksum mismatch"
  | keySize => ascii "Invalid extended key length"
  | pathSegment => ascii "Invalid derivation path segment"
  | indexRange => ascii "Derivation index out of range"
  | missingFormat => ascii "No base58 codec configured"
  | derivation => ascii "Key derivation failed"
  | other => ascii "Derivation error"

def isDecode : Category → Bool
  | malformedText | checksumMismatch | keySize => true
  | _ => false

def isPath : Category → Bool
  | pathSegment | indexRange => true
  | _ => false

theorem not_isDecode_and_isPath (c : Category) : ¬ (c.isDecode = true ∧ c.isPath = true) := by
  cases c <;> decide

end Category

/-- A cause of failure, with the data that its wording quotes. -/
inductive Failure where
  /-- A character that stands for no base-58 digit. -/
  | badSymbol (character : UInt8)
  | checksumMissing
  | checksumMismatch
  /-- A payload of the wrong size for an extended key. -/
  | keySize (actual : Nat)
  /-- A path segment that is not digits with at most one mark behind them. -/
  | badSegment (segment : Bytes)
  /-- A path segment whose number is too large for an index. -/
  | indexTooLarge (segment : Bytes)
  | missingFormat
  /-- A failure known by its category, in words of its own or, if there are none, in the
  category's. -/
  | stated (category : Category) (words : Bytes)
  deriving DecidableEq, Repr

namespace Failure

def category : Failure → Category
  | badSymbol _ | checksumMissing => .malformedText
  | checksumMismatch => .checksumMismatch
  | keySize _ => .keySize
  | badSegment _ => .pathSegment
  | indexTooLarge _ => .indexRange
  | missingFormat => .missingFormat
  | stated category _ => category

def message : Failure → Bytes
  | badSymbol c => ascii "Invalid base58 character '" ++ [c] ++ ascii "'"
  | checksumMissing => ascii "Base58check string too short for checksum"
  | checksumMismatch => Category.checksumMismatch.message
  | keySize actual => ascii "Extended key must be 78 bytes, got " ++ Decimal.text actual
  | badSegment segment => ascii "Invalid derivation path segment '" ++ segment ++ ascii "'"
  | indexTooLarge segment =>
    ascii "Derivation index '" ++ segment ++ ascii "' must be below 2147483648"
  | missingFormat => Category.missingFormat.message
  | stated category words => if words.isEmpty then category.message else words

def shown (failure : Failure) : Bytes :=
  beforeNul failure.message

/-- A key that could not be read, with nothing more known. -/
def unreadableKey : Failure :=
  stated .malformedText []

/-- A path that could not be read, with nothing more known. -/
def unreadablePath : Failure :=
  stated .pathSegment []

/-! ## What is quoted -/

/-- A segment of the wrong shape stands between quotation marks, whole. -/
theorem quotes_badSegment (segment : Bytes) :
    ascii "'" ++ segment ++ ascii "'" <:+: (badSegment segment).message := by
  have hfront : ascii "Invalid derivation path segment '" =
      ascii "Invalid derivation path segment " ++ ascii "'" := by decide
  refine ⟨ascii "Invalid derivation path segment ", [], ?_⟩
  simp only [message, hfront, List.append_assoc, List.append_nil]

/-- So does one whose number is too large. -/
theorem quotes_indexTooLarge (segment : Bytes) :
    ascii "'" ++ segment ++ ascii "'" <:+: (indexTooLarge segment).message := by
  have hfront : ascii "Derivation index '" = ascii "Derivation index " ++ ascii "'" := by decide
  have hback : ascii "' must be below 2147483648" =
      ascii "'" ++ ascii " must be below 2147483648" := by decide
  refine ⟨ascii "Derivation index ", ascii " must be below 2147483648", ?_⟩
  simp only [message, hfront, hback, List.append_assoc]

end Failure

end KeyTree
