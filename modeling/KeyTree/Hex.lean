import KeyTree.Bytes

/-!
# Hexadecimal text

Two digits a byte, the upper half first. Writing uses small letters; reading takes letters of either
case, refuses a text of odd length whatever its characters are, and otherwise names the first
character that is no digit.

* **`Hex.decode_encode`**: every byte string is read back from its own text.
-/

namespace KeyTree.Hex

/-- Why a text is no hexadecimal text. -/
inductive Error where
  | oddLength
  /-- The first character that is no hexadecimal digit. -/
  | badDigit (character : UInt8)
  deriving DecidableEq, Repr

def Error.message : Error → Bytes
  | .oddLength => ascii "Invalid hex string length"
  | .badDigit c => ascii "Invalid hex character '" ++ [c] ++ ascii "'"

/-! ## Digits -/

def digits : Bytes :=
  ascii "0123456789abcdef"

def digit (value : Nat) : UInt8 :=
  digits.getD value 0

def digitValue? (c : UInt8) : Option Nat :=
  if '0'.toUInt8 ≤ c ∧ c ≤ '9'.toUInt8 then some (c.toNat - '0'.toNat)
  else if 'a'.toUInt8 ≤ c ∧ c ≤ 'f'.toUInt8 then some (c.toNat - 'a'.toNat + 10)
  else if 'A'.toUInt8 ≤ c ∧ c ≤ 'F'.toUInt8 then some (c.toNat - 'A'.toNat + 10)
  else none

theorem digitValue?_digit {value : Nat} (h : value < 16) :
    digitValue? (digit value) = some value := by
  have all : ∀ v ∈ List.range 16, digitValue? (digit v) = some v := by decide
  exact all value (List.mem_range.2 h)

/-! ## Texts -/

def encode (bytes : Bytes) : Bytes :=
  bytes.flatMap fun b => [digit (b.toNat / 16), digit (b.toNat % 16)]

def readDigit (c : UInt8) : Except Error Nat :=
  match digitValue? c with
  | some value => .ok value
  | none => .error (.badDigit c)

def decodePairs : Bytes → Except Error Bytes
  | upper :: lower :: rest => do
    let u ← readDigit upper
    let l ← readDigit lower
    let bytes ← decodePairs rest
    return UInt8.ofNat (16 * u + l) :: bytes
  | _ => .ok []

/-- The bytes of a text. The length is judged before any character. -/
def decode (text : Bytes) : Except Error Bytes :=
  if text.length % 2 = 0 then decodePairs text else .error .oddLength

/-! ## The round trip -/

theorem length_encode (bytes : Bytes) : (encode bytes).length = 2 * bytes.length := by
  induction bytes with
  | nil => rfl
  | cons b rest ih =>
    simp only [encode, List.flatMap_cons, List.length_append] at ih ⊢
    simp only [ih, List.length_cons, List.length_nil]
    omega

theorem readDigit_digit {value : Nat} (h : value < 16) :
    readDigit (digit value) = .ok value := by
  simp [readDigit, digitValue?_digit h]

theorem decodePairs_encode (bytes : Bytes) : decodePairs (encode bytes) = .ok bytes := by
  induction bytes with
  | nil => rfl
  | cons b rest ih =>
    have hb : b.toNat < 256 := b.toNat_lt
    have hsum : 16 * (b.toNat / 16) + b.toNat % 16 = b.toNat := by omega
    simp only [encode, List.flatMap_cons, List.cons_append, List.nil_append, decodePairs] at ih ⊢
    rw [readDigit_digit (by omega), readDigit_digit (by omega), ih]
    simp [bind, Except.bind, pure, Except.pure, hsum]

theorem decode_encode (bytes : Bytes) : decode (encode bytes) = .ok bytes := by
  rw [decode, length_encode, if_pos (by omega), decodePairs_encode]

end KeyTree.Hex
