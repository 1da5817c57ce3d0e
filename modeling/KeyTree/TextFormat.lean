import KeyTree.Checksum
import KeyTree.Hex

/-!
# Text formats

How byte strings are written in text and read back. Keys are read and written in whatever format is
given; the one in general use is base 58 with a checksum.

* **`TextFormat.Lawful`**: whatever was written is read back.
* **`TextFormat.base58Check`**, **`TextFormat.hex`**, **`TextFormat.base58`**: the formats at hand.
-/

namespace KeyTree

/-- A way to write byte strings as text and to read them back. -/
structure TextFormat where
  encode : Bytes → Bytes
  decode : Bytes → Except Failure Bytes

namespace TextFormat

def Lawful (format : TextFormat) : Prop :=
  ∀ bytes, format.decode (format.encode bytes) = .ok bytes

def base58Check : TextFormat where
  encode := Base58.Check.encode Checksum.of
  decode := Base58.Check.decode Checksum.of

def base58 : TextFormat where
  encode := Base58.encode
  decode := Base58.decode

/-- Hexadecimal text without a checksum. A text that is refused counts as malformed, in the words
of `Hex`. -/
def hex : TextFormat where
  encode := Hex.encode
  decode text :=
    match Hex.decode text with
    | .ok bytes => .ok bytes
    | .error e => .error (.stated .malformedText e.message)

theorem lawful_hex : hex.Lawful := by
  intro bytes
  simp only [hex, Hex.decode_encode]

end TextFormat

end KeyTree
