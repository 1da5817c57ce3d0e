import KeyTree.TextFormat

/-!
# The import format of private keys

A private key for the test networks, marked as one whose public key is written in compressed form.

* **`Wif.payload`**: the bytes; **`Wif.encode`**: their text in some format.
-/

namespace KeyTree.Wif

/-- The first byte, for the test networks. -/
def version : UInt8 := 0xef

/-- The last byte, for a compressed public key. -/
def compressed : UInt8 := 0x01

def payload (key : FixedBytes 32) : Bytes :=
  version :: (key.toList ++ [compressed])

theorem length_payload (key : FixedBytes 32) : (payload key).length = 34 := by
  simp [payload]

def encode (format : TextFormat) (key : FixedBytes 32) : Bytes :=
  format.encode (payload key)

end KeyTree.Wif
