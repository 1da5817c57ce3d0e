import KeyTree.Base58.Check
import KeyTree.Sha2.Sha256

/-!
# The checksum of keys

**`Checksum.of`**: the first four bytes of SHA-256 applied twice.
-/

namespace KeyTree.Checksum

def doubleDigest (message : Bytes) : FixedBytes 32 :=
  Sha256.digest (Sha256.digest message).toList

/-- The four bytes that a text carries behind its payload. -/
def of (payload : Bytes) : FixedBytes Base58.Check.checksumSize :=
  (doubleDigest payload).slice 0 4 (by decide)

end KeyTree.Checksum
