import KeyTree.Checksum
import KeyTree.Hmac
import KeyTree.Proofs.Sha2.Standard

/-!
# Keyed digests and checksums, by the standards

What the digests of the standard are used for, written over them byte by byte, with nothing computed
in advance: the keyed digest, which children are made with, and the checksum of keys.

* **`Standard.Parameters.hmac`**: the keyed digest over a digest of the standard.
* **`Hmac.toList_sha512`**: the one that is used, for keys and messages of every length.
* **`Standard.checksum`**: the four bytes behind a payload.
* **`Checksum.toList_of`**: the ones that are used, for payloads of every length.
-/

namespace KeyTree

open Sha2

/-! ## The keyed digest -/

namespace Sha2.Standard.Parameters

variable (p : Parameters)

/-- The key at the size of a block: a longer one is replaced by its digest, a shorter one is filled
up with zeros. -/
def blockKey (key : Bytes) : Bytes :=
  let short := if 16 * p.wordBytes < key.length then p.digest key else key
  short ++ List.replicate (16 * p.wordBytes - short.length) 0

/-- The digest of a digest, each behind the key combined with a block of equal bytes. -/
def hmac (key message : Bytes) : Bytes :=
  let disguised (pad : UInt8) :=
    List.zipWith (· ^^^ ·) (p.blockKey key) (List.replicate (16 * p.wordBytes) pad)
  p.digest (disguised 0x5c ++ p.digest (disguised 0x36 ++ message))

end Sha2.Standard.Parameters

/-- A byte is combined with every byte of a block, or block with block. -/
theorem map_xor_eq_zipWith (block : Bytes) (pad : UInt8) :
    block.map (· ^^^ pad) = List.zipWith (· ^^^ ·) block (List.replicate block.length pad) := by
  induction block with
  | nil => rfl
  | cons byte block ih =>
    rw [List.map_cons, ih, List.length_cons, List.replicate_succ, List.zipWith_cons_cons]

namespace Hmac

theorem blockKey_sha512 (key : Bytes) :
    blockKey Sha512.digest Sha512.variant.blockBytes key = Standard.sha512.blockKey key := by
  have hsize : Sha512.variant.blockBytes = 16 * Standard.sha512.wordBytes := rfl
  rw [blockKey, Standard.Parameters.blockKey, hsize]
  by_cases h : key.length ≤ 16 * Standard.sha512.wordBytes
  · rw [if_pos h, if_neg (Nat.not_lt.2 h)]
  · rw [if_neg h, if_pos (Nat.lt_of_not_le h), Sha512.toList_digest]

/-- **The keyed digest is the one of the standard**, for every key and every message. -/
theorem toList_sha512 (key message : Bytes) :
    (Hmac.sha512 key message).toList = Standard.sha512.hmac key message := by
  -- the standard writes the equal bytes out as a block, whose size the key has by now
  have hlength := length_blockKey Sha512.digest Sha512.variant.blockBytes (by decide) key
  rw [sha512, mac, Sha512.toList_digest, Sha512.toList_digest, map_xor_eq_zipWith,
    map_xor_eq_zipWith, hlength, blockKey_sha512]
  rfl

end Hmac

/-! ## The checksum -/

/-- The first four bytes of SHA-256 applied twice. -/
def Sha2.Standard.checksum (payload : Bytes) : Bytes :=
  (Standard.sha256.digest (Standard.sha256.digest payload)).take 4

/-- **The checksum is the one of the standard**, for every payload. -/
theorem Checksum.toList_of (payload : Bytes) :
    (Checksum.of payload).toList = Standard.checksum payload := by
  show ((Sha256.digest (Sha256.digest payload).toList).toList.drop 0).take 4 = _
  rw [Sha256.toList_digest, Sha256.toList_digest, List.drop_zero]
  rfl

end KeyTree
