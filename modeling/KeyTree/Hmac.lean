import KeyTree.Sha2.Sha512

/-!
# Keyed digests

A message is digested twice, each time behind the key in a different disguise, so that the result
can only be made by who knows the key.

* **`Hmac.mac`**: the construction over any digest that works in blocks.
* **`Hmac.sha512`**: its use with SHA-512.
-/

namespace KeyTree.Hmac

/-- The byte that disguises the key of the inner digest. -/
def innerPad : UInt8 := 0x36

/-- The byte that disguises the key of the outer digest. -/
def outerPad : UInt8 := 0x5c

variable {n : Nat} (digest : Bytes → FixedBytes n) (blockBytes : Nat)

/-- The key at the size of a block: zeros are added at the end, after a key that is longer than a
block has been replaced by its digest. -/
def blockKey (key : Bytes) : Bytes :=
  let short := if key.length ≤ blockBytes then key else (digest key).toList
  short ++ List.replicate (blockBytes - short.length) 0

def mac (key message : Bytes) : FixedBytes n :=
  let block := blockKey digest blockBytes key
  let inner := digest (block.map (· ^^^ innerPad) ++ message)
  digest (block.map (· ^^^ outerPad) ++ inner.toList)

/-- A digest that is no larger than a block makes every key as large as one. -/
theorem length_blockKey (h : n ≤ blockBytes) (key : Bytes) :
    (blockKey digest blockBytes key).length = blockBytes := by
  unfold blockKey
  split
  · simp only [List.length_append, List.length_replicate]
    omega
  · simp only [List.length_append, List.length_replicate, FixedBytes.length_toList]
    omega

def sha512 (key message : Bytes) : FixedBytes 64 :=
  mac Sha512.digest Sha512.variant.blockBytes key message

end KeyTree.Hmac
