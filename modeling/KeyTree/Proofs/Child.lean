import KeyTree.Material
import KeyTree.Proofs.Digest

/-!
# One step down, by the standards

A child is made with the keyed digest, and the keyed digest with SHA-512. With both written as their
standards have them, byte by byte and with nothing computed in advance, the child of a key is
spelled out in full.

* **`Material.child_by_standard`**: a child, from the bytes of its parent and its number.
-/

namespace KeyTree

open Sha2

namespace Material

/-- **A child by the standards.** The parent's chain code, filled up to a block, is the key; a zero
byte, the parent's key and the child's number are the message. The first half of the keyed digest is
the child's key and the second half its chain code. -/
theorem child_by_standard (parent : Material) (number : UInt32) :
    let block := parent.chainCode.toList ++ List.replicate 96 0
    let inner := List.zipWith (· ^^^ ·) block (List.replicate 128 0x36)
    let outer := List.zipWith (· ^^^ ·) block (List.replicate 128 0x5c)
    let message : Bytes := 0 :: (parent.key.toList ++
      [256 ^ 3, 256 ^ 2, 256, 1].map fun weight => UInt8.ofNat (number.toNat / weight))
    let image := Standard.sha512.digest (outer ++ Standard.sha512.digest (inner ++ message))
    block.length = 128 ∧ message.length = 37 ∧ image.length = 64 ∧
      (parent.child number).key.toList = image.take 32 ∧
      (parent.child number).chainCode.toList = image.drop 32 := by
  intro block inner outer message image
  have hblock : Standard.sha512.blockKey parent.chainCode.toList = block := by
    have hfits : ¬ 16 * Standard.sha512.wordBytes < 32 := by decide
    rw [Standard.Parameters.blockKey, FixedBytes.length_toList, if_neg hfits,
      FixedBytes.length_toList]
    rfl
  have hmessage : parent.childMessage number = message := by
    rw [childMessage, bigEndian_four]
  have himage :
      (Hmac.sha512 parent.chainCode.toList (parent.childMessage number)).toList = image := by
    rw [Hmac.toList_sha512, Standard.Parameters.hmac, hblock, hmessage]
    rfl
  have hlength : image.length = 64 := by
    rw [← himage, FixedBytes.length_toList]
  refine ⟨?blockLength, ?messageLength, hlength, ?first, ?second⟩
  case blockLength => rw [List.length_append, FixedBytes.length_toList, List.length_replicate]
  case messageLength => rw [← hmessage, length_childMessage]
  case first => rw [← himage, child, FixedBytes.toList_slice, List.drop_zero]
  case second =>
    rw [← himage, child, FixedBytes.toList_slice, List.take_of_length_le]
    rw [List.length_drop, FixedBytes.length_toList]

end Material

end KeyTree
