import KeyTree.Base58.Check
import KeyTree.Proofs.Base58.Spelling

/-!
# One spelling with a checksum

What `KeyTree.Base58.Check` reads is what it writes, whatever the checksum is: the four bytes are
split off where they were put, since base 58 gives back every byte, those in front and behind
included.

* **`Check.verify_eq_ok_iff`**: bytes pass exactly if they are a payload with its checksum behind it.
* **`Check.decode_eq_ok_iff`**: a text stands for a payload exactly if it is that payload's text.
* **`Check.accepts_exactly_encodings`**: so every payload is read back and has no second spelling.
-/

namespace KeyTree.Base58.Check

variable (checksum : Bytes → FixedBytes checksumSize)

variable {checksum} in
theorem verify_eq_ok_iff {bytes payload : Bytes} :
    verify checksum bytes = .ok payload ↔ bytes = stamp checksum payload := by
  refine ⟨fun h => ?_, fun h => by rw [h, verify_stamp]⟩
  unfold verify at h
  split at h
  · cases h
  · simp only at h
    split at h
    · next hlast =>
      -- what was compared with the checksum is what was cut off behind the payload
      rw [stamp, ← Except.ok.inj h, ← hlast, List.take_append_drop]
    · cases h

variable {checksum} in
/-- **A text stands for a payload exactly if it is that payload's text.** -/
theorem decode_eq_ok_iff {text payload : Bytes} :
    decode checksum text = .ok payload ↔ text = encode checksum payload := by
  have hdecode : decode checksum text = .ok payload ↔
      Base58.decode text = .ok (stamp checksum payload) := by
    rw [decode, Fallible.bind_eq_ok_iff]
    refine ⟨fun h => ?_, fun h => ⟨stamp checksum payload, h, verify_stamp checksum payload⟩⟩
    obtain ⟨bytes, hbytes, hverify⟩ := h
    rw [hbytes, verify_eq_ok_iff.1 hverify]
  rw [hdecode, Base58.decode_eq_ok_iff, encode]

/-- **Exactly the written texts are accepted**, whatever the checksum is. Every payload is read back,
be it empty or all zeros, and no two texts are read as the same one. -/
theorem accepts_exactly_encodings :
    (∀ text payload, decode checksum text = .ok payload ↔ text = encode checksum payload) ∧
      (∀ payload, decode checksum (encode checksum payload) = .ok payload) ∧
      ∀ s t payload, decode checksum s = .ok payload → decode checksum t = .ok payload → s = t := by
  refine ⟨fun text payload => decode_eq_ok_iff, fun payload => decode_eq_ok_iff.2 rfl, ?_⟩
  intro s t payload hs ht
  rw [decode_eq_ok_iff.1 hs, decode_eq_ok_iff.1 ht]

end KeyTree.Base58.Check
