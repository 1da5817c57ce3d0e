import KeyTree.Base58

/-!
# Base-58 text with a checksum

The payload is followed by four bytes that depend on it, and the whole is written in base 58.
Nothing here depends on which four bytes: the checksum is a parameter, any function at all.

* **`Base58.Check.encode`** appends the checksum and writes.
* **`Base58.Check.decode`** reads, splits off the last four bytes and compares them with the checksum
  of what stands in front.
* **`Base58.Check.verify_append`**: bytes with their own checksum behind them pass.
-/

namespace KeyTree.Base58.Check

def checksumSize : Nat := 4

variable (checksum : Bytes → FixedBytes checksumSize)

def stamp (payload : Bytes) : Bytes :=
  payload ++ (checksum payload).toList

/-- The payload in front of the last four bytes, if these are its checksum. -/
def verify (bytes : Bytes) : Except Failure Bytes :=
  if bytes.length < checksumSize then .error .checksumMissing
  else
    let payload := bytes.take (bytes.length - checksumSize)
    if bytes.drop (bytes.length - checksumSize) = (checksum payload).toList then .ok payload
    else .error .checksumMismatch

def encode (payload : Bytes) : Bytes :=
  Base58.encode (stamp checksum payload)

def decode (text : Bytes) : Except Failure Bytes :=
  Base58.decode text >>= verify checksum

@[simp] theorem length_stamp (payload : Bytes) :
    (stamp checksum payload).length = payload.length + checksumSize := by
  simp [stamp]

/-- Four bytes behind a payload pass exactly if they are its checksum. -/
theorem verify_append (payload : Bytes) (last : FixedBytes checksumSize) :
    verify checksum (payload ++ last.toList) =
      if last = checksum payload then .ok payload else .error .checksumMismatch := by
  have hlength : ¬ payload.length + checksumSize < checksumSize := by omega
  simp [verify, hlength, FixedBytes.ext_iff]

theorem verify_stamp (payload : Bytes) : verify checksum (stamp checksum payload) = .ok payload := by
  simp [stamp, verify_append]

end KeyTree.Base58.Check
