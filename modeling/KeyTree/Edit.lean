import KeyTree.Checksum
import KeyTree.Hex
import KeyTree.Hmac

/-!
# Edits of a byte string

Small changes and transformations that are applied to a byte string one after the other. An edit that
is refused leaves the byte string as it was, and the next one goes on from there.

* **`Edit.apply`**: one edit.
* **`Edit.trace`**: the outcome of every edit of a list.
-/

namespace KeyTree

/-- A change to a byte string: another one in its place, a few bytes more or less, a digest, its text
in some format, or what it stands for as a text. -/
inductive Edit where
  | set (bytes : Bytes)
  | append (bytes : Bytes)
  /-- Bits are counted from the top of the first byte, round and round. -/
  | flip (bit : Nat)
  | take (count : Nat)
  | drop (count : Nat)
  | sha256
  | doubleSha256
  | checksum
  /-- The byte string is the message. -/
  | hmacSha512 (key : Bytes)
  | base58Encode
  | base58Decode
  | base58CheckEncode
  | base58CheckDecode
  | hexEncode
  | hexDecode
  deriving DecidableEq, Repr

namespace Edit

inductive Refusal where
  | failure (failure : Failure)
  | hex (error : Hex.Error)
  deriving DecidableEq, Repr

def flipBit (bytes : Bytes) (bit : Nat) : Bytes :=
  let position := bit % (8 * bytes.length)
  bytes.modify (position / 8) (· ^^^ ((0x80 : UInt8) >>> UInt8.ofNat (position % 8)))

def apply (bytes : Bytes) : Edit → Except Refusal Bytes
  | set other => .ok other
  | append more => .ok (bytes ++ more)
  | flip bit => .ok (flipBit bytes bit)
  | take count => .ok (bytes.take count)
  | drop count => .ok (bytes.drop count)
  | sha256 => .ok (Sha256.digest bytes).toList
  | doubleSha256 => .ok (Checksum.doubleDigest bytes).toList
  | checksum => .ok (Checksum.of bytes).toList
  | hmacSha512 key => .ok (Hmac.sha512 key bytes).toList
  | base58Encode => .ok (Base58.encode bytes)
  | base58Decode => (Base58.decode bytes).mapError .failure
  | base58CheckEncode => .ok (Base58.Check.encode Checksum.of bytes)
  | base58CheckDecode => (Base58.Check.decode Checksum.of bytes).mapError .failure
  | hexEncode => .ok (Hex.encode bytes)
  | hexDecode => (Hex.decode bytes).mapError .hex

def trace (bytes : Bytes) : List Edit → List (Except Refusal Bytes)
  | [] => []
  | edit :: rest =>
    match edit.apply bytes with
    | .ok next => .ok next :: trace next rest
    | .error refusal => .error refusal :: trace bytes rest

end Edit

end KeyTree
