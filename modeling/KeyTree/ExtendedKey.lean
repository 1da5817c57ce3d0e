import KeyTree.Material

/-!
# Extended keys

A key with its chain code and its place in the tree, laid out in 78 bytes:

| bytes | field |
|---|---|
| 0 to 3 | version |
| 4 | depth |
| 5 to 8 | fingerprint of the parent |
| 9 to 12 | child number |
| 13 to 44 | chain code |
| 45 | the byte in front of the key |
| 46 to 77 | key |

* **`ExtendedKey.toBytes`** lays the fields out, **`ExtendedKey.ofBytes`** cuts them apart again and
  refuses any other number of bytes. No field is checked.
-/

namespace KeyTree

@[ext]
structure ExtendedKey where
  version : FixedBytes 4
  depth : UInt8
  fingerprint : FixedBytes 4
  childNumber : FixedBytes 4
  chainCode : FixedBytes 32
  /-- The byte in front of the key. -/
  keyMark : UInt8
  key : FixedBytes 32
  deriving DecidableEq, Repr

namespace ExtendedKey

def size : Nat := 78

def toBytes (k : ExtendedKey) : Bytes :=
  k.version.toList ++ k.depth :: k.fingerprint.toList ++ k.childNumber.toList ++
    k.chainCode.toList ++ k.keyMark :: k.key.toList

def ofFixed (bytes : FixedBytes size) : ExtendedKey where
  version := bytes.slice 0 4 (by decide)
  depth := bytes.get 4 (by decide)
  fingerprint := bytes.slice 5 4 (by decide)
  childNumber := bytes.slice 9 4 (by decide)
  chainCode := bytes.slice 13 32 (by decide)
  keyMark := bytes.get 45 (by decide)
  key := bytes.slice 46 32 (by decide)

def ofBytes (bytes : Bytes) : Except Failure ExtendedKey :=
  match FixedBytes.ofList? size bytes with
  | some fixed => .ok (ofFixed fixed)
  | none => .error (.keySize bytes.length)

def material (k : ExtendedKey) : Material :=
  { key := k.key, chainCode := k.chainCode }

@[simp] theorem length_toBytes (k : ExtendedKey) : k.toBytes.length = size := by
  simp [toBytes, size]

end ExtendedKey

end KeyTree
