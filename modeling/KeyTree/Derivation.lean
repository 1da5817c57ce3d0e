import KeyTree.ExtendedKey
import KeyTree.Wif

/-!
# Derivation

From the text of an extended key and the text of a path to the key at the end of the path. The
stages in order: there has to be a text format, the key's text has to decode, its payload has to be
an extended key, the path has to be one. The first stage that fails decides the failure.

* **`Derivation.material`**: the key material at the end of the path.
* **`Derivation.wif`**: its key in the import format.
* **`Derivation.readKey_some`** and its kin open one stage each.
-/

namespace KeyTree.Derivation

/-- The format that keys are read and written in where no other is asked for. -/
def standard : Option TextFormat :=
  some .base58Check

variable (format? : Option TextFormat)

/-- The format, or the complaint that there is none. -/
def require : Except Failure TextFormat :=
  match format? with
  | some format => .ok format
  | none => .error .missingFormat

def readKey (text : Bytes) : Except Failure ExtendedKey := do
  let format ← require format?
  let payload ← format.decode text
  ExtendedKey.ofBytes payload

def readMaterial (text : Bytes) : Except Failure Material :=
  ExtendedKey.material <$> readKey format? text

def writeKey (key : FixedBytes 32) : Except Failure Bytes := do
  let format ← require format?
  return Wif.encode format key

def material (keyText pathText : Bytes) : Except Failure Material := do
  let start ← readMaterial format? keyText
  let path ← Path.parse pathText
  return start.descend path

def wif (keyText pathText : Bytes) : Except Failure Bytes := do
  let derived ← material format? keyText pathText
  writeKey format? derived.key

/-! ## Stages -/

theorem readKey_some (format : TextFormat) (text : Bytes) :
    readKey (some format) text = format.decode text >>= ExtendedKey.ofBytes := rfl

theorem writeKey_some (format : TextFormat) (key : FixedBytes 32) :
    writeKey (some format) key = .ok (Wif.encode format key) := rfl

end KeyTree.Derivation
