import KeyTree.Hmac
import KeyTree.Path

/-!
# Key material and its children

A key and its chain code determine every key below them. A child is the keyed digest of the parent's
key and the child's number under the parent's chain code: one half is the child's key, the other its
chain code.

* **`Material.childMessage`**: what is digested, 37 bytes.
* **`Material.child`**: one step down; **`Material.descend`**: a whole path.
* **`Material.descend_append`**: the end of a path is taken from where its beginning leads.
-/

namespace KeyTree

/-- A private key and the chain code that goes with it. -/
@[ext]
structure Material where
  key : FixedBytes 32
  chainCode : FixedBytes 32
  deriving DecidableEq, Repr

namespace Material

/-- A zero byte, the key, and the child's number in four bytes. -/
def childMessage (parent : Material) (childNumber : UInt32) : Bytes :=
  0 :: (parent.key.toList ++ bigEndian 4 childNumber.toNat)

theorem length_childMessage (parent : Material) (childNumber : UInt32) :
    (parent.childMessage childNumber).length = 37 := by
  simp [childMessage]

def child (parent : Material) (childNumber : UInt32) : Material :=
  let digest := Hmac.sha512 parent.chainCode.toList (parent.childMessage childNumber)
  { key := digest.slice 0 32 (by decide), chainCode := digest.slice 32 32 (by decide) }

def descend (material : Material) (path : Path) : Material :=
  path.foldl (fun parent step => parent.child step.childNumber) material

@[simp] theorem descend_nil (material : Material) : material.descend [] = material := rfl

theorem descend_append (material : Material) (path rest : Path) :
    material.descend (path ++ rest) = (material.descend path).descend rest :=
  List.foldl_append

/-- The descendants along a list of child numbers, without the one to start from. -/
def walk (material : Material) : List UInt32 → List Material
  | [] => []
  | childNumber :: rest =>
    let next := material.child childNumber
    next :: next.walk rest

end Material

end KeyTree
