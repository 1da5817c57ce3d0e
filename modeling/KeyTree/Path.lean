import KeyTree.Path.Step

/-!
# Paths

The steps from a key to the one that is asked for, first step first. As text the steps are separated
by slashes and may be led by `m/`.

* **`Path.text`** writes a path, always led by `m`.
* **`Path.segments`** takes a leading `m/` off, once, and gives the non-empty parts between slashes.
* **`Path.parse`** reads each of them as a step. The first segment that is refused decides the
  failure.
-/

namespace KeyTree

/-- A list of steps, the first one to take in front. -/
abbrev Path := List Step

namespace Path

def slash : UInt8 := '/'.toUInt8

/-- What a path may begin with: the name of the root and a separator. -/
def lead : Bytes := ascii "m/"

/-- The steps, each behind a slash, after the name of the root. -/
def text (path : Path) : Bytes :=
  ascii "m" ++ path.flatMap fun step => slash :: step.text

def body (text : Bytes) : Bytes :=
  if lead.isPrefixOf text then text.drop lead.length else text

def segments (text : Bytes) : List Bytes :=
  ((body text).splitOn slash).filter (· ≠ [])

def parse (text : Bytes) : Except Failure Path :=
  (segments text).mapM Step.parse

end Path

end KeyTree
