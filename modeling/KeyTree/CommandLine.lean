import KeyTree.Derivation

/-!
# The command line

Two arguments, an extended key and a path, give the derived key on a line of its own. Anything else
gives a diagnostic.

* **`CommandLine.run`**: exit code and both output texts, from the arguments alone.
-/

namespace KeyTree.CommandLine

structure Outcome where
  exitCode : UInt8
  stdout : Bytes
  stderr : Bytes
  deriving DecidableEq, Repr

def newline : Bytes := ascii "\n"

def usage : Bytes :=
  ascii "Usage: derive_privkey <xprv_or_tprv> <keypath>" ++ newline ++
    ascii "Example: derive_privkey tprv8Zgx... m/84h/1h/0h/0/0" ++ newline

/-- The diagnostic for a failure. One about the path quotes the path. -/
def diagnostic (pathText : Bytes) (failure : Failure) : Bytes :=
  ascii "Error: " ++
    (if failure.category.isPath then ascii "invalid keypath '" ++ pathText ++ ascii "': " else []) ++
    failure.shown ++ newline

def run : List Bytes → Outcome
  | [keyText, pathText] =>
    match Derivation.wif Derivation.standard keyText pathText with
    | .ok wif => { exitCode := 0, stdout := wif ++ newline, stderr := [] }
    | .error failure => { exitCode := 1, stdout := [], stderr := diagnostic pathText failure }
  | _ => { exitCode := 1, stdout := [], stderr := usage }

end KeyTree.CommandLine
