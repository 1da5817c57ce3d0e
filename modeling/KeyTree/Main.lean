import KeyTree.CommandLine

/-!
# The program

Hands the arguments to `CommandLine.run` and writes out what it answers.
-/

open KeyTree

def main (args : List String) : IO UInt32 := do
  let outcome := CommandLine.run (args.map fun arg => arg.toUTF8.toList)
  let stdout ← IO.getStdout
  let stderr ← IO.getStderr
  stdout.write (ByteArray.mk outcome.stdout.toArray)
  stderr.write (ByteArray.mk outcome.stderr.toArray)
  return outcome.exitCode.toUInt32
