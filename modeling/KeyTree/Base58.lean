import KeyTree.Failure

/-!
# Base-58 text

A byte string as a number, written with 58 letters and digits that are hard to mistake for one
another. Zero bytes in front would not change the number, so each has a symbol of its own: the one
for the digit zero.

* **`Base58.encode`** writes the leading zeros and then the number with as few digits as possible.
* **`Base58.decode`** reads a text back, and names the first character that is outside the alphabet.
* **`Base58.digit?_symbol`** and **`Base58.symbol_of_digit?_eq_some`**: digits and symbols correspond
  one to one.
-/

namespace KeyTree.Base58

/-! ## The alphabet -/

/-- The symbols in the order of the digits that they stand for. -/
def alphabet : Bytes :=
  ascii "123456789ABCDEFGHJKLMNPQRSTUVWXYZabcdefghijkmnopqrstuvwxyz"

theorem length_alphabet : alphabet.length = 58 := by decide

def zero : UInt8 :=
  '1'.toUInt8

def symbol (digit : UInt8) : UInt8 :=
  alphabet.getD digit.toNat zero

def digit? (symbol : UInt8) : Option UInt8 :=
  (alphabet.idxOf? symbol).map UInt8.ofNat

theorem symbol_zero : symbol 0 = zero := by decide

theorem digit?_symbol {d : UInt8} (h : d.toNat < 58) : digit? (symbol d) = some d := by
  have all : ∀ n ∈ List.range 58, digit? (symbol (UInt8.ofNat n)) = some (UInt8.ofNat n) := by
    decide +kernel
  simpa using all d.toNat (List.mem_range.2 h)

theorem symbol_of_digit?_eq_some {c d : UInt8} (h : digit? c = some d) :
    d.toNat < 58 ∧ symbol d = c := by
  obtain ⟨i, hi, rfl⟩ := Option.map_eq_some_iff.1 h
  obtain ⟨hlt, hget, -⟩ := List.idxOf?_eq_some_iff.1 hi
  have h58 : i < 58 := length_alphabet ▸ hlt
  have htoNat : (UInt8.ofNat i).toNat = i := by
    rw [UInt8.toNat_ofNat']
    exact Nat.mod_eq_of_lt (by omega)
  refine ⟨by omega, ?_⟩
  rw [symbol, htoNat, List.getD_eq_getElem?_getD, List.getElem?_eq_getElem hlt, Option.getD_some,
    hget]

theorem digit?_eq_none_iff {c : UInt8} : digit? c = none ↔ c ∉ alphabet := by
  simp [digit?, List.idxOf?_eq_none_iff]

/-! ## Writing -/

def encode (bytes : Bytes) : Bytes :=
  (bytes.takeWhile (· == 0)).map (fun _ => zero) ++
    (Radix.convert .byte .fiftyEight (bytes.dropWhile (· == 0))).map symbol

/-! ## Reading -/

/-- The digit that a character stands for, or the complaint about it. -/
def readSymbol (c : UInt8) : Except Failure UInt8 :=
  match digit? c with
  | some d => .ok d
  | none => .error (.badSymbol c)

def decode (text : Bytes) : Except Failure Bytes := do
  let digits ← text.mapM readSymbol
  return (text.takeWhile (· == zero)).map (fun _ => 0) ++ Radix.convert .fiftyEight .byte digits

end KeyTree.Base58
