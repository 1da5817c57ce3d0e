import KeyTree.Bytes

/-!
# Positional numerals

A numeral is a list of digits, each a byte, in some radix of at most 256. The loops below work on
numerals whose least significant digit stands first, because that is the order in which carries
travel.

* **`Radix.digits`**: the digits of a number, as few as possible; none for zero.
* **`Radix.mulAdd`**: a numeral times a factor plus a carry, one digit at a time, growing at the far
  end by whatever carry is left.
* **`Radix.convert`**: Horner's rule with numerals for its intermediate values. It reads a numeral
  in one radix, most significant digit first, and gives the same number in another.
-/

namespace KeyTree

/-- A radix whose digits fit a byte. -/
structure Radix where
  base : Nat
  one_lt : 1 < base
  le_256 : base ≤ 256

namespace Radix

def byte : Radix := ⟨256, by decide, by decide⟩

def decimal : Radix := ⟨10, by decide, by decide⟩

def fiftyEight : Radix := ⟨58, by decide, by decide⟩

variable (r : Radix)

def unit (n : Nat) : UInt8 :=
  UInt8.ofNat (n % r.base)

theorem toNat_unit (n : Nat) : (r.unit n).toNat = n % r.base := by
  have hlt : n % r.base < r.base := Nat.mod_lt _ (by have := r.one_lt; omega)
  have := r.le_256
  rw [unit, UInt8.toNat_ofNat']
  exact Nat.mod_eq_of_lt (by omega)

theorem unit_lt (n : Nat) : (r.unit n).toNat < r.base := by
  rw [toNat_unit]
  exact Nat.mod_lt _ (by have := r.one_lt; omega)

/-- The digits of `n`, least significant first and without a zero at the far end. -/
def digits (n : Nat) : List UInt8 :=
  if _ : n = 0 then [] else r.unit n :: digits (n / r.base)
termination_by n
decreasing_by exact Nat.div_lt_self (Nat.pos_of_ne_zero ‹_›) r.one_lt

@[simp] theorem digits_zero : r.digits 0 = [] := by
  simp [digits]

theorem digits_of_ne_zero {n : Nat} (h : n ≠ 0) :
    r.digits n = r.unit n :: r.digits (n / r.base) := by
  rw [digits, dif_neg h]

theorem digits_of_lt {n : Nat} (h : n ≠ 0) (hlt : n < r.base) : r.digits n = [r.unit n] := by
  rw [digits_of_ne_zero r h, Nat.div_eq_of_lt hlt, digits_zero]

theorem lt_of_mem_digits {n : Nat} {d : UInt8} (h : d ∈ r.digits n) : d.toNat < r.base := by
  induction n using Nat.strongRecOn with
  | ind n ih =>
    by_cases hn : n = 0
    · simp [hn] at h
    · rw [digits_of_ne_zero r hn] at h
      rcases List.mem_cons.1 h with rfl | h
      · exact unit_lt r n
      · exact ih _ (Nat.div_lt_self (Nat.pos_of_ne_zero hn) r.one_lt) h

/-- The numeral `factor * ds + carry`, where `ds` is a numeral with its least significant digit
first. Each digit keeps the units of its sum and hands the rest to the next one. -/
def mulAdd (factor : Nat) : Nat → List UInt8 → List UInt8
  | carry, [] => r.digits carry
  | carry, d :: ds =>
    r.unit (carry + factor * d.toNat) ::
      mulAdd factor ((carry + factor * d.toNat) / r.base) ds

/-- The number that `ds`, in radix `src` and most significant digit first, denotes, as a numeral of
radix `dst` with its least significant digit first. -/
def accumulate (src dst : Radix) (ds : List UInt8) : List UInt8 :=
  ds.foldl (fun value d => dst.mulAdd src.base d.toNat value) []

@[simp] theorem accumulate_nil (src dst : Radix) : accumulate src dst [] = [] := rfl

theorem accumulate_append_singleton (src dst : Radix) (ds : List UInt8) (d : UInt8) :
    accumulate src dst (ds ++ [d]) = dst.mulAdd src.base d.toNat (accumulate src dst ds) := by
  simp [accumulate]

/-- The same number in another radix, with the most significant digit first on both sides. -/
def convert (src dst : Radix) (ds : List UInt8) : List UInt8 :=
  (accumulate src dst ds).reverse

end Radix

end KeyTree
