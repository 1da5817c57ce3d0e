import KeyTree.Proofs.Sha2.Refinement
import KeyTree.Sha2.Sha256
import KeyTree.Sha2.Sha512

/-!
# SHA-256 and SHA-512 as the standard has them

Both variants provide what `Variant.Implements` asks for. Two parts of this are not a matter of
reading definitions. A rotation is put together from two shifts. And the tables are written out as
numbers, where the standard takes roots of prime numbers: a table entry is compared with the two
powers that the root lies between, so that no root has to be computed.

* **`Standard.floorRoot_spec`**: the search for a root finds its whole part.
* **`Standard.rootFraction_eq`**: an entry that passes the comparison is the fraction of the root.
* **`Standard.IsWord.bits_rotate`**: two shifts of a machine word, whatever its width, rotate it.
* **`Sha256.implements_standard`**, **`Sha512.implements_standard`**, and the digests that follow:
  **`Sha256.toList_digest`**, **`Sha512.toList_digest`**.
-/

namespace KeyTree

namespace Sha2.Standard

/-! ## Roots -/

/-- The search closes in on the root: it stays at or above `start` and within the bits that are
still free. -/
theorem floorRoot_spec {k n bits start : Nat} (hle : start ^ k ≤ n)
    (hlt : n < (start + 2 ^ bits) ^ k) :
    floorRoot k n bits start ^ k ≤ n ∧ n < (floorRoot k n bits start + 1) ^ k := by
  induction bits generalizing start with
  | zero => exact ⟨hle, hlt⟩
  | succ bits ih =>
    rw [floorRoot]
    split
    case isTrue hhigh =>
      refine ih hhigh ?_
      rwa [Nat.add_assoc, ← Nat.two_mul, ← Nat.pow_succ']
    case isFalse hlow => exact ih hle (Nat.lt_of_not_le hlow)

/-- Only one number is the whole part of a root. -/
theorem le_of_pow_bounds {k n a b : Nat} (ha : a ^ k ≤ n) (hb : n < (b + 1) ^ k) : a ≤ b := by
  by_contra hlt
  have hpow : (b + 1) ^ k ≤ a ^ k := Nat.pow_le_pow_left (Nat.lt_of_not_le hlt) k
  omega

/-- `x` is what stands behind the point in the root with exponent `k` of `n`, as far as its width
goes. -/
def IsRootFraction (k n : Nat) {width : Nat} (x : BitVec width) : Prop :=
  ∃ whole < 32, (whole * 2 ^ width + x.toNat) ^ k ≤ n * 2 ^ (k * width) ∧
    n * 2 ^ (k * width) < (whole * 2 ^ width + x.toNat + 1) ^ k

instance (k n : Nat) {width : Nat} (x : BitVec width) : Decidable (IsRootFraction k n x) :=
  inferInstanceAs (Decidable (∃ whole < 32, _))

theorem rootFraction_eq {k n width : Nat} (hk : k ≠ 0) {x : BitVec width}
    (h : IsRootFraction k n x) : rootFraction k n width = x := by
  obtain ⟨whole, hwhole, hle, hlt⟩ := h
  have hx := x.isLt
  have hroom : whole * 2 ^ width + x.toNat + 1 ≤ 2 ^ (width + 5) := by
    have := Nat.mul_le_mul_right (2 ^ width) (Nat.succ_le_of_lt hwhole)
    rw [Nat.succ_mul] at this
    rw [Nat.pow_add]
    omega
  have hspec : floorRoot k (n * 2 ^ (k * width)) (width + 5) 0 ^ k ≤ n * 2 ^ (k * width) ∧
      n * 2 ^ (k * width) < (floorRoot k (n * 2 ^ (k * width)) (width + 5) 0 + 1) ^ k := by
    -- the search begins at zero, with enough bits for the whole part and the fraction
    refine floorRoot_spec ?_ (Nat.lt_of_lt_of_le hlt ?_)
    · rw [Nat.zero_pow (Nat.pos_of_ne_zero hk)]
      exact Nat.zero_le _
    · rw [Nat.zero_add]
      exact Nat.pow_le_pow_left hroom k
  have hroot : floorRoot k (n * 2 ^ (k * width)) (width + 5) 0 = whole * 2 ^ width + x.toNat :=
    Nat.le_antisymm (le_of_pow_bounds hspec.1 hlt) (le_of_pow_bounds hle hspec.2)
  apply BitVec.eq_of_toNat_eq
  rw [rootFraction, hroot, BitVec.toNat_ofNat, Nat.add_comm, Nat.add_mul_mod_self_right,
    Nat.mod_eq_of_lt hx]

/-- A composite number below `21 ^ 2` has a divisor below 21. -/
theorem primes_eq_filter : primes = (List.range 410).filter fun n =>
    2 ≤ n ∧ ∀ d < 21, 2 ≤ d → d < n → n % d ≠ 0 := by
  refine List.filter_congr fun n hn => decide_eq_decide.2 (and_congr_right fun htwo => ?_)
  have hn := List.mem_range.1 hn
  refine ⟨fun h d _ hd hdn => h d hdn hd, fun h d hdn hd hmod => ?_⟩
  by_cases hsmall : d < 21
  · exact h d hsmall hd hdn hmod
  · -- the divisor is large, so the number of times it goes into `n` is a small one
    obtain ⟨q, rfl⟩ := Nat.dvd_of_mod_eq_zero hmod
    have hq : q < 21 := by
      by_contra hlarge
      have := Nat.mul_le_mul (Nat.le_of_not_lt hsmall) (Nat.le_of_not_lt hlarge)
      omega
    have hqtwo : 2 ≤ q := by
      by_contra hqone
      obtain rfl | rfl : q = 0 ∨ q = 1 := by omega
      · omega
      · omega
    exact h q hq hqtwo ((Nat.lt_mul_iff_one_lt_left (by omega)).2 hd) (Nat.mul_mod_left d q)

theorem primes_eq : primes =
    [2, 3, 5, 7, 11, 13, 17, 19, 23, 29, 31, 37, 41, 43, 47, 53, 59, 61, 67, 71, 73, 79, 83, 89, 97,
      101, 103, 107, 109, 113, 127, 131, 137, 139, 149, 151, 157, 163, 167, 173, 179, 181, 191, 193,
      197, 199, 211, 223, 227, 229, 233, 239, 241, 251, 257, 263, 269, 271, 277, 281, 283, 293, 307,
      311, 313, 317, 331, 337, 347, 349, 353, 359, 367, 373, 379, 383, 389, 397, 401, 409] := by
  rw [primes_eq_filter]
  decide +kernel

/-- The state in front of the first block, word by word. -/
theorem Parameters.map_eq_initial {α : Type} (p : Parameters) (bits : α → p.Word) (s : State α)
    (h : ∀ i (hi : i < s.toList.length), IsRootFraction 2 (primes.getD i 0) (bits s.toList[i])) :
    s.map bits = p.initial := by
  have hword (i : Nat) (hi : i < 8) : bits (s.toList.get ⟨i, hi⟩) =
      rootFraction 2 (primes.getD i 0) (8 * p.wordBytes) :=
    (rootFraction_eq (by decide) (h i hi)).symm
  rw [State.map, initial, State.mk.injEq]
  exact ⟨hword 0 (by decide), hword 1 (by decide), hword 2 (by decide), hword 3 (by decide),
    hword 4 (by decide), hword 5 (by decide), hword 6 (by decide), hword 7 (by decide)⟩

/-! ## Rotations -/

/-- The words of a machine, seen as bits: a distance to shift by is a word too and counts modulo the
width, which is the word `full`. -/
structure IsWord {α : Type} [XorOp α] [OrOp α] [Sub α] [ShiftLeft α] [ShiftRight α] {width : Nat}
    (bits : α → BitVec width) (full : α) : Prop where
  toNat_full : (bits full).toNat = width
  xor (x y : α) : bits (x ^^^ y) = bits x ^^^ bits y
  or (x y : α) : bits (x ||| y) = bits x ||| bits y
  sub (x y : α) : bits (x - y) = bits x - bits y
  shiftLeft (x n : α) : bits (x <<< n) = bits x <<< (bits n % bits full)
  shiftRight (x n : α) : bits (x >>> n) = bits x >>> (bits n % bits full)

namespace IsWord

variable {α : Type} [XorOp α] [OrOp α] [Sub α] [ShiftLeft α] [ShiftRight α]

section Width

variable {width : Nat} {bits : α → BitVec width} {full : α}

/-- A distance below the width is counted as it is. -/
theorem toNat_mod_full (h : IsWord bits full) {n : α} (hn : (bits n).toNat < width) :
    (bits n % bits full).toNat = (bits n).toNat := by
  rw [BitVec.toNat_umod, h.toNat_full, Nat.mod_eq_of_lt hn]

/-- The two shifts of a rotation meet without overlap. -/
theorem bits_rotate (h : IsWord bits full) (x : α) {n : α}
    (hn : 0 < (bits n).toNat ∧ (bits n).toNat < width) :
    bits (x >>> n ||| x <<< (full - n)) = (bits x).rotateRight (bits n).toNat := by
  obtain ⟨hpos, hlt⟩ := hn
  have hle : bits n ≤ bits full := by
    rw [BitVec.le_def, h.toNat_full]
    exact Nat.le_of_lt hlt
  have hback : (bits (full - n)).toNat = width - (bits n).toNat := by
    rw [h.sub, BitVec.toNat_sub_of_le hle, h.toNat_full]
  -- `n` is not zero, so the way back is less than the width and stays what it is
  have hless : (bits (full - n)).toNat < width := by omega
  rw [h.or, h.shiftRight, h.shiftLeft, BitVec.ushiftRight_eq', BitVec.shiftLeft_eq',
    h.toNat_mod_full hlt, h.toNat_mod_full hless, hback, BitVec.rotateRight_def,
    Nat.mod_eq_of_lt hlt]

end Width

variable (p : Parameters) {bits : α → p.Word} {full : α}

theorem bits_rotations (h : IsWord bits full) (x a b c : α)
    (ha : 0 < (bits a).toNat ∧ (bits a).toNat < 8 * p.wordBytes)
    (hb : 0 < (bits b).toNat ∧ (bits b).toNat < 8 * p.wordBytes)
    (hc : 0 < (bits c).toNat ∧ (bits c).toNat < 8 * p.wordBytes) :
    bits ((x >>> a ||| x <<< (full - a)) ^^^ (x >>> b ||| x <<< (full - b)) ^^^
        (x >>> c ||| x <<< (full - c))) =
      p.rotations ((bits a).toNat, (bits b).toNat, (bits c).toNat) (bits x) := by
  rw [h.xor, h.xor, h.bits_rotate x ha, h.bits_rotate x hb, h.bits_rotate x hc]
  rfl

theorem bits_rotationsAndShift (h : IsWord bits full) (x a b c : α)
    (ha : 0 < (bits a).toNat ∧ (bits a).toNat < 8 * p.wordBytes)
    (hb : 0 < (bits b).toNat ∧ (bits b).toNat < 8 * p.wordBytes)
    (hc : (bits c).toNat < 8 * p.wordBytes) :
    bits ((x >>> a ||| x <<< (full - a)) ^^^ (x >>> b ||| x <<< (full - b)) ^^^ (x >>> c)) =
      p.rotationsAndShift ((bits a).toNat, (bits b).toNat, (bits c).toNat) (bits x) := by
  rw [h.xor, h.xor, h.bits_rotate x ha, h.bits_rotate x hb, h.shiftRight, BitVec.ushiftRight_eq',
    h.toNat_mod_full hc]
  rfl

end IsWord

end Sha2.Standard

open Sha2 Sha2.Standard

/-! ## SHA-256 -/

namespace Sha256

theorem isWord : IsWord (UInt32.toBitVec : UInt32 → Standard.sha256.Word) 32 where
  toNat_full := rfl
  xor _ _ := rfl
  or _ _ := rfl
  sub _ _ := rfl
  shiftLeft := UInt32.toBitVec_shiftLeft
  shiftRight := UInt32.toBitVec_shiftRight

/-- Each entry is the fraction of its root. -/
theorem isRootFraction_constants : ∀ t (h : t < constants.length),
    IsRootFraction 3 (primes.getD t 0) constants[t].toBitVec := by
  rw [primes_eq]
  decide +kernel

theorem isRootFraction_initial : ∀ i (h : i < initial.toList.length),
    IsRootFraction 2 (primes.getD i 0) initial.toList[i].toBitVec := by
  rw [primes_eq]
  decide +kernel

theorem implements_standard : variant.Implements Standard.sha256 UInt32.toBitVec where
  wordBytes := rfl
  rounds := rfl
  ofNat _ := rfl
  toNat _ := rfl
  add _ _ := rfl
  and _ _ := rfl
  xor _ _ := rfl
  not _ := rfl
  bigSigma0 x := isWord.bits_rotations sha256 x 2 13 22 (by decide) (by decide) (by decide)
  bigSigma1 x := isWord.bits_rotations sha256 x 6 11 25 (by decide) (by decide) (by decide)
  smallSigma0 x := isWord.bits_rotationsAndShift sha256 x 7 18 3 (by decide) (by decide) (by decide)
  smallSigma1 x := isWord.bits_rotationsAndShift sha256 x 17 19 10 (by decide) (by decide)
    (by decide)
  constants t h := (rootFraction_eq (by decide) (isRootFraction_constants t h)).symm
  initial := Standard.sha256.map_eq_initial UInt32.toBitVec initial isRootFraction_initial

theorem toList_digest (message : Bytes) :
    (digest message).toList = Standard.sha256.digest message :=
  implements_standard.toList_digest message

end Sha256

/-! ## SHA-512 -/

namespace Sha512

theorem isWord : IsWord (UInt64.toBitVec : UInt64 → Standard.sha512.Word) 64 where
  toNat_full := rfl
  xor _ _ := rfl
  or _ _ := rfl
  sub _ _ := rfl
  shiftLeft := UInt64.toBitVec_shiftLeft
  shiftRight := UInt64.toBitVec_shiftRight

/-- Each entry is the fraction of its root. -/
theorem isRootFraction_constants : ∀ t (h : t < constants.length),
    IsRootFraction 3 (primes.getD t 0) constants[t].toBitVec := by
  rw [primes_eq]
  decide +kernel

theorem isRootFraction_initial : ∀ i (h : i < initial.toList.length),
    IsRootFraction 2 (primes.getD i 0) initial.toList[i].toBitVec := by
  rw [primes_eq]
  decide +kernel

theorem implements_standard : variant.Implements Standard.sha512 UInt64.toBitVec where
  wordBytes := rfl
  rounds := rfl
  ofNat _ := rfl
  toNat _ := rfl
  add _ _ := rfl
  and _ _ := rfl
  xor _ _ := rfl
  not _ := rfl
  bigSigma0 x := isWord.bits_rotations sha512 x 28 34 39 (by decide) (by decide) (by decide)
  bigSigma1 x := isWord.bits_rotations sha512 x 14 18 41 (by decide) (by decide) (by decide)
  smallSigma0 x := isWord.bits_rotationsAndShift sha512 x 1 8 7 (by decide) (by decide) (by decide)
  smallSigma1 x := isWord.bits_rotationsAndShift sha512 x 19 61 6 (by decide) (by decide)
    (by decide)
  constants t h := (rootFraction_eq (by decide) (isRootFraction_constants t h)).symm
  initial := Standard.sha512.map_eq_initial UInt64.toBitVec initial isRootFraction_initial

theorem toList_digest (message : Bytes) :
    (digest message).toList = Standard.sha512.digest message :=
  implements_standard.toList_digest message

/-- The standard's own function on the standard's first example. -/
example : Standard.sha512.digest (ascii "abc") =
    [0xddaf35a193617aba, 0xcc417349ae204131, 0x12e6fa4e89a97ea2, 0x0a9eeee64b55d39a,
      0x2192992a274fc1a8, 0x36ba3c23a3feebbd, 0x454d4423643ce80e,
      0x2a9ac94fa54ca49f].flatMap (bigEndian 8) := by
  rw [← toList_digest]
  decide +kernel

end Sha512

end KeyTree
