import KeyTree.Radix
import Mathlib.Data.List.TakeWhile
import Mathlib.Data.Nat.Digits.Lemmas

/-!
# Numerals and the numbers they denote

The loops of `KeyTree.Radix` against the numbers behind them. A number has one numeral without
superfluous zeros in each radix, so two loops that denote the same number agree digit by digit,
however differently their carries travel.

* **`Radix.value`**: the number that a numeral denotes, least significant digit first.
* **`Radix.Canonical`**: digits below the base and no zero at the far end. A canonical numeral is
  determined by its value (`Canonical.digits_value`).
* **`Radix.mulAdd_digits`**, the step: a numeral times a factor plus a carry is the canonical numeral
  of the result, whatever the carry is.
* **`Radix.accumulate_eq_digits`**, the run: reading a whole numeral by Horner's rule gives the
  canonical numeral of its value.
* **`Radix.toNat_getElem`**: a digit is the value divided by its place value, modulo the base.
* **`Radix.recode_recode`**: changing the radix and keeping the zeros in front is undone by changing
  it back.
* **`ofBigEndian_bigEndian`**, **`bigEndian_inj`**: bytes in big-endian order keep a number modulo
  `256 ^ width`.
* **`bigEndian_eq_map`**, **`ofBigEndian_map_range`**: bytes and numbers by the weights of positions.
-/

namespace KeyTree.Radix

variable (r : Radix)

theorem base_pos : 0 < r.base := Nat.lt_trans Nat.zero_lt_one r.one_lt

/-! ## Values -/

/-- The number that `ds` denotes, its least significant digit first. -/
def value (ds : List UInt8) : Nat :=
  Nat.ofDigits r.base (ds.map UInt8.toNat)

@[simp] theorem value_nil : r.value [] = 0 := rfl

theorem value_cons (d : UInt8) (ds : List UInt8) :
    r.value (d :: ds) = d.toNat + r.base * r.value ds := by
  rw [value, List.map_cons, Nat.ofDigits_cons, value]

theorem value_append_zeros (ds : List UInt8) (count : Nat) :
    r.value (ds ++ List.replicate count 0) = r.value ds := by
  rw [value, List.map_append, List.map_replicate]
  exact Nat.ofDigits_append_replicate_zero _

variable {r} in
/-- Each digit can be told from the value. -/
theorem toNat_getElem {ds : List UInt8} (h : ∀ d ∈ ds, d.toNat < r.base) {i : Nat}
    (hi : i < ds.length) : ds[i].toNat = r.value ds / r.base ^ i % r.base := by
  induction ds generalizing i with
  | nil => cases hi
  | cons d ds ih =>
    obtain ⟨hd, hds⟩ := List.forall_mem_cons.1 h
    rw [value_cons]
    cases i with
    | zero =>
      rw [List.getElem_cons_zero, Nat.pow_zero, Nat.div_one, Nat.add_mul_mod_self_left,
        Nat.mod_eq_of_lt hd]
    | succ i =>
      have hrest : (d.toNat + r.base * r.value ds) / r.base = r.value ds := by
        rw [Nat.add_mul_div_left _ _ r.base_pos, Nat.div_eq_of_lt hd, Nat.zero_add]
      rw [List.getElem_cons_succ, ih hds (Nat.lt_of_succ_lt_succ hi), Nat.pow_succ',
        ← Nat.div_div_eq_div_mul, hrest]

/-- The bytes of a number's digits are its digits. -/
theorem map_toNat_digits (n : Nat) : (r.digits n).map UInt8.toNat = Nat.digits r.base n := by
  induction n using Nat.strongRecOn with
  | ind n ih =>
    by_cases hn : n = 0
    · simp [hn]
    · have hlt : n / r.base < n := Nat.div_lt_self (Nat.pos_of_ne_zero hn) r.one_lt
      rw [digits_of_ne_zero r hn, List.map_cons, toNat_unit, ih _ hlt,
        Nat.digits_def' r.one_lt (Nat.pos_of_ne_zero hn)]

theorem value_digits (n : Nat) : r.value (r.digits n) = n := by
  rw [value, map_toNat_digits, Nat.ofDigits_digits]

/-! ## Canonical numerals -/

/-- Every digit is below the base, and the most significant one, which stands last, is not zero. -/
structure Canonical (ds : List UInt8) : Prop where
  lt_base : ∀ d ∈ ds, d.toNat < r.base
  getLast?_ne_zero : ds.getLast? ≠ some 0

theorem canonical_digits (n : Nat) : r.Canonical (r.digits n) := by
  refine ⟨fun d hd => lt_of_mem_digits r hd, ?_⟩
  intro hlast
  have hmap : (Nat.digits r.base n).getLast? = some 0 := by
    rw [← map_toNat_digits, List.getLast?_map, hlast]
    rfl
  have hn : n ≠ 0 := by
    rintro rfl
    simp at hmap
  rw [List.getLast?_eq_getLast_of_ne_nil (Nat.digits_ne_nil_iff_ne_zero.2 hn)] at hmap
  exact Nat.getLast_digit_ne_zero r.base hn (Option.some.inj hmap)

variable {r} in
/-- A canonical numeral is the one that its value has. -/
theorem Canonical.digits_value {ds : List UInt8} (h : r.Canonical ds) :
    r.digits (r.value ds) = ds := by
  have hinj : Function.Injective (List.map UInt8.toNat) :=
    List.map_injective_iff.2 fun _ _ => UInt8.toNat_inj.1
  apply hinj
  rw [map_toNat_digits, value]
  refine Nat.digits_ofDigits r.base r.one_lt _ ?_ ?_
  · intro n hn
    obtain ⟨d, hd, rfl⟩ := List.mem_map.1 hn
    exact h.lt_base d hd
  · intro hne hzero
    have hds : ds ≠ [] := by simpa using hne
    rw [List.getLast_map] at hzero
    have hlast : ds.getLast hds = 0 := UInt8.toNat_inj.1 hzero
    exact h.getLast?_ne_zero (by rw [List.getLast?_eq_getLast_of_ne_nil hds, hlast])

/-! ## The loops -/

/-- **The step.** What a digit keeps of its sum and what it hands on to the next one add up, so the
loop multiplies and adds as it would on the number itself. -/
theorem mulAdd_digits {factor : Nat} (hfactor : factor ≠ 0) (carry n : Nat) :
    r.mulAdd factor carry (r.digits n) = r.digits (carry + factor * n) := by
  -- each digit passes some carry on, so the induction is for every carry at once
  induction n using Nat.strongRecOn generalizing carry with
  | ind n ih =>
    by_cases hn : n = 0
    · rw [hn, digits_zero, mulAdd, Nat.mul_zero, Nat.add_zero]
    · have hlt : n / r.base < n := Nat.div_lt_self (Nat.pos_of_ne_zero hn) r.one_lt
      have hne : carry + factor * n ≠ 0 := by
        have := Nat.mul_ne_zero hfactor hn
        omega
      have hsum : carry + factor * n =
          carry + factor * (n % r.base) + r.base * (factor * (n / r.base)) := by
        conv_lhs => rw [← Nat.mod_add_div n r.base]
        ring
      have hunit : r.unit (carry + factor * n) = r.unit (carry + factor * (n % r.base)) := by
        rw [unit, unit, hsum, Nat.add_mul_mod_self_left]
      have hrest : (carry + factor * n) / r.base =
          (carry + factor * (n % r.base)) / r.base + factor * (n / r.base) := by
        rw [hsum, Nat.add_mul_div_left _ _ r.base_pos]
      rw [digits_of_ne_zero r hn, mulAdd, toNat_unit, ih _ hlt, digits_of_ne_zero r hne, hunit,
        hrest]

/-- **The run.** Horner's rule gives the canonical numeral of the number that it reads. -/
theorem accumulate_eq_digits (src dst : Radix) (ds : List UInt8) :
    accumulate src dst ds = dst.digits (src.value ds.reverse) := by
  have hbase : src.base ≠ 0 := Nat.ne_of_gt src.base_pos
  -- the last digit read is the one that the loop treats last
  induction ds using List.reverseRecOn with
  | nil => simp
  | append_singleton ds d ih =>
    rw [accumulate_append_singleton, ih, mulAdd_digits dst hbase, List.reverse_append,
      List.reverse_singleton, List.singleton_append, value_cons]

/-! ## Another radix and back

From here on the most significant digit stands first. -/

variable (src dst : Radix)

theorem convert_eq_reverse_digits (ds : List UInt8) :
    convert src dst ds = (dst.digits (src.value ds.reverse)).reverse := by
  rw [convert, accumulate_eq_digits]

/-- Zeros in front do not change the number. -/
theorem convert_zeros_append (count : Nat) (ds : List UInt8) :
    convert src dst (List.replicate count 0 ++ ds) = convert src dst ds := by
  rw [convert_eq_reverse_digits, List.reverse_append, List.reverse_replicate, value_append_zeros,
    ← convert_eq_reverse_digits]

theorem takeWhile_zeros_eq_replicate (ds : List UInt8) :
    ds.takeWhile (· == 0) = List.replicate (ds.takeWhile (· == 0)).length 0 :=
  List.eq_replicate_of_mem fun d hd => by simpa using List.mem_takeWhile_imp hd

theorem convert_dropWhile_zeros (ds : List UInt8) :
    convert src dst (ds.dropWhile (· == 0)) = convert src dst ds := by
  conv_rhs =>
    rw [← List.takeWhile_append_dropWhile (p := (· == 0)) (l := ds), takeWhile_zeros_eq_replicate]
  rw [convert_zeros_append]

/-- The digits are those of the number that is read. -/
theorem map_toNat_convert (ds : List UInt8) :
    (convert src dst ds).map UInt8.toNat =
      (Nat.digits dst.base (src.value ds.reverse)).reverse := by
  rw [convert_eq_reverse_digits, List.map_reverse, map_toNat_digits]

theorem head?_convert_ne_zero (ds : List UInt8) : (convert src dst ds).head? ≠ some 0 := by
  rw [convert_eq_reverse_digits, List.head?_reverse]
  exact (canonical_digits dst _).getLast?_ne_zero

theorem lt_base_of_mem_convert {ds : List UInt8} {d : UInt8} (h : d ∈ convert src dst ds) :
    d.toNat < dst.base := by
  rw [convert_eq_reverse_digits, List.mem_reverse] at h
  exact (canonical_digits dst _).lt_base d h

variable {src} in
/-- A numeral without zeros in front comes back. -/
theorem convert_convert {ds : List UInt8} (h : src.Canonical ds.reverse) :
    convert dst src (convert src dst ds) = ds := by
  have hback : convert dst src (convert src dst ds) = (src.digits (src.value ds.reverse)).reverse := by
    rw [convert_eq_reverse_digits dst src, convert_eq_reverse_digits src dst, List.reverse_reverse,
      value_digits]
  rw [hback, h.digits_value, List.reverse_reverse]

/-- The number in another radix, behind as many zeros as stood in front of it. -/
def recode (ds : List UInt8) : List UInt8 :=
  ds.takeWhile (· == 0) ++ convert src dst (ds.dropWhile (· == 0))

/-- The number stays the same, zeros in front included. -/
theorem value_recode (ds : List UInt8) :
    dst.value (recode src dst ds).reverse = src.value ds.reverse := by
  rw [recode, convert_dropWhile_zeros, List.reverse_append, takeWhile_zeros_eq_replicate,
    List.reverse_replicate, value_append_zeros, convert_eq_reverse_digits, List.reverse_reverse,
    value_digits]

/-- Every numeral is a number of zeros and a rest that does not begin with one. -/
theorem exists_eq_zeros_append (ds : List UInt8) :
    ∃ count rest, ds = List.replicate count 0 ++ rest ∧ rest.head? ≠ some 0 := by
  induction ds with
  | nil => exact ⟨0, [], rfl, by simp⟩
  | cons d ds ih =>
    by_cases hd : d = 0
    · obtain ⟨count, rest, hds, hrest⟩ := ih
      refine ⟨count + 1, rest, ?_, hrest⟩
      rw [hd, hds, List.replicate_succ, List.cons_append]
    · exact ⟨0, d :: ds, rfl, by simpa using hd⟩

/-- Leading copies of a byte are found again if none follows them. -/
theorem takeWhile_replicate_append (count : Nat) (a : UInt8) {rest : List UInt8}
    (h : rest.head? ≠ some a) :
    (List.replicate count a ++ rest).takeWhile (· == a) = List.replicate count a := by
  have hcopies : ∀ d ∈ List.replicate count a, (d == a) = true := by
    intro d hd
    rw [List.eq_of_mem_replicate hd, beq_self_eq_true]
  have hrest : rest.takeWhile (· == a) = [] := by
    cases rest with
    | nil => rfl
    | cons d rest =>
      have hd : d ≠ a := by simpa using h
      rw [List.takeWhile_cons_of_neg (by simpa using hd)]
  rw [List.takeWhile_append_of_pos hcopies, hrest, List.append_nil]

theorem recode_zeros_append (count : Nat) {rest : List UInt8} (h : rest.head? ≠ some 0) :
    recode src dst (List.replicate count 0 ++ rest) =
      List.replicate count 0 ++ convert src dst rest := by
  have htake := takeWhile_replicate_append count 0 h
  have hdrop : (List.replicate count 0 ++ rest).dropWhile (· == 0) = rest := by
    have hsplit := List.takeWhile_append_dropWhile
      (p := (· == (0 : UInt8))) (l := List.replicate count 0 ++ rest)
    rw [htake] at hsplit
    exact List.append_cancel_left hsplit
  rw [recode, htake, hdrop]

theorem lt_base_of_mem_recode {ds : List UInt8} {d : UInt8} (h : d ∈ recode src dst ds) :
    d.toNat < dst.base := by
  rcases List.mem_append.1 h with hzero | hrest
  · have hd : d = 0 := by simpa using List.mem_takeWhile_imp hzero
    rw [hd]
    exact dst.base_pos
  · exact lt_base_of_mem_convert src dst hrest

variable {src} in
/-- **There and back.** The zeros in front are kept both ways and the rest is canonical. -/
theorem recode_recode {ds : List UInt8} (h : ∀ d ∈ ds, d.toNat < src.base) :
    recode dst src (recode src dst ds) = ds := by
  obtain ⟨count, rest, rfl, hrest⟩ := exists_eq_zeros_append ds
  have hcanonical : src.Canonical rest.reverse := by
    refine ⟨fun d hd => h d ?_, ?_⟩
    · exact List.mem_append_right _ (List.mem_reverse.1 hd)
    · rwa [List.getLast?_reverse]
  rw [recode_zeros_append src dst count hrest,
    recode_zeros_append dst src count (head?_convert_ne_zero src dst rest),
    convert_convert dst hcanonical]

end KeyTree.Radix

namespace KeyTree

/-! ## Big-endian bytes -/

/-- Reading back what was written keeps the number's lowest `width` bytes. -/
theorem ofBigEndian_bigEndian (width value : Nat) :
    ofBigEndian (bigEndian width value) = value % 256 ^ width := by
  induction width generalizing value with
  | zero => simp [bigEndian, Nat.mod_one]
  | succ width ih =>
    rw [bigEndian, ofBigEndian_append_singleton, ih, Nat.pow_succ', Nat.mod_mul,
      UInt8.toNat_ofNat']
    omega

/-- Numbers that fit into the bytes are told apart by them. -/
theorem bigEndian_inj {width m n : Nat} (hm : m < 256 ^ width) (hn : n < 256 ^ width) :
    bigEndian width m = bigEndian width n ↔ m = n := by
  refine ⟨fun h => ?_, fun h => h ▸ rfl⟩
  have hvalue := congrArg ofBigEndian h
  rwa [ofBigEndian_bigEndian, ofBigEndian_bigEndian, Nat.mod_eq_of_lt hm, Nat.mod_eq_of_lt hn]
    at hvalue

theorem ofBigEndian_eq_value (bytes : Bytes) :
    ofBigEndian bytes = Radix.byte.value bytes.reverse := by
  induction bytes using List.reverseRecOn with
  | nil => rfl
  | append_singleton bytes byte ih =>
    rw [ofBigEndian_append_singleton, ih, List.reverse_append, List.reverse_singleton,
      List.singleton_append, Radix.value_cons, Nat.add_comm]
    rfl

theorem ofBigEndian_lt (bytes : Bytes) : ofBigEndian bytes < 256 ^ bytes.length := by
  induction bytes using List.reverseRecOn with
  | nil => decide
  | append_singleton bytes byte ih =>
    have hbyte : byte.toNat < 256 := byte.toNat_lt
    rw [ofBigEndian_append_singleton, List.length_append, List.length_singleton, Nat.pow_succ]
    omega

/-- The first byte weighs most. -/
theorem ofBigEndian_cons (byte : UInt8) (bytes : Bytes) :
    ofBigEndian (byte :: bytes) = byte.toNat * 256 ^ bytes.length + ofBigEndian bytes := by
  induction bytes using List.reverseRecOn with
  | nil => simp [ofBigEndian]
  | append_singleton bytes last ih =>
    rw [← List.cons_append, ofBigEndian_append_singleton, ih, ofBigEndian_append_singleton,
      List.length_append, List.length_singleton, Nat.pow_succ]
    ring

/-- The weight of a byte when one more byte follows. -/
theorem weight_succ {width j : Nat} (h : j < width) :
    256 ^ (width + 1 - 1 - j) = 256 * 256 ^ (width - 1 - j) := by
  have hexp : width + 1 - 1 - j = width - 1 - j + 1 := by omega
  rw [hexp, Nat.pow_succ']

/-- Byte `j` of a number is its digit of weight `256 ^ (width - 1 - j)`. -/
theorem bigEndian_eq_map (width value : Nat) :
    bigEndian width value =
      (List.range width).map fun j => UInt8.ofNat (value / 256 ^ (width - 1 - j)) := by
  -- the last byte is cut off first, so all others are bytes of a smaller number
  induction width generalizing value with
  | zero => rfl
  | succ width ih =>
    have hfront : bigEndian width (value / 256) =
        (List.range width).map fun j => UInt8.ofNat (value / 256 ^ (width + 1 - 1 - j)) := by
      rw [ih]
      refine List.map_congr_left fun j hj => ?_
      rw [weight_succ (List.mem_range.1 hj), Nat.div_div_eq_div_mul]
    rw [bigEndian, hfront, List.range_succ, List.map_append, List.map_singleton,
      Nat.add_sub_cancel, Nat.sub_self, Nat.pow_zero, Nat.div_one]

/-- The bytes of a number of 32 bits, weight by weight. -/
theorem bigEndian_four (value : Nat) :
    bigEndian 4 value =
      [256 ^ 3, 256 ^ 2, 256, 1].map fun weight => UInt8.ofNat (value / weight) := by
  rw [bigEndian_eq_map]
  rfl

/-- The number of bytes that are given by their positions. -/
theorem ofBigEndian_map_range (byte : Nat → UInt8) (width : Nat) :
    ofBigEndian ((List.range width).map byte) =
      ((List.range width).map fun j => (byte j).toNat * 256 ^ (width - 1 - j)).sum := by
  induction width with
  | zero => rfl
  | succ width ih =>
    have hfront :
        256 * ((List.range width).map fun j => (byte j).toNat * 256 ^ (width - 1 - j)).sum =
          ((List.range width).map fun j => (byte j).toNat * 256 ^ (width + 1 - 1 - j)).sum := by
      rw [← List.sum_map_mul_left]
      refine congrArg List.sum (List.map_congr_left fun j hj => ?_)
      rw [weight_succ (List.mem_range.1 hj), Nat.mul_left_comm]
    rw [List.range_succ, List.map_append, List.map_singleton, ofBigEndian_append_singleton, ih,
      hfront, List.map_append, List.map_singleton, List.sum_append, List.sum_singleton,
      Nat.add_sub_cancel, Nat.sub_self, Nat.pow_zero, Nat.mul_one]

end KeyTree
