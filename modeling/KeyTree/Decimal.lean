import KeyTree.Radix

/-!
# Decimal numbers in texts

* **`Decimal.text`** writes a number with the fewest digits, and zero as one digit.
* **`Decimal.value`** is the number that a digit string of any length denotes, leading zeros
  included.
* **`Decimal.text_eq_ascii_toString`**: a number is written as it is printed.
* **`Decimal.value_text`**: what was written denotes the number that was meant.
-/

namespace KeyTree.Decimal

/-- The ASCII digit zero; the others follow it in order. -/
def zero : UInt8 :=
  '0'.toUInt8

def IsDigit (c : UInt8) : Prop :=
  zero ≤ c ∧ c ≤ '9'.toUInt8

instance (c : UInt8) : Decidable (IsDigit c) :=
  inferInstanceAs (Decidable (_ ∧ _))

def text (n : Nat) : Bytes :=
  if n = 0 then [zero] else (Radix.decimal.digits n).reverse.map (zero + ·)

/-- The number that a string of digits denotes. -/
def value (digits : Bytes) : Nat :=
  digits.foldl (fun n c => 10 * n + (c - zero).toNat) 0

theorem value_append_singleton (digits : Bytes) (c : UInt8) :
    value (digits ++ [c]) = 10 * value digits + (c - zero).toNat := by
  simp [value]

/-! ## Writing -/

theorem text_of_lt {n : Nat} (h : n < 10) : text n = [zero + UInt8.ofNat n] := by
  unfold text
  by_cases hn : n = 0
  · rw [if_pos hn, hn]
    decide
  · rw [if_neg hn, Radix.digits_of_lt _ hn h]
    show [zero + UInt8.ofNat (n % 10)] = _
    rw [Nat.mod_eq_of_lt h]

/-- The last digit stands behind those of the number without it. -/
theorem text_of_le {n : Nat} (h : 10 ≤ n) :
    text n = text (n / 10) ++ [zero + UInt8.ofNat (n % 10)] := by
  have hn : n ≠ 0 := by omega
  have hrest : n / 10 ≠ 0 := by omega
  rw [text, text, if_neg hn, if_neg hrest, Radix.digits_of_ne_zero _ hn, List.reverse_cons,
    List.map_append]
  rfl

theorem isDigit_zero_add {d : UInt8} (h : d.toNat < 10) : IsDigit (zero + d) := by
  have all : ∀ n ∈ List.range 10, IsDigit (zero + UInt8.ofNat n) := by decide
  simpa using all d.toNat (List.mem_range.2 h)

theorem isDigit_of_mem_text {n : Nat} {c : UInt8} (h : c ∈ text n) : IsDigit c := by
  unfold text at h
  split at h
  · rw [List.mem_singleton.1 h]
    decide
  · obtain ⟨d, hd, rfl⟩ := List.mem_map.1 h
    exact isDigit_zero_add (Radix.lt_of_mem_digits _ (List.mem_reverse.1 hd))

theorem toUInt8_digitChar {d : Nat} (h : d < 10) :
    (Nat.digitChar d).toUInt8 = zero + UInt8.ofNat d := by
  have all : ∀ n ∈ List.range 10, (Nat.digitChar n).toUInt8 = zero + UInt8.ofNat n := by decide
  exact all d (List.mem_range.2 h)

/-- **A number is written as it is printed.** -/
theorem text_eq_ascii_toString (n : Nat) : text n = ascii (toString n) := by
  have hdigits : text n = (Nat.toDigits 10 n).map Char.toUInt8 := by
    induction n using Nat.strongRecOn with
    | ind n ih =>
      rcases Nat.lt_or_ge n 10 with hlt | hge
      · rw [text_of_lt hlt, Nat.toDigits_of_lt_base hlt, List.map_singleton, toUInt8_digitChar hlt]
      · have hsmaller : n / 10 < n := Nat.div_lt_self (by omega) (by decide)
        have hlast : n % 10 < 10 := Nat.mod_lt n (by decide)
        rw [text_of_le hge, Nat.toDigits_of_base_le (by decide) hge, List.map_append, ih _ hsmaller,
          List.map_singleton, toUInt8_digitChar hlast]
  rw [hdigits, ascii, Nat.toString_eq_repr, Nat.toList_repr]

/-! ## Reading what was written -/

theorem value_text (n : Nat) : value (text n) = n := by
  have hcancel (d : UInt8) : zero + d - zero = d := by
    rw [UInt8.add_comm, UInt8.add_sub_cancel]
  induction n using Nat.strongRecOn with
  | ind n ih =>
    rcases Nat.lt_or_ge n 10 with hlt | hge
    · rw [text_of_lt hlt]
      show 10 * 0 + (zero + UInt8.ofNat n - zero).toNat = n
      rw [hcancel, UInt8.toNat_ofNat']
      omega
    · have hsmaller : n / 10 < n := Nat.div_lt_self (by omega) (by decide)
      rw [text_of_le hge, value_append_singleton, ih _ hsmaller, hcancel, UInt8.toNat_ofNat']
      omega

end KeyTree.Decimal
