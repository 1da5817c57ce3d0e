import KeyTree.Proofs.Path.Refusal

/-!
# The index of a step

Whether digits denote an index is decided by their number, of any length and behind any zeros,
although the reader has no more than 64 bits for it and stops at the first digit that is too much.
When it comes to a digit, the number so far is still in range, and one digit more takes it at most to
ten times the range and nine.

* **`Step.toNat_nextIndex_of_read`**: the sum that is formed at a digit is the number up to there.
* **`Step.toNat_nextIndex_le`**: how large it gets.
* **`Step.pushDigit_of_read`**: the verdict at each digit is a verdict on that number.
* **`Step.Ending`**: what may stand behind the digits.
* **`Step.parse_by_value`**: the verdict on the segment is a verdict on the whole number.
-/

namespace KeyTree

theorem Decimal.toNat_sub_zero_le {c : UInt8} (h : IsDigit c) : (c - zero).toNat ≤ 9 := by
  obtain ⟨hlow, hhigh⟩ := h
  have hzero : zero.toNat = 48 := by decide
  have hnine : c.toNat ≤ 57 := UInt8.le_iff_toNat_le.1 hhigh
  rw [UInt8.toNat_sub_of_le _ _ hlow, hzero]
  omega

namespace Step

/-! ## The sums -/

section Read

variable {before : Bytes} {c : UInt8} {n : UInt64}

/-- The reader gets to a digit with the number of the digits in front of it, which is in range. -/
theorem toNat_nextIndex_of_read (h : before.foldlM pushDigit 0 = some n) :
    (nextIndex n c).toNat = Decimal.value (before ++ [c]) := by
  obtain ⟨hvalue, hrange⟩ := foldlM_pushDigit_eq_some_iff.1 h
  rw [toNat_nextIndex hrange, hvalue, Decimal.value_append_singleton]

theorem toNat_nextIndex_le (h : before.foldlM pushDigit 0 = some n) (hc : Decimal.IsDigit c) :
    (nextIndex n c).toNat ≤ 10 * (2 ^ 31 - 1) + 9 := by
  obtain ⟨-, hrange⟩ := foldlM_pushDigit_eq_some_iff.1 h
  have hdigit := Decimal.toNat_sub_zero_le hc
  rw [toNat_nextIndex hrange]
  omega

theorem pushDigit_of_read (h : before.foldlM pushDigit 0 = some n) :
    pushDigit n c =
      if Decimal.value (before ++ [c]) < 2 ^ 31 then some (nextIndex n c) else none := by
  rw [pushDigit_eq_ite, toNat_nextIndex_of_read h]

end Read

/-! ## The segment -/

/-- What may stand behind the digits: nothing or one mark, which makes the step a hardened one. -/
inductive Ending : Bytes → Bool → Prop where
  | plain : Ending [] false
  | marked {mark : UInt8} (hmark : Mark mark) : Ending [mark] true

theorem Ending.splitMark_append {digits ending : Bytes} {hardened : Bool}
    (h : Ending ending hardened) (hdigits : Numeral digits) :
    splitMark (digits ++ ending) = (digits, hardened) := by
  cases h with
  | plain =>
    rw [List.append_nil]
    exact hdigits.splitMark_eq
  | marked hmark => exact splitMark_append_mark hmark

theorem le_toNat_childNumber_iff {step : Step} (h : step.index.toNat < 2 ^ 31) :
    2 ^ 31 ≤ step.childNumber.toNat ↔ step.hardened = true := by
  rw [toNat_childNumber h]
  cases step.hardened with
  | false => simpa using h
  | true => simp

/-- **Digits are judged by their number**, whatever its length, and so is the sum at each of them,
which never wraps. A number in range is the index itself, and the child number leaves room for the
mark: it is in the upper half exactly if there was one. -/
theorem parse_by_value {digits ending : Bytes} {hardened : Bool} (hdigits : Numeral digits)
    (hending : Ending ending hardened) :
    ((∃ step, parse (digits ++ ending) = .ok step) ↔ Decimal.value digits < 2 ^ 31) ∧
      (∀ failure, parse (digits ++ ending) = .error failure ↔
        2 ^ 31 ≤ Decimal.value digits ∧ failure = .indexTooLarge (digits ++ ending) ∧
          failure.category = .indexRange) ∧
      (∀ step, parse (digits ++ ending) = .ok step →
        step.index.toNat = Decimal.value digits ∧ step.hardened = hardened ∧
          (step.childNumber.toNat = step.index.toNat + if hardened then 2 ^ 31 else 0) ∧
          (2 ^ 31 ≤ step.childNumber.toNat ↔ hardened = true)) ∧
      ∀ before c n, before ++ [c] <+: digits → before.foldlM pushDigit 0 = some n →
        (nextIndex n c).toNat = Decimal.value (before ++ [c]) ∧
          (nextIndex n c).toNat ≤ 10 * (2 ^ 31 - 1) + 9 ∧
          pushDigit n c =
            if Decimal.value (before ++ [c]) < 2 ^ 31 then some (nextIndex n c) else none := by
  have hsplit := hending.splitMark_append hdigits
  refine ⟨⟨?inRange, ?reads⟩, ?refused, ?step, ?sums⟩
  case inRange =>
    rintro ⟨step, hstep⟩
    obtain ⟨-, hvalue, hrange, -⟩ := (parse_eq_ok_iff_of_splitMark hsplit).1 hstep
    omega
  case reads =>
    intro hlt
    obtain ⟨index, hvalue, hrange⟩ := exists_index hlt
    refine ⟨{ index, hardened }, ?_⟩
    exact (parse_eq_ok_iff_of_splitMark hsplit).2 ⟨hdigits, hvalue, hrange, rfl⟩
  case refused =>
    intro failure
    rw [parse_eq_error_iff_of_numeral hsplit hdigits]
    refine and_congr_right fun _ => ⟨fun h => ⟨h, ?_⟩, fun h => h.1⟩
    rw [h]
    rfl
  case step =>
    intro step hstep
    obtain ⟨-, hvalue, hrange, rfl⟩ := (parse_eq_ok_iff_of_splitMark hsplit).1 hstep
    exact ⟨hvalue.symm, rfl, toNat_childNumber hrange, le_toNat_childNumber_iff hrange⟩
  case sums =>
    intro before c n hfront hread
    have hc : Decimal.IsDigit c := hdigits.2 c (hfront.subset (by simp))
    exact ⟨toNat_nextIndex_of_read hread, toNat_nextIndex_le hread hc, pushDigit_of_read hread⟩

/-- The last index there is, behind zeros; and the sum that is the largest of all, at the digit that
takes the last index out of range. -/
theorem parse_by_value_of_bounds :
    (Numeral (ascii "0002147483647") ∧ Ending (ascii "'") true ∧
        ∃ step, parse (ascii "0002147483647" ++ ascii "'") = .ok step ∧
          step.index.toNat = 2147483647 ∧ step.childNumber.toNat = 2147483647 + 2147483648) ∧
      Numeral (ascii "214748364799999999999") ∧ Ending [] false ∧
        parse (ascii "214748364799999999999" ++ []) =
          .error (.indexTooLarge (ascii "214748364799999999999" ++ [])) ∧
        ascii "2147483647" ++ ascii "9" <+: ascii "214748364799999999999" ∧
        (ascii "2147483647").foldlM pushDigit 0 = some 2147483647 ∧
        (nextIndex 2147483647 '9'.toUInt8).toNat = 10 * (2 ^ 31 - 1) + 9 ∧
        pushDigit 2147483647 '9'.toUInt8 = none := by
  have hlast : Numeral (ascii "0002147483647") :=
    not_not.1 fun h => absurd (not_numeral_iff.1 h) (by decide)
  have hlong : Numeral (ascii "214748364799999999999") :=
    not_not.1 fun h => absurd (not_numeral_iff.1 h) (by decide)
  have hmark : Ending (ascii "'") true := .marked (Or.inr rfl)
  obtain ⟨hreads, -, hstep, -⟩ := parse_by_value hlast hmark
  obtain ⟨-, hrefused, -, hsums⟩ := parse_by_value hlong .plain
  obtain ⟨step, hparse⟩ := hreads.2 (by decide)
  obtain ⟨hindex, -, hnumber, -⟩ := hstep step hparse
  have hvalue : Decimal.value (ascii "0002147483647") = 2147483647 := by decide
  have hfront : ascii "2147483647" ++ ascii "9" <+: ascii "214748364799999999999" := by decide
  have hread : (ascii "2147483647").foldlM pushDigit 0 = some 2147483647 := by decide
  obtain ⟨hsum, -, hpush⟩ := hsums (ascii "2147483647") '9'.toUInt8 2147483647 hfront hread
  rw [hvalue] at hindex
  refine ⟨⟨hlast, hmark, step, hparse, hindex, ?_⟩, hlong, .plain, ?_, hfront, hread, ?_, ?_⟩
  · rw [hnumber, hindex]
    rfl
  · exact (hrefused _).2 ⟨by decide, rfl, rfl⟩
  · rw [hsum]
    decide
  · rw [hpush]
    decide

end Step

end KeyTree
