import KeyTree.Path.Grammar
import Mathlib.Data.List.Induction

/-!
# Reading a step

`Step.parse` against the written form of steps. The index is read digit by digit in 64 bits and given
up at the first digit that takes it out of range. Since it never shrinks again, that is a verdict on
the whole number; and since it stays below `2 ^ 31` in between, it never wraps.

* **`Step.toNat_nextIndex`**: the sum that is formed at a digit is that of the numbers.
* **`Step.pushDigit_eq_some_iff`**, one digit: the next value is the number with that digit, unless
  it is out of range.
* **`Step.foldlM_pushDigit_eq_some_iff`**, all of them: the value of the digit string, under the same
  condition.
* **`Step.toNat_childNumber`**: in range, the child number is the index, with `2 ^ 31` on top if the
  step is hardened.
* **`Step.splitMark_cases`**: a segment ends in a mark, which is taken off, or it stays as it is.
* **`Step.parse_eq_ok_iff`**: a segment is read as a step exactly if it spells that step.
-/

namespace KeyTree.Step

/-! ## The index -/

/-- The sum that the reader forms at a digit, in 64 bits. -/
def nextIndex (n : UInt64) (c : UInt8) : UInt64 :=
  n * 10 + (c - Decimal.zero).toUInt64

/-- The sum does not wrap: ten times the bound and one more byte are far below `2 ^ 64`. -/
theorem toNat_nextIndex {n : UInt64} (hn : n.toNat < 2 ^ 31) (c : UInt8) :
    (nextIndex n c).toNat = 10 * n.toNat + (c - Decimal.zero).toNat := by
  have hc : (c - Decimal.zero).toNat < 2 ^ 8 := UInt8.toNat_lt _
  rw [nextIndex, UInt64.toNat_add, UInt64.toNat_mul, UInt8.toNat_toUInt64]
  show (n.toNat * 10 % 2 ^ 64 + (c - Decimal.zero).toNat) % 2 ^ 64 = _
  omega

theorem pushDigit_eq_ite (n : UInt64) (c : UInt8) :
    pushDigit n c = if (nextIndex n c).toNat < 2 ^ 31 then some (nextIndex n c) else none := by
  have hoffset : hardenedOffset.toUInt64.toNat = 2 ^ 31 := by decide
  show (if nextIndex n c < hardenedOffset.toUInt64 then some (nextIndex n c) else none) = _
  simp only [UInt64.lt_iff_toNat_lt, hoffset]

theorem pushDigit_eq_some_iff {n m : UInt64} {c : UInt8} (hn : n.toNat < 2 ^ 31) :
    pushDigit n c = some m ↔
      m.toNat = 10 * n.toNat + (c - Decimal.zero).toNat ∧ m.toNat < 2 ^ 31 := by
  rw [pushDigit_eq_ite, ← toNat_nextIndex hn, UInt64.toNat_inj]
  split
  · next hlt =>
    rw [Option.some.injEq, eq_comm]
    exact ⟨fun h => ⟨h, h ▸ hlt⟩, fun h => h.1⟩
  · next hlt => exact iff_of_false (by simp) fun h => hlt (h.1 ▸ h.2)

theorem foldlM_pushDigit_eq_some_iff {digits : Bytes} {m : UInt64} :
    digits.foldlM pushDigit 0 = some m ↔ m.toNat = Decimal.value digits ∧ m.toNat < 2 ^ 31 := by
  -- the last digit is the one that the reader comes to last
  induction digits using List.reverseRecOn generalizing m with
  | nil =>
    show some (0 : UInt64) = some m ↔ m.toNat = 0 ∧ m.toNat < 2 ^ 31
    rw [Option.some.injEq, ← UInt64.toNat_inj, UInt64.toNat_zero]
    omega
  | append_singleton digits c ih =>
    rw [List.foldlM_append, Decimal.value_append_singleton]
    show (digits.foldlM pushDigit 0 >>= fun n => pushDigit n c >>= pure) = some m ↔ _
    simp only [bind_pure, Option.bind_eq_bind, Option.bind_eq_some_iff]
    refine ⟨fun h => ?_, fun h => ?_⟩
    · obtain ⟨n, hn, hpush⟩ := h
      obtain ⟨hvalue, hrange⟩ := ih.1 hn
      rw [← hvalue]
      exact (pushDigit_eq_some_iff hrange).1 hpush
    · obtain ⟨hvalue, hrange⟩ := h
      -- what comes before the last digit is no larger, so it was in range too
      have hbefore : (UInt64.ofNat (Decimal.value digits)).toNat = Decimal.value digits := by
        rw [UInt64.toNat_ofNat']
        omega
      refine ⟨UInt64.ofNat (Decimal.value digits), ih.2 ⟨hbefore, by omega⟩, ?_⟩
      rw [pushDigit_eq_some_iff (by omega), hbefore]
      exact ⟨hvalue, hrange⟩

theorem readIndex_eq_some_iff {digits : Bytes} {index : UInt32} :
    readIndex digits = some index ↔
      Decimal.value digits = index.toNat ∧ index.toNat < 2 ^ 31 := by
  unfold readIndex
  rw [Option.map_eq_some_iff]
  refine ⟨fun h => ?_, fun h => ?_⟩
  · obtain ⟨m, hm, hindex⟩ := h
    obtain ⟨hvalue, hrange⟩ := foldlM_pushDigit_eq_some_iff.1 hm
    rw [← hindex, UInt64.toNat_toUInt32]
    omega
  · obtain ⟨hvalue, hrange⟩ := h
    have hindex : index.toUInt64.toNat = index.toNat := UInt32.toNat_toUInt64 index
    refine ⟨index.toUInt64, foldlM_pushDigit_eq_some_iff.2 (by omega), ?_⟩
    rw [← UInt32.toNat_inj, UInt64.toNat_toUInt32, hindex]
    omega

/-! ## The child number -/

/-- In range, packing the index and the mark into 32 bits does not wrap. -/
theorem toNat_childNumber {step : Step} (h : step.index.toNat < 2 ^ 31) :
    step.childNumber.toNat = step.index.toNat + if step.hardened then 2 ^ 31 else 0 := by
  have hoffset : hardenedOffset.toNat = 2 ^ 31 := by decide
  unfold childNumber
  cases step.hardened with
  | false => rfl
  | true =>
    simp only [if_true]
    rw [UInt32.toNat_add, hoffset]
    omega

/-! ## The mark -/

theorem splitMark_append_mark {digits : Bytes} {mark : UInt8} (h : Mark mark) :
    splitMark (digits ++ [mark]) = (digits, true) := by
  have h' : mark = hardenedMark ∨ mark = apostrophe := h
  unfold splitMark
  rw [List.getLast?_concat]
  simp only [if_pos h', List.dropLast_concat]

/-- A mark at the end is taken off; a segment without one stays as it is. -/
theorem splitMark_cases (segment : Bytes) :
    (∃ digits mark, Mark mark ∧ segment = digits ++ [mark] ∧ splitMark segment = (digits, true)) ∨
      (∀ digits mark, Mark mark → segment ≠ digits ++ [mark]) ∧
        splitMark segment = (segment, false) := by
  by_cases h : ∃ digits mark, Mark mark ∧ segment = digits ++ [mark]
  · obtain ⟨digits, mark, hmark, rfl⟩ := h
    exact Or.inl ⟨digits, mark, hmark, rfl, splitMark_append_mark hmark⟩
  · have hend : ∀ digits mark, Mark mark → segment ≠ digits ++ [mark] := by
      intro digits mark hmark heq
      exact h ⟨digits, mark, hmark, heq⟩
    refine Or.inr ⟨hend, ?_⟩
    unfold splitMark
    cases hlast : segment.getLast? with
    | none => rfl
    | some c =>
      obtain ⟨digits, hdigits⟩ := List.getLast?_eq_some_iff.1 hlast
      have hc : ¬ (c = hardenedMark ∨ c = apostrophe) := fun hmark => hend digits c hmark hdigits
      simp only [if_neg hc]

/-- Digits do not end in a mark, so nothing is taken off. -/
theorem Numeral.splitMark_eq {digits : Bytes} (h : Numeral digits) :
    splitMark digits = (digits, false) := by
  rcases splitMark_cases digits with ⟨rest, mark, hmark, heq, -⟩ | ⟨-, hsplit⟩
  · exact absurd heq (h.ne_append_mark hmark)
  · exact hsplit

/-! ## The step -/

section Outcome

variable {segment digits : Bytes} {hardened : Bool}

theorem not_numeral_iff :
    ¬ Numeral digits ↔ digits = [] ∨ ¬ digits.all (Decimal.IsDigit ·) := by
  unfold Numeral
  rw [not_and_or, ne_eq, not_not]
  simp only [List.all_eq_true, decide_eq_true_eq]

theorem parse_of_not_numeral (h : splitMark segment = (digits, hardened))
    (hdigits : ¬ Numeral digits) : parse segment = .error (.badSegment segment) := by
  unfold parse
  rw [h]
  exact if_pos (not_numeral_iff.1 hdigits)

theorem parse_of_numeral (h : splitMark segment = (digits, hardened)) (hdigits : Numeral digits) :
    parse segment =
      match readIndex digits with
      | some index => .ok { index, hardened }
      | none => .error (.indexTooLarge segment) := by
  unfold parse
  rw [h]
  exact if_neg fun hbad => not_numeral_iff.2 hbad hdigits

theorem parse_eq_ok_iff_of_splitMark {step : Step} (h : splitMark segment = (digits, hardened)) :
    parse segment = .ok step ↔
      Numeral digits ∧ Decimal.value digits = step.index.toNat ∧ step.index.toNat < 2 ^ 31 ∧
        hardened = step.hardened := by
  by_cases hdigits : Numeral digits
  · have hread : parse segment = .ok step ↔
        readIndex digits = some step.index ∧ hardened = step.hardened := by
      rw [parse_of_numeral h hdigits]
      cases readIndex digits with
      | none => simp
      | some index => simp [Step.ext_iff]
    rw [hread, readIndex_eq_some_iff]
    exact ⟨fun ⟨⟨hvalue, hrange⟩, hmark⟩ => ⟨hdigits, hvalue, hrange, hmark⟩,
      fun ⟨_, hvalue, hrange, hmark⟩ => ⟨⟨hvalue, hrange⟩, hmark⟩⟩
  · rw [parse_of_not_numeral h hdigits]
    simp only [reduceCtorEq, false_iff]
    intro h'
    exact hdigits h'.1

end Outcome

/-- **A segment is read as a step exactly if it spells that step.** -/
theorem parse_eq_ok_iff {segment : Bytes} {step : Step} :
    parse segment = .ok step ↔ Spells segment step := by
  refine ⟨fun h => ?_, fun h => ?_⟩
  · rcases splitMark_cases segment with ⟨digits, mark, hmark, rfl, hsplit⟩ | ⟨-, hsplit⟩
    · obtain ⟨hdigits, hvalue, hrange, hhardened⟩ := (parse_eq_ok_iff_of_splitMark hsplit).1 h
      rw [show step = { index := step.index, hardened := true } from Step.ext rfl hhardened.symm]
      exact .marked hdigits hmark hvalue hrange
    · obtain ⟨hdigits, hvalue, hrange, hhardened⟩ := (parse_eq_ok_iff_of_splitMark hsplit).1 h
      rw [show step = { index := step.index, hardened := false } from Step.ext rfl hhardened.symm]
      exact .plain hdigits hvalue hrange
  · cases h with
    | plain hdigits hvalue hrange =>
      exact (parse_eq_ok_iff_of_splitMark hdigits.splitMark_eq).2 ⟨hdigits, hvalue, hrange, rfl⟩
    | marked hdigits hmark hvalue hrange =>
      exact (parse_eq_ok_iff_of_splitMark (splitMark_append_mark hmark)).2
        ⟨hdigits, hvalue, hrange, rfl⟩

end KeyTree.Step
