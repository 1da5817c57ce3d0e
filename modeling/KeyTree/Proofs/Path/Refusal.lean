import KeyTree.Proofs.Path.Parse

/-!
# What a path is refused for

A text that denotes no path has a first run that spells no step, and that run alone decides the
failure: a run of the wrong shape is refused for its shape, however large its digits are, and one of
the right shape for the size of its number.

* **`Step.Refused`**: a segment and the failure that it is refused with, said without the reader.
* **`Step.Refused.quotes`**, **`Step.Refused.shown_eq`**: what the wording and the display have of it.
* **`Step.parse_eq_error_iff`**: the reader refuses a segment with exactly that failure.
* **`Path.parse_eq_error_iff`**: a path is refused for the first of its segments that is.
* **`Path.parse_outcome`**: what every text whatsoever is read as.
-/

namespace KeyTree

namespace Step

/-- A segment is refused with a failure: for its shape or, with digits and at most one mark, for a
number that is no index. -/
inductive Refused : Bytes → Failure → Prop where
  | shape {segment : Bytes} (hshape : ¬ WellFormed segment) : Refused segment (.badSegment segment)
  | plain {digits : Bytes} (hdigits : Numeral digits) (hrange : 2 ^ 31 ≤ Decimal.value digits) :
      Refused digits (.indexTooLarge digits)
  | marked {digits : Bytes} {mark : UInt8} (hdigits : Numeral digits) (hmark : Mark mark)
      (hrange : 2 ^ 31 ≤ Decimal.value digits) :
      Refused (digits ++ [mark]) (.indexTooLarge (digits ++ [mark]))

/-- The shape of the segment decides the category. -/
theorem Refused.category_cases {segment : Bytes} {failure : Failure} (h : Refused segment failure) :
    ¬ WellFormed segment ∧ failure.category = .pathSegment ∨
      WellFormed segment ∧ failure.category = .indexRange := by
  cases h with
  | shape hshape => exact Or.inl ⟨hshape, rfl⟩
  | plain hdigits _ => exact Or.inr ⟨.plain hdigits, rfl⟩
  | marked hdigits hmark _ => exact Or.inr ⟨.marked hdigits hmark, rfl⟩

/-- Between quotation marks the wording has the whole segment. -/
theorem Refused.quotes {segment : Bytes} {failure : Failure} (h : Refused segment failure) :
    ascii "'" ++ segment ++ ascii "'" <:+: failure.message := by
  cases h with
  | shape _ => exact Failure.quotes_badSegment _
  | plain _ _ | marked _ _ _ => exact Failure.quotes_indexTooLarge _

theorem Refused.zero_not_mem_message {segment : Bytes} {failure : Failure}
    (h : Refused segment failure) (hsegment : 0 ∉ segment) : 0 ∉ failure.message := by
  have hshape : 0 ∉ ascii "Invalid derivation path segment '" := by decide
  have hquote : 0 ∉ ascii "'" := by decide
  have hrange : 0 ∉ ascii "Derivation index '" := by decide
  have hbound : 0 ∉ ascii "' must be below 2147483648" := by decide
  cases h with
  | shape _ => simp [Failure.message, hshape, hquote, hsegment]
  | plain _ _ => simp [Failure.message, hrange, hbound, hsegment]
  | marked _ _ _ => simpa [Failure.message, hrange, hbound] using hsegment

/-- What is displayed is the wording, unless the segment has a zero byte: then it ends in front of
the first one. -/
theorem Refused.shown_eq {segment : Bytes} {failure : Failure} (h : Refused segment failure) :
    failure.shown = if 0 ∈ segment then
      ascii "Invalid derivation path segment '" ++ beforeNul segment else failure.message := by
  have hfront : 0 ∉ ascii "Invalid derivation path segment '" := by decide
  split
  case isTrue hzero =>
    -- digits and marks are no zero bytes, so it is the shape that the segment is refused for
    cases h with
    | shape _ =>
      show beforeNul (ascii "Invalid derivation path segment '" ++ segment ++ ascii "'") = _
      rw [List.append_assoc, beforeNul_append hfront, beforeNul_append_of_mem hzero]
    | plain hdigits _ => exact absurd hzero (WellFormed.plain hdigits).zero_not_mem
    | marked hdigits hmark _ => exact absurd hzero (WellFormed.marked hdigits hmark).zero_not_mem
  case isFalse hzero => exact beforeNul_eq_self (h.zero_not_mem_message hzero)

/-! ## The size of the number -/

theorem exists_index {n : Nat} (h : n < 2 ^ 31) :
    ∃ index : UInt32, n = index.toNat ∧ index.toNat < 2 ^ 31 := by
  have hindex : (UInt32.ofNat n).toNat = n := by
    rw [UInt32.toNat_ofNat']
    omega
  exact ⟨UInt32.ofNat n, hindex.symm, by omega⟩

theorem readIndex_eq_none_iff {digits : Bytes} :
    readIndex digits = none ↔ 2 ^ 31 ≤ Decimal.value digits := by
  refine ⟨fun h => ?_, fun h => ?_⟩
  · by_contra hlt
    obtain ⟨index, hindex⟩ := exists_index (Nat.lt_of_not_le hlt)
    rw [readIndex_eq_some_iff.2 hindex] at h
    cases h
  · cases hread : readIndex digits with
    | none => rfl
    | some index =>
      obtain ⟨hvalue, hrange⟩ := readIndex_eq_some_iff.1 hread
      omega

/-! ## The segment -/

section Outcome

variable {segment digits : Bytes} {hardened : Bool}

theorem wellFormed_iff_of_splitMark (h : splitMark segment = (digits, hardened)) :
    WellFormed segment ↔ Numeral digits := by
  refine ⟨fun hshape => ?_, fun hdigits => ?_⟩
  · cases hshape with
    | plain hdigits =>
      rw [hdigits.splitMark_eq] at h
      rwa [← (Prod.mk.inj h).1]
    | marked hdigits hmark =>
      rw [splitMark_append_mark hmark] at h
      rwa [← (Prod.mk.inj h).1]
  · rcases splitMark_cases segment with ⟨rest, mark, hmark, rfl, hsplit⟩ | ⟨-, hsplit⟩
    · rw [h] at hsplit
      rw [← (Prod.mk.inj hsplit).1]
      exact .marked hdigits hmark
    · rw [h] at hsplit
      rw [← (Prod.mk.inj hsplit).1]
      exact .plain hdigits

/-- Digits have nothing to be refused for but their number. -/
theorem parse_eq_error_iff_of_numeral (h : splitMark segment = (digits, hardened))
    (hdigits : Numeral digits) {failure : Failure} :
    parse segment = .error failure ↔
      2 ^ 31 ≤ Decimal.value digits ∧ failure = .indexTooLarge segment := by
  rw [parse_of_numeral h hdigits, ← readIndex_eq_none_iff]
  cases readIndex digits with
  | none => simp [eq_comm]
  | some index => simp

/-- A number of digits that is too large is refused, whatever stands behind the digits. -/
theorem parse_of_le_value (h : splitMark segment = (digits, hardened)) (hdigits : Numeral digits)
    (hrange : 2 ^ 31 ≤ Decimal.value digits) : parse segment = .error (.indexTooLarge segment) :=
  (parse_eq_error_iff_of_numeral h hdigits).2 ⟨hrange, rfl⟩

end Outcome

theorem parse_of_refused {segment : Bytes} {failure : Failure} (h : Refused segment failure) :
    parse segment = .error failure := by
  cases h with
  | shape hshape =>
    have hdigits : ¬ Numeral (splitMark segment).1 :=
      fun hnumeral => hshape ((wellFormed_iff_of_splitMark rfl).2 hnumeral)
    exact parse_of_not_numeral rfl hdigits
  | plain hdigits hrange => exact parse_of_le_value hdigits.splitMark_eq hdigits hrange
  | marked hdigits hmark hrange => exact parse_of_le_value (splitMark_append_mark hmark) hdigits hrange

/-- Every segment spells a step or is refused. -/
theorem exists_spells_or_refused (segment : Bytes) :
    (∃ step, Spells segment step) ∨ ∃ failure, Refused segment failure := by
  by_cases hshape : WellFormed segment
  · cases hshape with
    | plain hdigits =>
      rcases Nat.lt_or_ge (Decimal.value segment) (2 ^ 31) with hlt | hge
      · obtain ⟨index, hvalue, hrange⟩ := exists_index hlt
        exact Or.inl ⟨_, .plain hdigits hvalue hrange⟩
      · exact Or.inr ⟨_, .plain hdigits hge⟩
    | @marked digits mark hdigits hmark =>
      rcases Nat.lt_or_ge (Decimal.value digits) (2 ^ 31) with hlt | hge
      · obtain ⟨index, hvalue, hrange⟩ := exists_index hlt
        exact Or.inl ⟨_, .marked hdigits hmark hvalue hrange⟩
      · exact Or.inr ⟨_, .marked hdigits hmark hge⟩
  · exact Or.inr ⟨_, .shape hshape⟩

/-- **A segment is refused with exactly the failure of its fault.** -/
theorem parse_eq_error_iff {segment : Bytes} {failure : Failure} :
    parse segment = .error failure ↔ Refused segment failure := by
  refine ⟨fun h => ?_, parse_of_refused⟩
  rcases exists_spells_or_refused segment with ⟨step, hspells⟩ | ⟨other, hrefused⟩
  · rw [parse_eq_ok_iff.2 hspells] at h
    cases h
  · rw [parse_of_refused hrefused] at h
    rwa [← Except.error.inj h]

end Step

namespace Path

/-- **A path is refused for the first of its segments that is refused.** -/
theorem parse_eq_error_iff {text : Bytes} {failure : Failure} :
    parse text = .error failure ↔
      ∃ before run after, segments text = before ++ run :: after ∧
        (∀ earlier ∈ before, ∃ step, Step.Spells earlier step) ∧ Step.Refused run failure := by
  unfold parse
  simp only [Fallible.mapM_eq_error_iff, Step.parse_eq_ok_iff, Step.parse_eq_error_iff]

/-- The name of the root is no path without a slash behind it. -/
theorem parse_root : parse (ascii "m") = .error (.badSegment (ascii "m")) := by
  decide

theorem category_isPath_of_parse {text : Bytes} {failure : Failure}
    (h : parse text = .error failure) : failure.category.isPath = true := by
  obtain ⟨_, _, _, -, -, hrefused⟩ := parse_eq_error_iff.1 h
  rcases hrefused.category_cases with ⟨-, hcategory⟩ | ⟨-, hcategory⟩
  · rw [hcategory]
    rfl
  · rw [hcategory]
    rfl

/-- **What a text is read as.** Every text has one rest behind its lead, and that has one list of
runs. The path that is read has one step for each run, in order; if some run spells no step, the
first one that does not decides the failure, by its shape or by the size of its number, and the
wording quotes all of it. What is displayed ends in front of the first zero byte that is quoted. -/
theorem parse_outcome (text : Bytes) :
    ∃ rest runs, (∀ other, Unled text other ↔ other = rest) ∧
      (∀ other, Runs rest other ↔ other = runs) ∧
      ((∃ path, parse text = .ok path) ↔ ∀ run ∈ runs, ∃ step, Step.Spells run step) ∧
      (∀ path, parse text = .ok path ↔ List.Forall₂ Step.Spells runs path) ∧
      ∀ failure, parse text = .error failure ↔
        ∃ before run after, runs = before ++ run :: after ∧
          (∀ earlier ∈ before, ∃ step, Step.Spells earlier step) ∧ Step.Refused run failure ∧
          (¬ Step.WellFormed run ∧ failure.category = .pathSegment ∨
            Step.WellFormed run ∧ failure.category = .indexRange) ∧
          ascii "'" ++ run ++ ascii "'" <:+: failure.message ∧
          failure.shown = if 0 ∈ run then
            ascii "Invalid derivation path segment '" ++ beforeNul run else failure.message := by
  refine ⟨body text, segments text, ?unled, ?runs, ?accepts, ?steps, ?fails⟩
  case unled =>
    intro other
    rw [unled_iff, eq_comm]
  case runs =>
    intro other
    rw [runs_iff, segments, eq_comm]
  case accepts =>
    unfold parse
    simp only [Fallible.exists_mapM_eq_ok_iff, Step.parse_eq_ok_iff]
  case steps =>
    intro path
    exact parse_eq_ok_iff_segments
  case fails =>
    intro failure
    rw [parse_eq_error_iff]
    refine ⟨fun h => ?_, fun h => ?_⟩
    · obtain ⟨before, run, after, hruns, hbefore, hrefused⟩ := h
      exact ⟨before, run, after, hruns, hbefore, hrefused, hrefused.category_cases, hrefused.quotes,
        hrefused.shown_eq⟩
    · obtain ⟨before, run, after, hruns, hbefore, hrefused, -⟩ := h
      exact ⟨before, run, after, hruns, hbefore, hrefused⟩

/-- The lead goes once, and the first fault hides the second. -/
example : parse (ascii "m/m/1h/2147483648") = .error (.badSegment (ascii "m")) := by decide

end Path

end KeyTree
