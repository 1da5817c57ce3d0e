import KeyTree.Proofs.Path.Refusal

/-!
# Reading what was written

`Path.text` against `Path.parse`. Every step is written in the shape of a step, digits and at most one
mark, whatever its index is; so the runs of a written path are its written steps, and each of them is
read back unless its index is out of range.

* **`Step.parse_text`**: a written step is read back, or refused for its index.
* **`Path.segments_text`**: the segments of a written path are its written steps. The path without
  steps is the exception, since its text is the name of the root alone.
* **`Path.parse_text_outcome`**: what a written path is read as.
-/

namespace KeyTree

/-! ## Steps -/

namespace Step

/-- The index as it is printed, and `h` if the step is hardened. -/
theorem text_eq (step : Step) :
    step.text = ascii (toString step.index.toNat) ++ if step.hardened then ascii "h" else [] := by
  rw [text, Decimal.text_eq_ascii_toString, show ascii "h" = [hardenedMark] by decide]

theorem numeral_text (n : Nat) : Numeral (Decimal.text n) := by
  refine ⟨?_, fun c hc => Decimal.isDigit_of_mem_text hc⟩
  unfold Decimal.text
  split
  · simp
  · next hn => simp [Radix.digits_of_ne_zero _ hn]

theorem splitMark_text (step : Step) :
    splitMark step.text = (Decimal.text step.index.toNat, step.hardened) := by
  unfold text
  cases step.hardened with
  | false =>
    rw [if_neg Bool.false_ne_true, List.append_nil]
    exact (numeral_text _).splitMark_eq
  | true =>
    rw [if_pos rfl]
    exact splitMark_append_mark (Or.inl rfl)

/-- A written step has the shape of one, also where its index is out of range. -/
theorem wellFormed_text (step : Step) : WellFormed step.text :=
  (wellFormed_iff_of_splitMark (splitMark_text step)).2 (numeral_text _)

/-- **A written step is read back**, or refused for its index. -/
theorem parse_text (step : Step) :
    parse step.text =
      if step.index.toNat < 2 ^ 31 then .ok step else .error (.indexTooLarge step.text) := by
  have hvalue := Decimal.value_text step.index.toNat
  split
  · next hrange =>
    exact (parse_eq_ok_iff_of_splitMark (splitMark_text step)).2
      ⟨numeral_text _, hvalue, hrange, rfl⟩
  · next hrange =>
    exact parse_of_le_value (splitMark_text step) (numeral_text _) (by omega)

theorem parse_text_eq_ok_iff {step read : Step} :
    parse step.text = .ok read ↔ step.index.toNat < 2 ^ 31 ∧ step = read := by
  rw [parse_text]
  split
  · next hrange => rw [Except.ok.injEq, and_iff_right hrange]
  · next hrange => exact iff_of_false (by simp) fun h => hrange h.1

theorem parse_text_eq_error_iff {step : Step} {failure : Failure} :
    parse step.text = .error failure ↔
      2 ^ 31 ≤ step.index.toNat ∧ failure = .indexTooLarge step.text := by
  rw [parse_text]
  split
  · next hrange => exact iff_of_false (by simp) fun h => Nat.not_le_of_lt hrange h.1
  · next hrange => rw [Except.error.injEq, and_iff_right (Nat.le_of_not_lt hrange), eq_comm]

end Step

/-! ## Paths -/

namespace Path

theorem runs_text_append (step : Step) (path : Path) :
    Runs (step.text ++ path.flatMap fun next => slash :: next.text)
      (step.text :: path.map Step.text) := by
  have hne := fun step : Step => step.wellFormed_text.ne_nil
  have hslash := fun step : Step => step.wellFormed_text.slash_not_mem
  -- each slash ends the step in front of it and begins the next one
  induction path generalizing step with
  | nil =>
    rw [List.flatMap_nil, List.append_nil]
    exact .last (hne step) (hslash step)
  | cons next path ih =>
    rw [List.flatMap_cons, List.cons_append]
    exact .run (hne step) (hslash step) (ih next)

theorem segments_text {path : Path} (h : path ≠ []) : segments (text path) = path.map Step.text := by
  cases path with
  | nil => exact absurd rfl h
  | cons step path =>
    have htext : text (step :: path) =
        lead ++ (step.text ++ path.flatMap fun next => slash :: next.text) := by
      show ascii "m" ++ (slash :: step.text ++ _) = _
      rw [show lead = ascii "m" ++ [slash] by decide, List.append_assoc]
      rfl
    rw [htext, List.map_cons]
    exact segments_eq_iff.2 ⟨_, .led _, runs_text_append step path⟩

/-- Written steps are read one by one. -/
theorem parse_text {path : Path} (h : path ≠ []) :
    parse (text path) = path.mapM fun step => Step.parse step.text := by
  rw [parse, segments_text h, List.mapM_map]
  rfl

theorem parse_text_eq_ok_iff {path : Path} :
    parse (text path) = .ok path ↔ path ≠ [] ∧ ∀ step ∈ path, step.index.toNat < 2 ^ 31 := by
  by_cases hpath : path = []
  · rw [hpath, show text [] = ascii "m" from rfl, parse_root]
    simp
  · rw [parse_text hpath, Fallible.mapM_eq_ok_iff, List.forall₂_same, and_iff_right hpath]
    simp only [Step.parse_text_eq_ok_iff, and_true]

theorem parse_text_eq_error_iff {path : Path} {failure : Failure} :
    parse (text path) = .error failure ↔
      path = [] ∧ failure = .badSegment (ascii "m") ∨
        ∃ before step after, path = before ++ step :: after ∧
          (∀ earlier ∈ before, earlier.index.toNat < 2 ^ 31) ∧ 2 ^ 31 ≤ step.index.toNat ∧
          failure = .indexTooLarge step.text := by
  by_cases hpath : path = []
  · rw [hpath, show text [] = ascii "m" from rfl, parse_root]
    simp [eq_comm]
  · rw [parse_text hpath, Fallible.mapM_eq_error_iff, or_iff_right fun h => hpath h.1]
    simp only [Step.parse_text_eq_ok_iff, Step.parse_text_eq_error_iff, exists_and_left,
      exists_eq', and_true]

/-- **What a written path is read as.** It is itself, if it has steps and all of them are in range.
The path without steps is refused by its name, as no segment of a path, and any other for the first
step out of range, as an index that is too large. The wording quotes what is refused as it was
written. -/
theorem parse_text_outcome (path : Path) :
    (parse (text path) = .ok path ↔ path ≠ [] ∧ ∀ step ∈ path, step.index.toNat < 2 ^ 31) ∧
      ∀ failure, parse (text path) = .error failure ↔
        path = [] ∧ failure = .badSegment (ascii "m") ∧ failure.category = .pathSegment ∧
            ascii "'" ++ ascii "m" ++ ascii "'" <:+: failure.message ∨
          ∃ before step after, path = before ++ step :: after ∧
            (∀ earlier ∈ before, earlier.index.toNat < 2 ^ 31) ∧ 2 ^ 31 ≤ step.index.toNat ∧
            failure = .indexTooLarge step.text ∧ failure.category = .indexRange ∧
            ascii "'" ++ (ascii (toString step.index.toNat) ++
              if step.hardened then ascii "h" else []) ++ ascii "'" <:+: failure.message := by
  refine ⟨parse_text_eq_ok_iff, fun failure => ?_⟩
  rw [parse_text_eq_error_iff]
  refine ⟨fun h => ?refused, fun h => ?refusal⟩
  case refused =>
    rcases h with ⟨hpath, rfl⟩ | ⟨before, step, after, hpath, hbefore, hrange, rfl⟩
    · exact Or.inl ⟨hpath, rfl, rfl, Failure.quotes_badSegment (ascii "m")⟩
    · have hquotes := Failure.quotes_indexTooLarge step.text
      nth_rewrite 1 [step.text_eq] at hquotes
      exact Or.inr ⟨before, step, after, hpath, hbefore, hrange, rfl, rfl, hquotes⟩
  case refusal =>
    rcases h with ⟨hpath, hfailure, -⟩ | ⟨before, step, after, hpath, hbefore, hrange, hfailure, -⟩
    · exact Or.inl ⟨hpath, hfailure⟩
    · exact Or.inr ⟨before, step, after, hpath, hbefore, hrange, hfailure⟩

end Path

end KeyTree
