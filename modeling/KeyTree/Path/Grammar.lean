import KeyTree.Path
import Mathlib.Algebra.Group.Nat.Defs

/-!
# The written form of paths

Which texts are steps and paths, said without a reader: a step is spelled by its digits and a mark, a
path by the steps that stand between slashes.

* **`Step.Spells`** relates a segment to the step that it denotes; **`Step.WellFormed`** is the shape
  of a segment whatever the size of its number.
  A segment denotes one step at most (**`Step.Spells.unique`**).
* **`Path.Runs`** relates a text to its maximal runs of bytes other than the slash.
-/

namespace KeyTree

namespace Step

def Numeral (digits : Bytes) : Prop :=
  digits ≠ [] ∧ ∀ c ∈ digits, Decimal.IsDigit c

/-- The letter `h` or an apostrophe. -/
def Mark (c : UInt8) : Prop :=
  c = 'h'.toUInt8 ∨ c = 39

/-- Digits with at most one mark behind them. -/
inductive WellFormed : Bytes → Prop where
  | plain {digits : Bytes} (hdigits : Numeral digits) : WellFormed digits
  | marked {digits : Bytes} {mark : UInt8} (hdigits : Numeral digits) (hmark : Mark mark) :
      WellFormed (digits ++ [mark])

/-- A segment denotes a step: its digits denote the index, which is below `2 ^ 31`, and there is a
mark exactly if the step is hardened. -/
inductive Spells : Bytes → Step → Prop where
  | plain {digits : Bytes} {index : UInt32} (hdigits : Numeral digits)
      (hvalue : Decimal.value digits = index.toNat) (hrange : index.toNat < 2 ^ 31) :
      Spells digits { index, hardened := false }
  | marked {digits : Bytes} {mark : UInt8} {index : UInt32} (hdigits : Numeral digits)
      (hmark : Mark mark) (hvalue : Decimal.value digits = index.toNat)
      (hrange : index.toNat < 2 ^ 31) :
      Spells (digits ++ [mark]) { index, hardened := true }

theorem Spells.index_lt {segment : Bytes} {step : Step} (h : Spells segment step) :
    step.index.toNat < 2 ^ 31 := by
  cases h with
  | plain _ _ hrange => exact hrange
  | marked _ _ _ hrange => exact hrange

theorem WellFormed.ne_nil {segment : Bytes} (h : WellFormed segment) : segment ≠ [] := by
  cases h with
  | plain hdigits => exact hdigits.1
  | marked _ _ => simp

theorem WellFormed.isDigit_or_mark {segment : Bytes} (h : WellFormed segment) {c : UInt8}
    (hc : c ∈ segment) : Decimal.IsDigit c ∨ Mark c := by
  cases h with
  | plain hdigits => exact Or.inl (hdigits.2 c hc)
  | marked hdigits hmark =>
    rcases List.mem_append.1 hc with hc | hc
    · exact Or.inl (hdigits.2 c hc)
    · rw [List.mem_singleton.1 hc]
      exact Or.inr hmark

theorem WellFormed.slash_not_mem {segment : Bytes} (h : WellFormed segment) :
    Path.slash ∉ segment := by
  have hslash : ¬ (Decimal.IsDigit Path.slash ∨ Mark Path.slash) := by unfold Mark; decide
  exact fun hmem => hslash (h.isDigit_or_mark hmem)

theorem WellFormed.zero_not_mem {segment : Bytes} (h : WellFormed segment) : 0 ∉ segment := by
  have hzero : ¬ (Decimal.IsDigit 0 ∨ Mark 0) := by unfold Mark; decide
  exact fun hmem => hzero (h.isDigit_or_mark hmem)

theorem Mark.not_isDigit {c : UInt8} (h : Mark c) : ¬ Decimal.IsDigit c := by
  rcases h with rfl | rfl <;> decide

theorem Numeral.ne_append_mark {digits rest : Bytes} {mark : UInt8} (h : Numeral digits)
    (hmark : Mark mark) : digits ≠ rest ++ [mark] := by
  rintro rfl
  exact hmark.not_isDigit (h.2 mark (by simp))

/-- A segment denotes one step at most. -/
theorem Spells.unique {segment : Bytes} {s t : Step} (hs : Spells segment s)
    (ht : Spells segment t) : s = t := by
  generalize hseg : segment = other at ht
  cases hs with
  | plain hdigits hvalue _ =>
    cases ht with
    | plain _ hvalue' _ =>
      subst hseg
      rw [hvalue, UInt32.toNat_inj] at hvalue'
      rw [hvalue']
    | marked _ hmark _ _ => exact absurd hseg (hdigits.ne_append_mark hmark)
  | marked hdigits hmark hvalue _ =>
    cases ht with
    | plain hdigits' _ _ => exact absurd hseg.symm (hdigits'.ne_append_mark hmark)
    | marked _ _ hvalue' _ =>
      obtain ⟨rfl, -⟩ := List.append_inj' hseg rfl
      rw [hvalue, UInt32.toNat_inj] at hvalue'
      rw [hvalue']

end Step

namespace Path

/-- The maximal non-empty runs of bytes other than the slash, in order. -/
inductive Runs : Bytes → List Bytes → Prop where
  | nil : Runs [] []
  | slash {text : Bytes} {runs : List Bytes} (h : Runs text runs) :
      Runs ('/'.toUInt8 :: text) runs
  | last {run : Bytes} (hne : run ≠ []) (hrun : '/'.toUInt8 ∉ run) : Runs run [run]
  | run {run text : Bytes} {runs : List Bytes} (hne : run ≠ []) (hrun : '/'.toUInt8 ∉ run)
      (h : Runs text runs) : Runs (run ++ '/'.toUInt8 :: text) (run :: runs)

end Path

end KeyTree
