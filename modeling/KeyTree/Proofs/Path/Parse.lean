import KeyTree.Proofs.Fallible
import KeyTree.Proofs.Path.Step

/-!
# Reading a path

`Path.parse` against the written form of paths. Splitting at slashes and dropping the empty parts
gives the maximal runs of other bytes, whether slashes stand in front, behind, or next to each other.

* **`Path.runs_iff`**: the runs of a text, which every text has and only one way.
* **`Path.Denotes`**: a text is read as a path. Its lead is taken off once, and the runs of what is
  left spell the steps in order.
* **`Path.segments_eq_iff`**: the segments of a text are the runs behind its lead.
* **`Path.parse_eq_ok_iff`**: the reader accepts exactly the texts that denote a path.
-/

namespace KeyTree.Path

/-! ## Runs -/

theorem Runs.filter_splitOn {text : Bytes} {runs : List Bytes} (h : Runs text runs) :
    (text.splitOn '/'.toUInt8).filter (· ≠ []) = runs := by
  induction h with
  | nil => rfl
  | slash _ ih =>
    rw [List.splitOn_cons_eq_if_modifyHead, if_pos (beq_self_eq_true _)]
    simpa using ih
  | last hne hrun =>
    rw [List.splitOn_eq_singleton hrun]
    simpa using hne
  | run hne hrun _ ih =>
    rw [List.splitOn_append_cons_self_of_not_mem hrun, List.filter_cons_of_pos (by simpa using hne),
      ih]

/-- Every text has runs. -/
theorem runs_filter_splitOn (text : Bytes) :
    Runs text ((text.splitOn '/'.toUInt8).filter (· ≠ [])) := by
  -- a run and the slash behind it are taken off together, so the length goes down
  induction hlength : text.length using Nat.strongRecOn generalizing text with
  | ind n ih =>
    by_cases hmem : '/'.toUInt8 ∈ text
    · obtain ⟨run, rest, rfl, hrun⟩ := List.eq_append_cons_of_mem hmem
      have hlt : rest.length < n := by
        rw [← hlength, List.length_append, List.length_cons]
        omega
      have hrest := ih rest.length hlt rest rfl
      rw [List.splitOn_append_cons_self_of_not_mem hrun]
      by_cases hne : run = []
      · subst hne
        simpa using hrest.slash
      · rw [List.filter_cons_of_pos (by simpa using hne)]
        exact .run hne hrun hrest
    · rw [List.splitOn_eq_singleton hmem]
      by_cases hne : text = []
      · subst hne
        exact .nil
      · rw [List.filter_cons_of_pos (by simpa using hne)]
        exact .last hne hmem

theorem runs_iff {text : Bytes} {runs : List Bytes} :
    Runs text runs ↔ (text.splitOn slash).filter (· ≠ []) = runs := by
  refine ⟨Runs.filter_splitOn, fun h => ?_⟩
  rw [← h]
  exact runs_filter_splitOn text

/-! ## Paths -/

/-- A text without its lead, if it has one. The lead is taken off once. -/
inductive Unled : Bytes → Bytes → Prop where
  | led (rest : Bytes) : Unled (ascii "m/" ++ rest) rest
  | bare {text : Bytes} (h : ¬ ascii "m/" <+: text) : Unled text text

/-- The runs of the text without its lead spell the steps of the path, in order. -/
def Denotes (text : Bytes) (path : Path) : Prop :=
  ∃ rest runs, Unled text rest ∧ Runs rest runs ∧ List.Forall₂ Step.Spells runs path

theorem Denotes.index_lt {text : Bytes} {path : Path} (h : Denotes text path) :
    ∀ step ∈ path, step.index.toNat < 2 ^ 31 := by
  obtain ⟨_, _, -, -, hspells⟩ := h
  induction hspells with
  | nil => simp
  | cons hstep _ ih => exact List.forall_mem_cons.2 ⟨hstep.index_lt, ih⟩

theorem unled_iff {text rest : Bytes} : Unled text rest ↔ body text = rest := by
  have hbody : body text =
      if ascii "m/" <+: text then text.drop (ascii "m/").length else text := by
    unfold body lead
    simp only [List.isPrefixOf_iff_prefix]
  refine ⟨fun h => ?_, fun h => ?_⟩
  · rw [hbody]
    cases h with
    | led rest => rw [if_pos (List.prefix_append _ rest), List.drop_left]
    | bare h => rw [if_neg h]
  · rw [hbody] at h
    split at h
    · next hlead =>
      obtain ⟨tail, rfl⟩ := hlead
      rw [List.drop_left] at h
      rw [h]
      exact .led rest
    · next hlead =>
      rw [← h]
      exact .bare hlead

/-- The segments are the runs of the text without its lead. -/
theorem segments_eq_iff {text : Bytes} {runs : List Bytes} :
    segments text = runs ↔ ∃ rest, Unled text rest ∧ Runs rest runs := by
  refine ⟨fun h => ?_, fun h => ?_⟩
  · exact ⟨body text, unled_iff.2 rfl, runs_iff.2 h⟩
  · obtain ⟨rest, hrest, hruns⟩ := h
    rw [segments, unled_iff.1 hrest]
    exact runs_iff.1 hruns

theorem parse_eq_ok_iff_segments {text : Bytes} {path : Path} :
    parse text = .ok path ↔ List.Forall₂ Step.Spells (segments text) path := by
  unfold parse
  simp only [Fallible.mapM_eq_ok_iff, Step.parse_eq_ok_iff]

/-- **The reader accepts exactly the texts that denote a path.** -/
theorem parse_eq_ok_iff {text : Bytes} {path : Path} : parse text = .ok path ↔ Denotes text path := by
  rw [parse_eq_ok_iff_segments]
  refine ⟨fun h => ?_, fun h => ?_⟩
  · obtain ⟨rest, hrest, hruns⟩ := segments_eq_iff.1 (Eq.refl (segments text))
    exact ⟨rest, segments text, hrest, hruns, h⟩
  · obtain ⟨rest, runs, hrest, hruns, hspelled⟩ := h
    rwa [segments_eq_iff.2 ⟨rest, hrest, hruns⟩]

end KeyTree.Path
