import KeyTree.Proofs.Path.Refusal

/-!
# Paths put one behind the other

Two texts with a slash between them are read as one path and then the other. A lead is looked for at
the front of the whole, so there are two exceptions: a first text that becomes a lead by the slash
behind it, which is `m` alone, and a second text with a lead of its own.

* **`Path.Runs.join`**, **`Path.Unled.join`**: runs and lead of the joined text.
* **`Path.segments_join`**: the segments of the one, then those of the other.
* **`Path.parse_join`**: the steps of the one, then those of the other, or the failure of the first
  that has one.
* **`Path.parse_join_led`**: the second exception is one: a lead in the middle is refused.
* **`Path.outcome_of_joined_texts`**: what a joined text is read as, by what its parts are read as.
-/

namespace KeyTree.Path

/-! ## The written form -/

/-- A slash between two texts ends the last run of the first. -/
theorem Runs.join {text more : Bytes} {runs runs' : List Bytes} (h : Runs text runs)
    (hmore : Runs more runs') : Runs (text ++ Path.slash :: more) (runs ++ runs') := by
  induction h with
  | nil => exact .slash hmore
  | slash _ ih => exact .slash ih
  | last hne hrun => exact .run hne hrun hmore
  | run hne hrun _ ih =>
    rw [List.append_assoc, List.cons_append]
    exact .run hne hrun ih

theorem not_lead_prefix_join {text : Bytes} (h : ¬ lead <+: text) (hroot : text ≠ ascii "m")
    (more : Bytes) : ¬ lead <+: text ++ slash :: more := by
  have hlead : lead = [0x6d, slash] := by decide
  have hm : text ≠ [0x6d] := hroot
  rw [hlead] at h ⊢
  -- the slash in the middle could only take part in a lead right behind the root
  match text with
  | [] =>
    have hne : (0x6d : UInt8) ≠ slash := by decide
    exact fun hprefix => hne (List.cons_prefix_cons.1 hprefix).1
  | [c] => simpa [List.cons_prefix_cons, eq_comm] using hm
  | c :: d :: tail => simpa [List.cons_prefix_cons] using h

theorem Unled.join {text rest : Bytes} (h : Unled text rest) (hroot : text ≠ ascii "m")
    (more : Bytes) : Unled (text ++ slash :: more) (rest ++ slash :: more) := by
  cases h with
  | led rest =>
    rw [List.append_assoc]
    exact .led _
  | bare h => exact .bare (not_lead_prefix_join h hroot more)

/-! ## Reading -/

theorem segments_join {text more : Bytes} (hroot : text ≠ ascii "m") (hmore : ¬ lead <+: more) :
    segments (text ++ slash :: more) = segments text ++ segments more := by
  obtain ⟨rest, hrest, hruns⟩ := segments_eq_iff.1 (Eq.refl (segments text))
  obtain ⟨rest', hrest', hruns'⟩ := segments_eq_iff.1 (Eq.refl (segments more))
  cases hrest' with
  | led rest' => exact absurd (List.prefix_append lead rest') hmore
  | bare _ => exact segments_eq_iff.2 ⟨_, hrest.join hroot more, hruns.join hruns'⟩

/-- **A joined text is read part by part.** -/
theorem parse_join {text more : Bytes} (hroot : text ≠ ascii "m") (hmore : ¬ lead <+: more) :
    parse (text ++ slash :: more) = do
      let path ← parse text
      let rest ← parse more
      return path ++ rest := by
  unfold parse
  rw [segments_join hroot hmore, List.mapM_append]

/-- Behind a slash the lead is none: its root is a segment, and that is refused. -/
theorem parse_join_led {text : Bytes} {path : Path} (h : parse text = .ok path) (more : Bytes) :
    parse (text ++ slash :: (lead ++ more)) = .error (.badSegment (ascii "m")) := by
  have hroot : text ≠ ascii "m" := by
    rintro rfl
    rw [parse_root] at h
    cases h
  obtain ⟨rest, hrest, hruns⟩ := segments_eq_iff.1 (Eq.refl (segments text))
  have hmore : Runs (lead ++ more) (ascii "m" :: (more.splitOn slash).filter (· ≠ [])) := by
    have hne : ascii "m" ≠ [] := by decide
    have hrun : slash ∉ ascii "m" := by decide
    exact .run hne hrun (runs_filter_splitOn more)
  have hsegments := segments_eq_iff.2 ⟨_, hrest.join hroot (lead ++ more), hruns.join hmore⟩
  have hbad : Step.parse (ascii "m") = .error (.badSegment (ascii "m")) := by decide
  refine Fallible.mapM_eq_error_iff.2 ⟨segments text, _, _, hsegments, ?_, hbad⟩
  exact Fallible.exists_mapM_eq_ok_iff.1 ⟨path, h⟩

/-- **What a joined text is read as.** The steps of the first text come first, and the first text
that is refused decides the failure. -/
theorem outcome_of_joined_texts {text more : Bytes} (hroot : text ≠ ascii "m")
    (hmore : ¬ lead <+: more) :
    (∀ whole, parse (text ++ slash :: more) = .ok whole ↔
        ∃ path rest, parse text = .ok path ∧ parse more = .ok rest ∧ whole = path ++ rest) ∧
      ∀ failure, parse (text ++ slash :: more) = .error failure ↔
        parse text = .error failure ∨
          (∃ path, parse text = .ok path) ∧ parse more = .error failure := by
  rw [parse_join hroot hmore]
  refine ⟨fun whole => ?read, fun failure => ?refused⟩
  case read =>
    refine ⟨fun h => ?_, fun h => ?_⟩
    · obtain ⟨path, hpath, hbehind⟩ := Fallible.bind_eq_ok_iff.1 h
      obtain ⟨rest, hrest, hwhole⟩ := Fallible.bind_eq_ok_iff.1 hbehind
      exact ⟨path, rest, hpath, hrest, (Except.ok.inj hwhole).symm⟩
    · obtain ⟨path, rest, hpath, hrest, rfl⟩ := h
      rw [hpath, hrest]
      rfl
  case refused =>
    rw [Fallible.bind_eq_error_iff, ← exists_and_right]
    simp only [Fallible.bind_eq_error_iff, reduceCtorEq, and_false, exists_false, or_false, pure,
      Except.pure]

/-- Slashes on both sides of the joint, and a mark in front of it; then a fault behind it, and faults
on both sides. -/
theorem outcome_of_joined_texts_with_empty_segments :
    (ascii "m/0h//" ≠ ascii "m" ∧ ¬ lead <+: ascii "/7'/" ∧
        parse (ascii "m/0h//" ++ slash :: ascii "/7'/") = .ok
          ([{ index := 0, hardened := true }] ++ [{ index := 7, hardened := true }])) ∧
      (¬ lead <+: ascii "1hh" ∧
        parse (ascii "m/0h//" ++ slash :: ascii "1hh") = .error (.badSegment (ascii "1hh"))) ∧
      ascii "m/h" ≠ ascii "m" ∧
        parse (ascii "m/h" ++ slash :: ascii "1hh") = .error (.badSegment (ascii "h")) := by
  have hroot : ascii "m/0h//" ≠ ascii "m" := by decide
  have hroot' : ascii "m/h" ≠ ascii "m" := by decide
  have hmore : ¬ lead <+: ascii "/7'/" := by decide
  have hmore' : ¬ lead <+: ascii "1hh" := by decide
  have hfirst : parse (ascii "m/0h//") = .ok [{ index := 0, hardened := true }] := by decide
  have hsecond : parse (ascii "/7'/") = .ok [{ index := 7, hardened := true }] := by decide
  have hbad : parse (ascii "1hh") = .error (.badSegment (ascii "1hh")) := by decide
  have hbad' : parse (ascii "m/h") = .error (.badSegment (ascii "h")) := by decide
  refine ⟨⟨hroot, hmore, ?_⟩, ⟨hmore', ?_⟩, hroot', ?_⟩
  · exact ((outcome_of_joined_texts hroot hmore).1 _).2 ⟨_, _, hfirst, hsecond, rfl⟩
  · exact ((outcome_of_joined_texts hroot hmore').2 _).2 (Or.inr ⟨⟨_, hfirst⟩, hbad⟩)
  · exact ((outcome_of_joined_texts hroot' hmore').2 _).2 (Or.inl hbad')

/-- The first exception is one: the root becomes a lead by the slash behind it. -/
example : parse (ascii "m") = .error (.badSegment (ascii "m")) ∧
    parse (ascii "m" ++ slash :: ascii "7") = .ok [{ index := 7, hardened := false }] := by decide

end KeyTree.Path
