import KeyTree.Proofs.Derivation.Stages

/-!
# The first failure of a derivation

In the format in general use a derivation fails because the key's text does not decode, because it
decodes to some other number of bytes than an extended key has, or because the path is refused; what
comes first decides. The wording of a failure quotes from the two texts and from nowhere else, so it
has a zero byte only if one of them has.

* **`Derivation.FirstFailure`**: the failure of the first stage that fails, one constructor a stage.
* **`Derivation.firstFailure_iff`**: it is the failure of the derivation.
* **`Derivation.FirstFailure.stage_cases`**: its category is about the path exactly if the key can be
  read.
* **`Derivation.FirstFailure.zero_not_mem_message`**: where its wording can have a zero byte from.
-/

namespace KeyTree

/-! ## What a wording quotes -/

theorem Path.Runs.mem_of_mem {text : Bytes} {runs : List Bytes} (h : Runs text runs) {run : Bytes}
    (hrun : run ∈ runs) {c : UInt8} (hc : c ∈ run) : c ∈ text := by
  induction h with
  | nil => simp at hrun
  | slash _ ih => exact List.mem_cons_of_mem _ (ih hrun)
  | last _ _ => rwa [← List.mem_singleton.1 hrun]
  | run _ _ _ ih =>
    rcases List.mem_cons.1 hrun with rfl | hrun
    · exact List.mem_append_left _ hc
    · exact List.mem_append_right _ (List.mem_cons_of_mem _ (ih hrun))

theorem Path.mem_of_mem_segments {text run : Bytes} (hrun : run ∈ segments text) {c : UInt8}
    (hc : c ∈ run) : c ∈ text := by
  obtain ⟨rest, hrest, hruns⟩ := segments_eq_iff.1 (Eq.refl (segments text))
  have hmem := hruns.mem_of_mem hrun hc
  cases hrest with
  | led rest => exact List.mem_append_right _ hmem
  | bare _ => exact hmem

theorem Path.zero_not_mem_message {text : Bytes} {failure : Failure}
    (h : parse text = .error failure) (htext : 0 ∉ text) : 0 ∉ failure.message := by
  obtain ⟨before, run, after, hsegments, -, hrefused⟩ := parse_eq_error_iff.1 h
  have hrun : run ∈ segments text := by simp [hsegments]
  exact hrefused.zero_not_mem_message fun hzero => htext (mem_of_mem_segments hrun hzero)

theorem Base58.Check.zero_not_mem_message {checksum : Bytes → FixedBytes checksumSize} {text : Bytes}
    {failure : Failure} (h : decode checksum text = .error failure) (htext : 0 ∉ text) :
    0 ∉ failure.message := by
  cases decode_eq_iff.1 h with
  | @foreign before after c _ _ =>
    have hfront : 0 ∉ ascii "Invalid base58 character '" := by decide
    have hquote : 0 ∉ ascii "'" := by decide
    have hc : 0 ≠ c := by
      rintro rfl
      exact htext (by simp)
    simp [Failure.message, hfront, hquote, hc]
  | short _ _ | tampered _ _ => decide

theorem Decimal.zero_not_mem_text (n : Nat) : 0 ∉ text n :=
  fun h => absurd (isDigit_of_mem_text h) (by decide)

namespace Derivation

/-! ## The first failure -/

/-- The key's text decodes to as many bytes as an extended key has. -/
def Readable (keyText : Bytes) : Prop :=
  ∃ payload, TextFormat.base58Check.decode keyText = .ok payload ∧ payload.length = 78

/-- The failure of the first stage that fails. -/
inductive FirstFailure (keyText pathText : Bytes) : Failure → Prop where
  | undecoded {failure : Failure}
      (hdecode : TextFormat.base58Check.decode keyText = .error failure) :
      FirstFailure keyText pathText failure
  | wrongSize {payload : Bytes} (hdecode : TextFormat.base58Check.decode keyText = .ok payload)
      (hsize : payload.length ≠ 78) : FirstFailure keyText pathText (.keySize payload.length)
  | badPath {failure : Failure} (hkey : Readable keyText)
      (hpath : Path.parse pathText = .error failure) : FirstFailure keyText pathText failure

variable {keyText pathText text : Bytes} {failure : Failure}

/-- **The first failure is the failure of the derivation.** -/
theorem firstFailure_iff :
    FirstFailure keyText pathText failure ↔ wif standard keyText pathText = .error failure := by
  rw [wif_eq_error_iff, material_eq_error_iff, standard, readMaterial_eq_error_iff,
    exists_readMaterial_eq_ok_iff]
  refine ⟨fun h => ?_, fun h => ?_⟩
  · cases h with
    | undecoded hdecode => exact Or.inl (Or.inl hdecode)
    | wrongSize hdecode hsize => exact Or.inl (Or.inr ⟨_, hdecode, hsize, rfl⟩)
    | badPath hkey hpath => exact Or.inr ⟨hkey, hpath⟩
  · rcases h with (hdecode | ⟨payload, hdecode, hsize, rfl⟩) | ⟨hkey, hpath⟩
    · exact .undecoded hdecode
    · exact .wrongSize hdecode hsize
    · exact .badPath hkey hpath

namespace FirstFailure

/-- A key that cannot be read is refused for some reason, whatever the path is. -/
theorem exists_of_not_readable (h : ¬ Readable keyText) (pathText : Bytes) :
    ∃ failure, FirstFailure keyText pathText failure := by
  cases hdecode : TextFormat.base58Check.decode keyText with
  | error failure => exact ⟨failure, .undecoded hdecode⟩
  | ok payload => exact ⟨_, .wrongSize hdecode fun hsize => h ⟨payload, hdecode, hsize⟩⟩

theorem unique {other : Failure} (h : FirstFailure keyText pathText failure)
    (hother : FirstFailure keyText pathText other) : failure = other := by
  have hwif := firstFailure_iff.1 h
  rw [firstFailure_iff.1 hother] at hwif
  exact (Except.error.inj hwif).symm

theorem wif_ne_ok (h : FirstFailure keyText pathText failure) :
    wif standard keyText pathText ≠ .ok text := by
  rw [firstFailure_iff.1 h]
  simp

/-- **The category is about the path exactly if the key can be read**, and then the path is what is
refused. -/
theorem stage_cases (h : FirstFailure keyText pathText failure) :
    failure.category.isPath = true ∧ Readable keyText ∧ Path.parse pathText = .error failure ∨
      failure.category.isPath = false ∧ ¬ Readable keyText := by
  have hmaterial := wif_eq_error_iff.1 (firstFailure_iff.1 h)
  rcases category_of_standard hmaterial with ⟨-, hpath, hkey⟩ | ⟨-, hpath, hkey, hparse⟩
  · exact Or.inr ⟨hpath, fun hreadable => hkey (exists_readMaterial_eq_ok_iff.2 hreadable)⟩
  · exact Or.inl ⟨hpath, exists_readMaterial_eq_ok_iff.1 hkey, hparse⟩

/-- **A zero byte in the wording is quoted from one of the texts.** -/
theorem zero_not_mem_message (h : FirstFailure keyText pathText failure) (hkey : 0 ∉ keyText)
    (hpath : 0 ∉ pathText) : 0 ∉ failure.message := by
  cases h with
  | undecoded hdecode => exact Base58.Check.zero_not_mem_message hdecode hkey
  | wrongSize _ _ =>
    have hfront : 0 ∉ ascii "Extended key must be 78 bytes, got " := by decide
    simp [Failure.message, hfront, Decimal.zero_not_mem_text]
  | badPath _ hparse => exact Path.zero_not_mem_message hparse hpath

end FirstFailure

end Derivation

end KeyTree
