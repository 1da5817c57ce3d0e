import KeyTree.Proofs.Base58.Refusal
import KeyTree.Proofs.Derivation
import KeyTree.Proofs.Path.Refusal

/-!
# Which stage a derivation fails in

The first stage that fails decides the failure: there is no format, the key's text does not decode,
its payload has the wrong size, the path is refused. Writing the derived key comes last and has
nothing left to fail for. No law is asked of the format here.

* **`Derivation.FailsWith`**: key material and imported key are refused alike.
* **`Derivation.material_eq_error_iff`**: a derivation fails for its key or, if that can be read, for
  its path.
* **`Derivation.wif_eq_error_iff`**: the import format adds no failure of its own.
* **`Derivation.outcome_by_stage`**: the stages in order, and what the category of a failure says
  about them in the format in general use.
-/

namespace KeyTree

theorem ExtendedKey.ofBytes_eq_error_iff {bytes : Bytes} {failure : Failure} :
    ofBytes bytes = .error failure ↔ bytes.length ≠ size ∧ failure = .keySize bytes.length := by
  unfold ofBytes FixedBytes.ofList?
  by_cases hsize : bytes.length = size
  · simp [hsize]
  · simp [hsize, eq_comm]

namespace Derivation

variable {format? : Option TextFormat} {format : TextFormat} {keyText pathText : Bytes}
  {failure : Failure}

/-! ## Reading the key -/

theorem readMaterial_eq_error_iff :
    readMaterial (some format) keyText = .error failure ↔
      format.decode keyText = .error failure ∨
        ∃ payload, format.decode keyText = .ok payload ∧ payload.length ≠ ExtendedKey.size ∧
          failure = .keySize payload.length := by
  rw [readMaterial, Fallible.map_eq_error_iff, readKey_some, Fallible.bind_eq_error_iff]
  simp only [ExtendedKey.ofBytes_eq_error_iff]

theorem exists_readMaterial_eq_ok_iff :
    (∃ start, readMaterial (some format) keyText = .ok start) ↔
      ∃ payload, format.decode keyText = .ok payload ∧ payload.length = ExtendedKey.size := by
  simp only [readMaterial_eq_ok_iff]
  refine ⟨fun h => ?_, fun h => ?_⟩
  · obtain ⟨_, payload, hdecode, -⟩ := h
    exact ⟨payload.toList, hdecode, payload.length_toList⟩
  · obtain ⟨payload, hdecode, hsize⟩ := h
    exact ⟨_, ⟨payload, hsize⟩, hdecode, rfl⟩

/-! ## The whole -/

/-- **A derivation fails for its key or, if that can be read, for its path.** -/
theorem material_eq_error_iff :
    material format? keyText pathText = .error failure ↔
      readMaterial format? keyText = .error failure ∨
        (∃ start, readMaterial format? keyText = .ok start) ∧ Path.parse pathText = .error failure := by
  unfold material
  rw [Fallible.bind_eq_error_iff, ← exists_and_right]
  simp only [Fallible.bind_eq_error_iff, reduceCtorEq, and_false, exists_false, or_false, pure,
    Except.pure]

/-- Whoever gets as far as writing the derived key has a format to write it in. -/
theorem exists_writeKey_of_material {derived : Material}
    (h : material format? keyText pathText = .ok derived) :
    ∃ text, writeKey format? derived.key = .ok text := by
  cases format? with
  | none => cases h
  | some format => exact ⟨_, writeKey_some format derived.key⟩

/-- **The import format adds no failure of its own.** -/
theorem wif_eq_error_iff :
    wif format? keyText pathText = .error failure ↔
      material format? keyText pathText = .error failure := by
  unfold wif
  rw [Fallible.bind_eq_error_iff]
  refine or_iff_left fun h => ?_
  obtain ⟨derived, hmaterial, hwrite⟩ := h
  obtain ⟨text, htext⟩ := exists_writeKey_of_material hmaterial
  rw [htext] at hwrite
  cases hwrite

/-- Key material and imported key are refused alike. -/
def FailsWith (format? : Option TextFormat) (keyText pathText : Bytes) (failure : Failure) : Prop :=
  material format? keyText pathText = .error failure ∧
    wif format? keyText pathText = .error failure

theorem failsWith_iff :
    FailsWith format? keyText pathText failure ↔
      readMaterial format? keyText = .error failure ∨
        (∃ start, readMaterial format? keyText = .ok start) ∧ Path.parse pathText = .error failure := by
  unfold FailsWith
  rw [wif_eq_error_iff, and_self, material_eq_error_iff]

/-! ## Categories in the format in general use -/

theorem category_isDecode_of_readMaterial (h : readMaterial standard keyText = .error failure) :
    failure.category.isDecode = true := by
  rcases readMaterial_eq_error_iff.1 h with hdecode | ⟨payload, -, -, rfl⟩
  · exact Base58.Check.category_isDecode_of_decode hdecode
  · rfl

/-- A key that can be read leaves nothing but the path to fail for. -/
theorem category_of_standard (h : material standard keyText pathText = .error failure) :
    failure.category.isDecode = true ∧ failure.category.isPath = false ∧
        (¬ ∃ start, readMaterial standard keyText = .ok start) ∨
      failure.category.isDecode = false ∧ failure.category.isPath = true ∧
        (∃ start, readMaterial standard keyText = .ok start) ∧ Path.parse pathText = .error failure := by
  have hexclusive := failure.category.not_isDecode_and_isPath
  rcases material_eq_error_iff.1 h with hkey | ⟨hkey, hpath⟩
  · have hdecode := category_isDecode_of_readMaterial hkey
    refine Or.inl ⟨hdecode, ?_, ?_⟩
    · simpa [hdecode] using hexclusive
    · rintro ⟨start, hstart⟩
      rw [hkey] at hstart
      cases hstart
  · have hisPath := Path.category_isPath_of_parse hpath
    refine Or.inr ⟨?_, hisPath, hkey, hpath⟩
    simpa [hisPath] using hexclusive

/-- **The first stage that fails decides.** Without a format nothing else is looked at; then the key's
text is decoded, its payload measured, and the path read. What is left succeeds: the derived key is
written in the format in which the key was read. In the format in general use a failure is about the
key exactly if the key's text does not decode to 78 bytes, and about the path exactly if it does and
the path is refused. -/
theorem outcome_by_stage (keyText pathText : Bytes) :
    (FailsWith none keyText pathText .missingFormat ∧
        Failure.missingFormat.category = .missingFormat) ∧
      (∀ (format : TextFormat) (failure : Failure), format.decode keyText = .error failure →
        FailsWith (some format) keyText pathText failure) ∧
      (∀ (format : TextFormat) (payload : Bytes), format.decode keyText = .ok payload →
        payload.length ≠ 78 →
        FailsWith (some format) keyText pathText (.keySize payload.length) ∧
          (Failure.keySize payload.length).category = .keySize) ∧
      (∀ (format : TextFormat) (payload : Bytes) (failure : Failure),
        format.decode keyText = .ok payload → payload.length = 78 →
        Path.parse pathText = .error failure → FailsWith (some format) keyText pathText failure) ∧
      (∀ (format : TextFormat) (payload : Bytes) (path : Path),
        format.decode keyText = .ok payload → payload.length = 78 → Path.parse pathText = .ok path →
        ∃ last, material (some format) keyText pathText = .ok last ∧
          wif (some format) keyText pathText =
            .ok (format.encode (0xef :: (last.key.toList ++ [0x01])))) ∧
      (∀ (format? : Option TextFormat) (last : Material),
        material format? keyText pathText = .ok last → ∃ text, writeKey format? last.key = .ok text) ∧
      ∀ failure, material standard keyText pathText = .error failure ∨
          wif standard keyText pathText = .error failure →
        (failure.category.isDecode = true ↔
          ¬ ∃ payload, TextFormat.base58Check.decode keyText = .ok payload ∧ payload.length = 78) ∧
        (failure.category.isPath = true ↔
          (∃ payload, TextFormat.base58Check.decode keyText = .ok payload ∧ payload.length = 78) ∧
            ∃ refusal, Path.parse pathText = .error refusal) ∧
        ¬ (failure.category.isDecode = true ∧ failure.category.isPath = true) := by
  refine ⟨⟨⟨rfl, rfl⟩, rfl⟩, ?undecoded, ?wrongSize, ?badPath, ?derived, ?written, ?categories⟩
  case undecoded =>
    intro format failure hdecode
    exact failsWith_iff.2 (Or.inl (readMaterial_eq_error_iff.2 (Or.inl hdecode)))
  case wrongSize =>
    intro format payload hdecode hsize
    have hkey := readMaterial_eq_error_iff.2 (Or.inr ⟨payload, hdecode, hsize, rfl⟩)
    exact ⟨failsWith_iff.2 (Or.inl hkey), rfl⟩
  case badPath =>
    intro format payload failure hdecode hsize hpath
    have hkey := exists_readMaterial_eq_ok_iff.2 ⟨payload, hdecode, hsize⟩
    exact failsWith_iff.2 (Or.inr ⟨hkey, hpath⟩)
  case derived =>
    intro format payload path hdecode hsize hpath
    have hmaterial := material_eq_ok_iff.2
      ⟨⟨payload, hsize⟩, hdecode, path, Path.parse_eq_ok_iff.1 hpath, rfl⟩
    exact ⟨_, hmaterial, wif_eq_ok_iff.2 ⟨_, hmaterial, rfl⟩⟩
  case written =>
    intro format? last hmaterial
    exact exists_writeKey_of_material hmaterial
  case categories =>
    intro failure h
    rw [wif_eq_error_iff, or_self] at h
    have hread : (∃ start, readMaterial standard keyText = .ok start) ↔
        ∃ payload, TextFormat.base58Check.decode keyText = .ok payload ∧ payload.length = 78 :=
      exists_readMaterial_eq_ok_iff
    rw [← hread]
    rcases category_of_standard h with ⟨hdecode, hpath, hkey⟩ | ⟨hdecode, hpath, hkey, hrefused⟩
    · simp [hdecode, hpath, hkey]
    · simp [hdecode, hpath, hkey, hrefused]

/-- One text in three formats fails in three stages, and with a better path in none. -/
theorem outcome_by_stage_of_zeros :
    FailsWith (some .base58) (TextFormat.hex.encode (List.replicate 78 0)) (ascii "1hh")
        (.badSymbol Decimal.zero) ∧
      FailsWith (some ⟨id, .ok⟩) (TextFormat.hex.encode (List.replicate 78 0)) (ascii "1hh")
        (.keySize 156) ∧
      FailsWith (some .hex) (TextFormat.hex.encode (List.replicate 78 0)) (ascii "1hh")
        (.badSegment (ascii "1hh")) ∧
      ∃ last,
        material (some .hex) (TextFormat.hex.encode (List.replicate 78 0)) (ascii "m/0h") = .ok last ∧
          wif (some .hex) (TextFormat.hex.encode (List.replicate 78 0)) (ascii "m/0h") =
            .ok (TextFormat.hex.encode (0xef :: (last.key.toList ++ [0x01]))) := by
  have hread := TextFormat.lawful_hex (List.replicate 78 0)
  have hsize : (List.replicate 78 (0 : UInt8)).length = 78 := List.length_replicate
  have htext : (TextFormat.hex.encode (List.replicate 78 0)).length = 156 :=
    Hex.length_encode (List.replicate 78 0)
  obtain ⟨-, hundecoded, hwrongSize, hbadPath, -⟩ :=
    outcome_by_stage (TextFormat.hex.encode (List.replicate 78 0)) (ascii "1hh")
  obtain ⟨-, -, -, -, hderived, -⟩ :=
    outcome_by_stage (TextFormat.hex.encode (List.replicate 78 0)) (ascii "m/0h")
  refine ⟨hundecoded .base58 _ rfl, ?_, ?_, ?_⟩
  · have hlong := (hwrongSize ⟨id, .ok⟩ _ rfl (by omega)).1
    rwa [htext] at hlong
  · exact hbadPath .hex _ _ hread hsize (by decide)
  · exact hderived .hex _ [{ index := 0, hardened := true }] hread hsize (by decide)

end Derivation

end KeyTree
