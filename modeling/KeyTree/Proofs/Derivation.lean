import KeyTree.Derivation
import KeyTree.Proofs.Base58.Check
import KeyTree.Proofs.Descent
import KeyTree.Proofs.Path.Parse

/-!
# From texts to a derived key

The stages of `KeyTree.Derivation` opened one by one, and what the whole amounts to in the format in
general use.

* **`Derivation.material_eq_ok_iff`**, **`Derivation.wif_eq_ok_iff`**: how a derivation succeeds in
  any format.
* **`Derivation.standardText`**: a payload in base 58 with its checksum, by the standard.
* **`Derivation.standard_wif_outcome`**: in that format, the key's text has to be the text of 78
  bytes and the path's text has to denote a path. The key at the end is the one that the rule for a
  generation leads to, in the import format.
-/

namespace KeyTree

theorem ExtendedKey.ofBytes_eq_ok_iff {bytes : Bytes} {key : ExtendedKey} :
    ofBytes bytes = .ok key ↔ ∃ fixed : FixedBytes size, fixed.toList = bytes ∧ ofFixed fixed = key := by
  unfold ofBytes
  refine ⟨fun h => ?_, fun h => ?_⟩
  · cases hfixed : FixedBytes.ofList? size bytes with
    | none =>
      rw [hfixed] at h
      cases h
    | some fixed =>
      rw [hfixed] at h
      exact ⟨fixed, (FixedBytes.ofList?_eq_some_iff.1 hfixed).symm, Except.ok.inj h⟩
  · obtain ⟨fixed, hbytes, hkey⟩ := h
    rw [← hbytes, FixedBytes.ofList?_toList]
    exact congrArg Except.ok hkey

namespace Derivation

/-! ## Stages -/

section Stages

variable {format : TextFormat} {keyText pathText : Bytes}

theorem readMaterial_eq_ok_iff {start : Material} :
    readMaterial (some format) keyText = .ok start ↔
      ∃ payload : FixedBytes ExtendedKey.size, format.decode keyText = .ok payload.toList ∧
        (ExtendedKey.ofFixed payload).material = start := by
  rw [readMaterial, Fallible.map_eq_ok_iff, readKey_some]
  simp only [Fallible.bind_eq_ok_iff, ExtendedKey.ofBytes_eq_ok_iff]
  refine ⟨fun h => ?_, fun h => ?_⟩
  · obtain ⟨key, ⟨bytes, hdecode, payload, hbytes, hkey⟩, hstart⟩ := h
    rw [← hbytes] at hdecode
    rw [← hkey] at hstart
    exact ⟨payload, hdecode, hstart⟩
  · obtain ⟨payload, hdecode, hstart⟩ := h
    exact ⟨_, ⟨payload.toList, hdecode, payload, rfl, rfl⟩, hstart⟩

theorem material_eq_ok_iff {last : Material} :
    material (some format) keyText pathText = .ok last ↔
      ∃ payload : FixedBytes ExtendedKey.size, format.decode keyText = .ok payload.toList ∧
        ∃ path, Path.Denotes pathText path ∧
          (ExtendedKey.ofFixed payload).material.descend path = last := by
  unfold material
  simp only [Fallible.bind_eq_ok_iff, readMaterial_eq_ok_iff, Path.parse_eq_ok_iff]
  refine ⟨fun h => ?_, fun h => ?_⟩
  · obtain ⟨start, ⟨payload, hdecode, hstart⟩, path, hpath, hlast⟩ := h
    rw [← hstart] at hlast
    exact ⟨payload, hdecode, path, hpath, Except.ok.inj hlast⟩
  · obtain ⟨payload, hdecode, path, hpath, hlast⟩ := h
    exact ⟨_, ⟨payload, hdecode, rfl⟩, path, hpath, congrArg Except.ok hlast⟩

theorem wif_eq_ok_iff {text : Bytes} :
    wif (some format) keyText pathText = .ok text ↔
      ∃ last, material (some format) keyText pathText = .ok last ∧
        Wif.encode format last.key = text := by
  unfold wif
  simp only [Fallible.bind_eq_ok_iff, writeKey_some, Except.ok.injEq]

end Stages

/-! ## The format in general use -/

/-- Where derivation starts: the key and the chain code in the bytes of an extended key. -/
def start (payload : FixedBytes 78) : Material where
  key := payload.slice 46 32 (by decide)
  chainCode := payload.slice 13 32 (by decide)

/-- A payload in base 58, behind it the checksum that the standard gives it. -/
def standardText (payload : Bytes) : Bytes :=
  Base58.encode (payload ++ Sha2.Standard.checksum payload)

/-- The format in general use writes it. -/
theorem standardText_eq (payload : Bytes) :
    standardText payload = Base58.Check.encode Checksum.of payload := by
  rw [standardText, Base58.Check.encode, Base58.Check.stamp, Checksum.toList_of]

/-- A text is read as the payload that it is the text of, and as nothing else. -/
theorem decode_eq_ok_iff_standardText {keyText payload : Bytes} :
    TextFormat.base58Check.decode keyText = .ok payload ↔ keyText = standardText payload := by
  rw [standardText_eq]
  exact Base58.Check.decode_eq_ok_iff

theorem standard_wif_eq_ok_iff {keyText pathText text : Bytes} :
    wif standard keyText pathText = .ok text ↔
      ∃ payload : FixedBytes 78, keyText = standardText payload.toList ∧
        ∃ path last, Path.Denotes pathText path ∧ Material.Reaches (start payload) path last ∧
          text = standardText (0xef :: (last.key.toList ++ [0x01])) := by
  have hwif (key : FixedBytes 32) : Wif.encode .base58Check key =
      standardText (0xef :: (key.toList ++ [0x01])) := (standardText_eq _).symm
  unfold standard
  rw [wif_eq_ok_iff]
  simp only [material_eq_ok_iff, decode_eq_ok_iff_standardText, hwif]
  refine ⟨fun h => ?_, fun h => ?_⟩
  · obtain ⟨last, ⟨payload, hkey, path, hpath, hlast⟩, htext⟩ := h
    have hreaches := (Material.reaches_iff hpath.index_lt).2 hlast
    exact ⟨payload, hkey, path, last, hpath, hreaches, htext.symm⟩
  · obtain ⟨payload, hkey, path, last, hpath, hreaches, htext⟩ := h
    have hlast := (Material.reaches_iff hpath.index_lt).1 hreaches
    exact ⟨last, ⟨payload, hkey, path, hpath, hlast⟩, htext.symm⟩

/-- **A derivation from end to end.** It succeeds exactly if the key's text is the text of 78 bytes
and the path's text denotes a path. These bytes are the only ones with that text, and the result is
the text of the key that the rule of the standard leads to along the path. -/
theorem standard_wif_outcome (keyText pathText : Bytes) :
    ((∃ text, wif standard keyText pathText = .ok text) ↔
      (∃ payload : FixedBytes 78, keyText = standardText payload.toList) ∧
        ∃ path, Path.Denotes pathText path) ∧
    ∀ text, wif standard keyText pathText = .ok text →
      ∃ payload : FixedBytes 78, keyText = standardText payload.toList ∧
        (∀ other, keyText = standardText other → other = payload.toList) ∧
        ∃ path last, Path.Denotes pathText path ∧ Material.Reaches (start payload) path last ∧
          text = standardText (0xef :: (last.key.toList ++ [0x01])) := by
  refine ⟨⟨fun h => ?_, fun h => ?_⟩, ?_⟩
  · obtain ⟨text, htext⟩ := h
    obtain ⟨payload, hkey, path, -, hpath, -⟩ := standard_wif_eq_ok_iff.1 htext
    exact ⟨⟨payload, hkey⟩, ⟨path, hpath⟩⟩
  · obtain ⟨⟨payload, hkey⟩, ⟨path, hpath⟩⟩ := h
    -- a path in range always leads somewhere
    have hreaches : Material.Reaches (start payload) path ((start payload).descend path) :=
      (Material.reaches_iff hpath.index_lt).2 rfl
    exact ⟨_, standard_wif_eq_ok_iff.2 ⟨payload, hkey, path, _, hpath, hreaches, rfl⟩⟩
  · intro text h
    obtain ⟨payload, hkey, hrest⟩ := standard_wif_eq_ok_iff.1 h
    refine ⟨payload, hkey, ?_, hrest⟩
    -- one text is the text of one payload, because it is read back as one
    intro other hother
    have hread := decode_eq_ok_iff_standardText.2 hkey
    rw [decode_eq_ok_iff_standardText.2 hother] at hread
    exact Except.ok.inj hread

end Derivation

end KeyTree
