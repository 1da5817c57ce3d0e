import KeyTree.Proofs.Derivation.Resume
import KeyTree.Proofs.Derivation.Stages

/-!
# What a derivation does not depend on

Two derivations along one path come to the same, in whatever lawful formats their keys are written,
as soon as the extended keys have the same key and the same chain code. Where an extended key says
that it stands in the tree is not looked at.

* **`Derivation.material_encode`**: a written extended key leads where its key and its chain code
  lead.
* **`Derivation.exists_wif_decode_eq`**: what is derived is written so that it can be read back.
* **`Derivation.outcome_across_formats`**: two extended keys in two formats.
-/

namespace KeyTree.Derivation

variable {format : TextFormat} {keyText pathText : Bytes} {last : Material}

/-- **A written extended key leads where its key and its chain code lead.** -/
theorem material_encode (hlawful : format.Lawful) (payload : FixedBytes 78) (pathText : Bytes) :
    material (some format) (format.encode payload.toList) pathText =
      (start payload).descend <$> Path.parse pathText :=
  material_of_readMaterial (readMaterial_encode hlawful payload)

/-- What is derived is written in the import format, and a lawful format reads that back. -/
theorem exists_wif_decode_eq (hlawful : format.Lawful)
    (h : material (some format) keyText pathText = .ok last) :
    ∃ text, wif (some format) keyText pathText = .ok text ∧
      format.decode text = .ok (Wif.payload last.key) :=
  ⟨_, wif_eq_ok_iff.2 ⟨last, h, rfl⟩, hlawful (Wif.payload last.key)⟩

/-- **Two extended keys in two formats** come to the same along every path if they have the same key
and the same chain code, whatever their other bytes are: to the same material, whose key is written
as the same bytes in either format, or to the same failure. The format in general use and
hexadecimal text are two such formats. -/
theorem outcome_across_formats :
    TextFormat.base58Check.Lawful ∧ TextFormat.hex.Lawful ∧
      ∀ f g : TextFormat, f.Lawful → g.Lawful →
        ∀ (p q : FixedBytes 78) (pathText : Bytes),
          p.slice 13 32 (by decide) = q.slice 13 32 (by decide) →
          p.slice 46 32 (by decide) = q.slice 46 32 (by decide) →
          material (some f) (f.encode p.toList) pathText =
              material (some g) (g.encode q.toList) pathText ∧
            (∀ failure, wif (some f) (f.encode p.toList) pathText = .error failure ↔
              wif (some g) (g.encode q.toList) pathText = .error failure) ∧
            ∀ last, material (some f) (f.encode p.toList) pathText = .ok last →
              ∃ s t payload, wif (some f) (f.encode p.toList) pathText = .ok s ∧
                wif (some g) (g.encode q.toList) pathText = .ok t ∧ payload.length = 34 ∧
                f.decode s = .ok payload ∧ g.decode t = .ok payload := by
  refine ⟨TextFormat.lawful_base58Check, TextFormat.lawful_hex, ?_⟩
  intro f g hf hg p q pathText hchainCode hkey
  have hstart : start p = start q := Material.ext hkey hchainCode
  have hsame : material (some f) (f.encode p.toList) pathText =
      material (some g) (g.encode q.toList) pathText := by
    rw [material_encode hf, material_encode hg, hstart]
  refine ⟨hsame, fun failure => ?_, fun last hlast => ?_⟩
  · rw [wif_eq_error_iff, wif_eq_error_iff, hsame]
  · obtain ⟨s, hs, hreads⟩ := exists_wif_decode_eq hf hlast
    obtain ⟨t, ht, hreadt⟩ := exists_wif_decode_eq hg (hsame ▸ hlast)
    exact ⟨s, t, Wif.payload last.key, hs, ht, Wif.length_payload last.key, hreads, hreadt⟩

/-- A key of zeros in two places of the tree, once in the format in general use and once in
hexadecimal text. -/
theorem outcome_across_formats_of_zeros :
    ∃ p q : FixedBytes 78, p.toList = List.replicate 78 0 ∧
      q.toList = List.replicate 13 0xff ++ List.replicate 32 0 ++ 0xff :: List.replicate 32 0 ∧
      p.slice 13 32 (by decide) = q.slice 13 32 (by decide) ∧
      p.slice 46 32 (by decide) = q.slice 46 32 (by decide) ∧
      (wif standard (TextFormat.base58Check.encode p.toList) (ascii "1hh") =
          .error (.badSegment (ascii "1hh")) ∧
        wif (some .hex) (TextFormat.hex.encode q.toList) (ascii "1hh") =
          .error (.badSegment (ascii "1hh"))) ∧
      ∃ s t payload, wif standard (TextFormat.base58Check.encode p.toList) (ascii "m/0h/1") = .ok s ∧
        wif (some .hex) (TextFormat.hex.encode q.toList) (ascii "m/0h/1") = .ok t ∧
        payload.length = 34 ∧ TextFormat.base58Check.decode s = .ok payload ∧
        TextFormat.hex.decode t = .ok payload := by
  have hbad : Path.parse (ascii "1hh") = .error (.badSegment (ascii "1hh")) := by decide
  have hgood : Path.parse (ascii "m/0h/1") =
      .ok [{ index := 0, hardened := true }, { index := 1, hardened := false }] := by decide
  let p : FixedBytes 78 := ⟨List.replicate 78 0, rfl⟩
  let q : FixedBytes 78 :=
    ⟨List.replicate 13 0xff ++ List.replicate 32 0 ++ 0xff :: List.replicate 32 0, rfl⟩
  have hchainCode : p.slice 13 32 (by decide) = q.slice 13 32 (by decide) := rfl
  have hkey : p.slice 46 32 (by decide) = q.slice 46 32 (by decide) := rfl
  have hlawful := TextFormat.lawful_base58Check
  have hsame (pathText : Bytes) := outcome_across_formats.2.2 _ _ hlawful TextFormat.lawful_hex p q
    pathText hchainCode hkey
  refine ⟨p, q, rfl, rfl, hchainCode, hkey, ?refused, ?derived⟩
  case refused =>
    have hfails : material standard (TextFormat.base58Check.encode p.toList) (ascii "1hh") =
        .error (.badSegment (ascii "1hh")) :=
      (material_encode hlawful p _).trans (congrArg _ hbad)
    have hwif := wif_eq_error_iff.2 hfails
    exact ⟨hwif, ((hsame _).2.1 _).1 hwif⟩
  case derived =>
    have hderives : material standard (TextFormat.base58Check.encode p.toList) (ascii "m/0h/1") =
        .ok ((start p).descend _) := (material_encode hlawful p _).trans (congrArg _ hgood)
    exact (hsame _).2.2 _ hderives

end KeyTree.Derivation
