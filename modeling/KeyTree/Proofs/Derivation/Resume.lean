import KeyTree.Proofs.Derivation
import KeyTree.Proofs.Path.Join
import KeyTree.Proofs.Path.Refusal

/-!
# Going on from a derived key

A path can be walked in two stages. What the first stage leads to is put into an extended key of its
own, and the rest of the path is walked from there: no more than the key and the chain code is carried
from step to step, so every extended key that has these two will do.

* **`TextFormat.lawful_base58Check`**: the format in general use reads back what it writes.
* **`Derivation.material_join`**: a path put behind another one goes on from where that one led.
* **`Derivation.exists_start_eq`**: whatever a path led to can be put into an extended key.
* **`Derivation.outcome_in_two_stages`**: two stages come to what one stage comes to, failures
  included.
-/

namespace KeyTree

theorem TextFormat.lawful_base58Check : base58Check.Lawful :=
  fun _ => Base58.Check.decode_eq_ok_iff.2 rfl

namespace Derivation

variable {format? : Option TextFormat} {format : TextFormat} {keyText pathText rest : Bytes}
  {first last : Material}

/-- Once the key is read, the path alone decides. -/
theorem material_of_readMaterial (h : readMaterial format? keyText = .ok first) :
    material format? keyText pathText = first.descend <$> Path.parse pathText := by
  unfold material
  rw [h]
  cases Path.parse pathText with
  | error failure => rfl
  | ok path => rfl

/-- An extended key in a lawful format is where a derivation can start. -/
theorem readMaterial_encode (hlawful : format.Lawful) (payload : FixedBytes 78) :
    readMaterial (some format) (format.encode payload.toList) = .ok (start payload) :=
  readMaterial_eq_ok_iff.2 ⟨payload, hlawful payload.toList, rfl⟩

/-- **A path put behind another one goes on from where that one led.** -/
theorem material_join (h : material format? keyText pathText = .ok last)
    (hrest : ¬ Path.lead <+: rest) :
    material format? keyText (pathText ++ Path.slash :: rest) = last.descend <$> Path.parse rest := by
  obtain ⟨first, hfirst, hreached⟩ := Fallible.bind_eq_ok_iff.1 h
  obtain ⟨path, hpath, hlast⟩ := Fallible.bind_eq_ok_iff.1 hreached
  have hroot : pathText ≠ ascii "m" := by
    rintro rfl
    rw [Path.parse_root] at hpath
    cases hpath
  rw [material_of_readMaterial hfirst, Path.parse_join hroot hrest, hpath, ← Except.ok.inj hlast]
  cases Path.parse rest with
  | error failure => rfl
  | ok more => exact congrArg Except.ok (first.descend_append path more)

/-- Every material is what some extended key holds. -/
theorem exists_start_eq (material : Material) :
    ∃ payload : FixedBytes 78, start payload = material := by
  have hlength : (List.replicate 13 0 ++
      (material.chainCode.toList ++ 0 :: material.key.toList)).length = 78 := by simp
  refine ⟨⟨_, hlength⟩, Material.ext (FixedBytes.ext ?key) (FixedBytes.ext ?chainCode)⟩
  case key =>
    have hpast : material.chainCode.toList.drop 33 = [] := by simp
    simp [start, List.drop_append, hpast]
  case chainCode => simp [start, List.drop_append]

/-- **Two stages come to what one stage comes to**, in the format in general use as in every lawful
one. The second stage may start from any extended key that holds what the first one led to, and if it
fails, it fails as the whole path would have. -/
theorem outcome_in_two_stages :
    TextFormat.base58Check.Lawful ∧
      ∀ format : TextFormat, format.Lawful →
        ∀ (keyText pathText rest : Bytes) (last : Material) (payload : FixedBytes 78),
          ¬ Path.lead <+: rest →
          material (some format) keyText pathText = .ok last →
          payload.slice 13 32 (by decide) = last.chainCode →
          payload.slice 46 32 (by decide) = last.key →
          material (some format) (format.encode payload.toList) rest =
              material (some format) keyText (pathText ++ Path.slash :: rest) ∧
            wif (some format) (format.encode payload.toList) rest =
              wif (some format) keyText (pathText ++ Path.slash :: rest) := by
  refine ⟨TextFormat.lawful_base58Check, ?_⟩
  intro format hlawful keyText pathText rest last payload hrest hmaterial hchainCode hkey
  have hstart : start payload = last := Material.ext hkey hchainCode
  have hstages : material (some format) (format.encode payload.toList) rest =
      material (some format) keyText (pathText ++ Path.slash :: rest) := by
    rw [material_of_readMaterial (readMaterial_encode hlawful payload), hstart,
      material_join hmaterial hrest]
  refine ⟨hstages, ?_⟩
  unfold wif
  rw [hstages]

/-- The first stage takes a hardened step down from a key of zeros; the second begins with a slash and
passes over an empty segment. -/
theorem outcome_in_two_stages_of_zeros :
    ∃ (last : Material) (payload : FixedBytes 78),
      ¬ Path.lead <+: ascii "/1'//7" ∧
        material standard (TextFormat.base58Check.encode (List.replicate 78 0)) (ascii "m/0h") =
          .ok last ∧
        payload.slice 13 32 (by decide) = last.chainCode ∧
        payload.slice 46 32 (by decide) = last.key ∧
        material standard (TextFormat.base58Check.encode payload.toList) (ascii "/1'//7") =
          material standard (TextFormat.base58Check.encode (List.replicate 78 0))
            (ascii "m/0h" ++ Path.slash :: ascii "/1'//7") ∧
        wif standard (TextFormat.base58Check.encode payload.toList) (ascii "/1'//7") =
          wif standard (TextFormat.base58Check.encode (List.replicate 78 0))
            (ascii "m/0h" ++ Path.slash :: ascii "/1'//7") := by
  have hrest : ¬ Path.lead <+: ascii "/1'//7" := by decide
  have hpath : Path.parse (ascii "m/0h") = .ok [{ index := 0, hardened := true }] := by decide
  have hread := TextFormat.lawful_base58Check (List.replicate 78 0)
  have hmaterial := material_eq_ok_iff.2 ⟨⟨List.replicate 78 0, List.length_replicate⟩, hread, _,
    Path.parse_eq_ok_iff.1 hpath, rfl⟩
  obtain ⟨payload, hpayload⟩ := exists_start_eq _
  have hkey := congrArg Material.key hpayload
  have hchainCode := congrArg Material.chainCode hpayload
  refine ⟨_, payload, hrest, hmaterial, hchainCode, hkey, ?_⟩
  exact outcome_in_two_stages.2 _ TextFormat.lawful_base58Check _ _ _ _ payload hrest hmaterial
    hchainCode hkey

end Derivation

end KeyTree
