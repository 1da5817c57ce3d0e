import KeyTree.Material
import KeyTree.Proofs.Digest
import KeyTree.Proofs.Path.Step

/-!
# Descent by keyed digests

`Material.descend` against the rule for one generation: key and chain code of a child, one behind the
other, are the keyed digest of a zero byte, the parent's key and the child's number. The digest is
the one of the standard, and the number is written out byte by byte.

* **`Material.IsChild`**: the rule, with the number spelled out as index and mark.
* **`Material.isChild_iff`**: in range, `Material.child` follows it.
* **`Material.Reaches`**: a path followed by that rule, one step after the other.
* **`Material.reaches_iff`**: a path in range leads to one place, and `Material.descend` goes there.
-/

namespace KeyTree

/-- A byte string cut in two is put together again from nothing but its two parts. -/
theorem FixedBytes.append_eq_iff {m n : Nat} {x : FixedBytes m} {y : FixedBytes n}
    {z : FixedBytes (m + n)} :
    x.toList ++ y.toList = z.toList ↔
      x = z.slice 0 m (by omega) ∧ y = z.slice m n (by omega) := by
  have hx : x.toList.length = m := x.length_toList
  have hy : y.toList.length = n := y.length_toList
  rw [FixedBytes.ext_iff, FixedBytes.ext_iff, toList_slice, toList_slice, List.drop_zero]
  refine ⟨fun h => ?_, fun h => ?_⟩
  · rw [← h, List.take_left' hx, List.drop_left' hx, List.take_of_length_le (Nat.le_of_eq hy)]
    exact ⟨rfl, rfl⟩
  · obtain ⟨hfirst, hsecond⟩ := h
    have hrest : (z.toList.drop m).take n = z.toList.drop m := by
      rw [List.take_of_length_le]
      simp
    rw [hfirst, hsecond, hrest, List.take_append_drop]

namespace Material

/-- The rule for one generation, by the standard. Hardened children are numbered from `2 ^ 31` on,
and the first byte of a number weighs most. -/
def IsChild (parent : Material) (step : Step) (child : Material) : Prop :=
  let number := step.index.toNat + if step.hardened then 2 ^ 31 else 0
  child.key.toList ++ child.chainCode.toList =
    Sha2.Standard.sha512.hmac parent.chainCode.toList
      (0x00 :: (parent.key.toList ++
        [256 ^ 3, 256 ^ 2, 256, 1].map fun weight => UInt8.ofNat (number / weight)))

/-- The rule applied step by step, first step first. -/
inductive Reaches : Material → Path → Material → Prop where
  | here (material : Material) : Reaches material [] material
  | down {parent child last : Material} {step : Step} {path : Path}
      (hchild : IsChild parent step child) (hrest : Reaches child path last) :
      Reaches parent (step :: path) last

theorem isChild_iff {parent child : Material} {step : Step} (h : step.index.toNat < 2 ^ 31) :
    IsChild parent step child ↔ parent.child step.childNumber = child := by
  unfold IsChild
  rw [← Step.toNat_childNumber h]
  show child.key.toList ++ child.chainCode.toList =
    Sha2.Standard.sha512.hmac parent.chainCode.toList
      (0x00 :: (parent.key.toList ++ [256 ^ 3, 256 ^ 2, 256, 1].map fun weight =>
        UInt8.ofNat (step.childNumber.toNat / weight))) ↔ _
  rw [← bigEndian_four, ← Hmac.toList_sha512]
  show child.key.toList ++ child.chainCode.toList =
    (Hmac.sha512 parent.chainCode.toList (parent.childMessage step.childNumber)).toList ↔ _
  rw [FixedBytes.append_eq_iff (m := 32) (n := 32), eq_comm, @eq_comm _ child.chainCode,
    Material.ext_iff]
  rfl

/-- **A path in range leads to one place.** -/
theorem reaches_iff {path : Path} (h : ∀ step ∈ path, step.index.toNat < 2 ^ 31)
    {material last : Material} : Reaches material path last ↔ material.descend path = last := by
  -- the first step of the path is the first one taken
  induction path generalizing material with
  | nil =>
    rw [descend_nil]
    refine ⟨fun hreaches => ?_, fun hlast => ?_⟩
    · cases hreaches with
      | here => rfl
    · rw [← hlast]
      exact .here material
  | cons step path ih =>
    obtain ⟨hstep, hpath⟩ := List.forall_mem_cons.1 h
    show _ ↔ (material.child step.childNumber).descend path = last
    refine ⟨fun hreaches => ?_, fun hlast => ?_⟩
    · cases hreaches with
      | down hchild hrest =>
        rw [(isChild_iff hstep).1 hchild]
        exact (ih hpath).1 hrest
    · exact .down ((isChild_iff hstep).2 rfl) ((ih hpath).2 hlast)

end Material

end KeyTree
