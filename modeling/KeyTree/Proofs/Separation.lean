import KeyTree.Proofs.Descent
import KeyTree.Proofs.Numeral
import KeyTree.Proofs.Path.Index

/-!
# Steps that cannot be mistaken for each other

A child is the keyed digest of a message, and the message says which key and which step it was made
from. The index and the mark of a step share four bytes without overlapping, and the key in front of
them has a fixed length, so the message can be read in one way only. Two steps from one parent can
meet in one child only where the keyed digest itself takes two messages to one value.

* **`Step.childNumber_inj`**, **`Path.map_childNumber_inj`**: the numbers of children tell steps and
  paths apart.
* **`Material.childMessage_inj`**: the message tells keys and numbers apart.
* **`Hmac.Collides`**, **`Material.child_inj_or_collides`**: what it takes for two steps to meet.
* **`Material.separation_of_steps`**: all of this for the steps of paths.
-/

namespace KeyTree

/-! ## Steps and paths -/

/-- **The number of a child tells its step**: the mark is in the upper half of the range, which no
index reaches. -/
theorem Step.childNumber_inj {s t : Step} (hs : s.index.toNat < 2 ^ 31)
    (ht : t.index.toNat < 2 ^ 31) : s.childNumber = t.childNumber ↔ s = t := by
  refine ⟨fun h => ?_, fun h => h ▸ rfl⟩
  -- the mark is told by the half of the range, and without it the rest is the index
  have hmark : s.hardened = t.hardened := by
    rw [Bool.eq_iff_iff, ← le_toNat_childNumber_iff hs, ← le_toNat_childNumber_iff ht, h]
  have hnumber := congrArg UInt32.toNat h
  rw [toNat_childNumber hs, toNat_childNumber ht, hmark] at hnumber
  exact Step.ext (UInt32.toNat_inj.1 (Nat.add_right_cancel hnumber)) hmark

/-- **The numbers of the children tell the path.** -/
theorem Path.map_childNumber_inj {path other : Path}
    (hpath : ∀ step ∈ path, step.index.toNat < 2 ^ 31)
    (hother : ∀ step ∈ other, step.index.toNat < 2 ^ 31) :
    path.map Step.childNumber = other.map Step.childNumber ↔ path = other := by
  refine ⟨fun h => ?_, fun h => h ▸ rfl⟩
  induction path generalizing other with
  | nil => exact (List.map_eq_nil_iff.1 h.symm).symm
  | cons s path ih =>
    cases other with
    | nil => cases h
    | cons t other =>
      obtain ⟨hs, hpath⟩ := List.forall_mem_cons.1 hpath
      obtain ⟨ht, hother⟩ := List.forall_mem_cons.1 hother
      obtain ⟨hnumber, hrest⟩ := List.cons.inj h
      rw [(Step.childNumber_inj hs ht).1 hnumber, ih hpath hother hrest]

/-! ## Messages -/

/-- Two messages under one key that the keyed digest does not tell apart. -/
def Hmac.Collides (key m n : Bytes) : Prop :=
  m ≠ n ∧ Hmac.sha512 key m = Hmac.sha512 key n

namespace Material

/-- **The message tells the key and the number**, each in its own place. -/
theorem childMessage_inj {a b : Material} {m n : UInt32} :
    a.childMessage m = b.childMessage n ↔ a.key = b.key ∧ m = n := by
  have hm : m.toNat < 256 ^ 4 := m.toNat_lt
  have hn : n.toNat < 256 ^ 4 := n.toNat_lt
  refine ⟨fun h => ?_, fun h => ?_⟩
  · obtain ⟨-, htail⟩ := List.cons.inj h
    obtain ⟨hkey, hnumber⟩ := List.append_inj' htail (by simp)
    rw [bigEndian_inj hm hn, UInt32.toNat_inj] at hnumber
    exact ⟨FixedBytes.ext hkey, hnumber⟩
  · obtain ⟨hkey, hnumber⟩ := h
    rw [childMessage, childMessage, hkey, hnumber]

/-- A child is nothing but the two halves of a digest. -/
theorem child_eq_child_iff {a b : Material} {m n : UInt32} :
    a.child m = b.child n ↔
      Hmac.sha512 a.chainCode.toList (a.childMessage m) =
        Hmac.sha512 b.chainCode.toList (b.childMessage n) := by
  refine ⟨fun h => ?_, fun h => ?_⟩
  · -- the halves tell the digest, as nothing of it is left out
    have hparts {parent : Material} {number : UInt32} :
        (parent.child number).key.toList ++ (parent.child number).chainCode.toList =
          (Hmac.sha512 parent.chainCode.toList (parent.childMessage number)).toList :=
      (FixedBytes.append_eq_iff (m := 32) (n := 32)).2 ⟨rfl, rfl⟩
    apply FixedBytes.ext
    rw [← hparts, ← hparts, h]
  · rw [child, child, h]

/-- **Two steps from one parent meet only in a collision.** -/
theorem child_inj_or_collides {parent : Material} {s t : Step} (hs : s.index.toNat < 2 ^ 31)
    (ht : t.index.toNat < 2 ^ 31) :
    parent.child s.childNumber = parent.child t.childNumber ↔
      s = t ∨ Hmac.Collides parent.chainCode.toList (parent.childMessage s.childNumber)
        (parent.childMessage t.childNumber) := by
  have hmessage :
      parent.childMessage s.childNumber = parent.childMessage t.childNumber ↔ s = t := by
    rw [childMessage_inj, Step.childNumber_inj hs ht, and_iff_right rfl]
  rw [child_eq_child_iff, Hmac.Collides, ne_eq, hmessage]
  refine ⟨fun h => ?_, fun h => ?_⟩
  · by_cases hst : s = t
    · exact Or.inl hst
    · exact Or.inr ⟨hst, h⟩
  · rcases h with rfl | ⟨-, h⟩
    · rfl
    · exact h

/-- A path goes by the numbers of its children and by nothing else. -/
theorem descend_eq_foldl (material : Material) (path : Path) :
    material.descend path = (path.map Step.childNumber).foldl child material := by
  rw [descend, List.foldl_map]

/-- **No step is mistaken for another one.** The 37 bytes that a child is made from are the same for
two steps only if the key and the step are; the numbers that an accepted text leads along are those
of one path only; and two steps from one parent have the same child only if they are the same step
or the keyed digest takes their two messages, which differ, to one value. -/
theorem separation_of_steps :
    (∀ (a b : Material) (s t : Step), s.index.toNat < 2 ^ 31 → t.index.toNat < 2 ^ 31 →
      (a.childMessage s.childNumber).length = 37 ∧ (b.childMessage t.childNumber).length = 37 ∧
        (a.childMessage s.childNumber = b.childMessage t.childNumber ↔ a.key = b.key ∧ s = t)) ∧
      (∀ text path, Path.parse text = .ok path →
        (∀ step ∈ path, step.index.toNat < 2 ^ 31) ∧
          ∀ material : Material,
            material.descend path = (path.map Step.childNumber).foldl child material) ∧
      (∀ p q path other, Path.parse p = .ok path → Path.parse q = .ok other →
        (path.map Step.childNumber = other.map Step.childNumber ↔ Path.parse p = Path.parse q)) ∧
      ∀ (parent : Material) (s t : Step), s.index.toNat < 2 ^ 31 → t.index.toNat < 2 ^ 31 →
        (parent.child s.childNumber = parent.child t.childNumber ↔
          s = t ∨ Hmac.Collides parent.chainCode.toList (parent.childMessage s.childNumber)
            (parent.childMessage t.childNumber)) := by
  have hrange {text : Bytes} {path : Path} (h : Path.parse text = .ok path) :
      ∀ step ∈ path, step.index.toNat < 2 ^ 31 := (Path.parse_eq_ok_iff.1 h).index_lt
  refine ⟨?messages, ?steps, ?paths, ?children⟩
  case messages =>
    intro a b s t hs ht
    refine ⟨length_childMessage _ _, length_childMessage _ _, ?_⟩
    rw [childMessage_inj, Step.childNumber_inj hs ht]
  case steps => exact fun text path h => ⟨hrange h, fun material => descend_eq_foldl material path⟩
  case paths =>
    intro p q path other hp hq
    rw [Path.map_childNumber_inj (hrange hp) (hrange hq), hp, hq, Except.ok.injEq]
  case children => exact fun parent s t hs ht => child_inj_or_collides hs ht

/-- The first hardened child and the last one that is not hardened: their numbers are neighbours,
and two paths that lead to them in either order are kept apart, while two spellings of one path are
not. -/
theorem separation_of_steps_at_the_bounds :
    ∃ (parent : Material) (s t : Step) (path other : Path),
      s.index.toNat < 2 ^ 31 ∧ t.index.toNat < 2 ^ 31 ∧
        s.childNumber.toNat = t.childNumber.toNat + 1 ∧
        parent.childMessage s.childNumber ≠ parent.childMessage t.childNumber ∧
        (parent.child s.childNumber = parent.child t.childNumber ↔
          Hmac.Collides parent.chainCode.toList (parent.childMessage s.childNumber)
            (parent.childMessage t.childNumber)) ∧
        Path.parse (ascii "m/0h//2147483647") = .ok path ∧
        Path.parse (ascii "2147483647/0'") = .ok other ∧
        path.map Step.childNumber ≠ other.map Step.childNumber ∧
        Path.parse (ascii "0'/02147483647/") = Path.parse (ascii "m/0h//2147483647") := by
  let zeros : FixedBytes 32 := ⟨List.replicate 32 0, rfl⟩
  let parent : Material := { key := zeros, chainCode := zeros }
  let s : Step := { index := 0, hardened := true }
  let t : Step := { index := 2147483647, hardened := false }
  have hs : s.index.toNat < 2 ^ 31 := by decide
  have ht : t.index.toNat < 2 ^ 31 := by decide
  have hst : s ≠ t := by decide
  have hpath : Path.parse (ascii "m/0h//2147483647") = .ok [s, t] := by decide
  have hother : Path.parse (ascii "2147483647/0'") = .ok [t, s] := by decide
  have hagain : Path.parse (ascii "0'/02147483647/") = .ok [s, t] := by decide
  obtain ⟨hmessages, -, hpaths, hchildren⟩ := separation_of_steps
  refine ⟨parent, s, t, [s, t], [t, s], hs, ht, by decide, ?message, ?child, hpath, hother,
    ?numbers, (hpaths _ _ _ _ hagain hpath).1 rfl⟩
  case message => exact fun h => hst ((hmessages parent parent s t hs ht).2.2.1 h).2
  case child =>
    rw [hchildren parent s t hs ht, or_iff_right hst]
  case numbers =>
    intro h
    have hsame := (hpaths _ _ _ _ hpath hother).1 h
    rw [hpath, hother, Except.ok.injEq, List.cons.injEq] at hsame
    exact hst hsame.1

end Material

end KeyTree
