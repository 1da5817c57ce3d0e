import Mathlib.Data.List.Forall2

/-!
# Computations that can fail

How a computation in `Except` got to its result, for stages that follow each other and for a list
that is gone through item by item.

* **`Fallible.bind_eq_ok_iff`**: two stages succeed if the first does and the second does on what the
  first one gave.
* **`Fallible.mapM_eq_ok_iff`**: a list is gone through to the end if every item succeeds, and the
  results stand in the items' order.
* **`Fallible.mapM_eq_error_iff`**: otherwise the first item that fails decides the failure, whatever
  stands behind it.
-/

namespace KeyTree.Fallible

variable {ε α β : Type}

theorem bind_eq_ok_iff {x : Except ε α} {f : α → Except ε β} {b : β} :
    x >>= f = .ok b ↔ ∃ a, x = .ok a ∧ f a = .ok b := by
  cases x with
  | error e => simp [bind, Except.bind]
  | ok a => simp [bind, Except.bind]

theorem map_eq_ok_iff {x : Except ε α} {f : α → β} {b : β} :
    f <$> x = .ok b ↔ ∃ a, x = .ok a ∧ f a = b := by
  cases x with
  | error e => simp [Functor.map, Except.map]
  | ok a => simp [Functor.map, Except.map]

theorem bind_eq_error_iff {x : Except ε α} {f : α → Except ε β} {e : ε} :
    x >>= f = .error e ↔ x = .error e ∨ ∃ a, x = .ok a ∧ f a = .error e := by
  cases x with
  | error e' => simp [bind, Except.bind]
  | ok a => simp [bind, Except.bind]

theorem map_eq_error_iff {x : Except ε α} {f : α → β} {e : ε} :
    f <$> x = .error e ↔ x = .error e := by
  cases x with
  | error e' => simp [Functor.map, Except.map]
  | ok a => simp [Functor.map, Except.map]

theorem mapM_eq_ok_iff {f : α → Except ε β} {xs : List α} {ys : List β} :
    xs.mapM f = .ok ys ↔ List.Forall₂ (fun x y => f x = .ok y) xs ys := by
  induction xs generalizing ys with
  | nil =>
    rw [List.mapM_nil, List.forall₂_nil_left_iff]
    show Except.ok [] = Except.ok ys ↔ ys = []
    rw [Except.ok.injEq, eq_comm]
  | cons x xs ih =>
    rw [List.mapM_cons, List.forall₂_cons_left_iff, bind_eq_ok_iff]
    refine ⟨fun h => ?_, fun h => ?_⟩
    · obtain ⟨y, hy, htail⟩ := h
      obtain ⟨rest, hrest, hys⟩ := bind_eq_ok_iff.1 htail
      exact ⟨y, rest, hy, ih.1 hrest, (Except.ok.inj hys).symm⟩
    · obtain ⟨y, rest, hy, hrest, hys⟩ := h
      exact ⟨y, hy, bind_eq_ok_iff.2 ⟨rest, ih.2 hrest, congrArg Except.ok hys.symm⟩⟩

theorem exists_mapM_eq_ok_iff {f : α → Except ε β} {xs : List α} :
    (∃ ys, xs.mapM f = .ok ys) ↔ ∀ x ∈ xs, ∃ y, f x = .ok y := by
  simp only [mapM_eq_ok_iff]
  induction xs with
  | nil => exact ⟨fun _ x hx => absurd hx List.not_mem_nil, fun _ => ⟨[], .nil⟩⟩
  | cons x xs ih =>
    rw [List.forall_mem_cons, ← ih]
    refine ⟨fun h => ?_, fun h => ?_⟩
    · obtain ⟨ys, hys⟩ := h
      obtain ⟨y, rest, hy, hrest, -⟩ := List.forall₂_cons_left_iff.1 hys
      exact ⟨⟨y, hy⟩, ⟨rest, hrest⟩⟩
    · obtain ⟨⟨y, hy⟩, ⟨ys, hys⟩⟩ := h
      exact ⟨y :: ys, .cons hy hys⟩

/-- The first item that fails decides the failure. -/
theorem mapM_eq_error_iff {f : α → Except ε β} {xs : List α} {e : ε} :
    xs.mapM f = .error e ↔
      ∃ before x after, xs = before ++ x :: after ∧ (∀ y ∈ before, ∃ z, f y = .ok z) ∧
        f x = .error e := by
  induction xs with
  | nil =>
    refine ⟨fun h => ?_, fun h => ?_⟩
    · cases h
    · obtain ⟨before, x, after, hnil, -⟩ := h
      exact absurd hnil.symm (by simp)
  | cons x xs ih =>
    rw [List.mapM_cons, bind_eq_error_iff]
    refine ⟨fun h => ?_, fun h => ?_⟩
    · rcases h with hx | ⟨y, hy, htail⟩
      · exact ⟨[], x, xs, rfl, by simp, hx⟩
      · obtain ⟨before, x', after, rfl, hbefore, hx'⟩ := ih.1 (map_eq_error_iff.1 htail)
        exact ⟨x :: before, x', after, rfl, List.forall_mem_cons.2 ⟨⟨y, hy⟩, hbefore⟩, hx'⟩
    · obtain ⟨before, x', after, hxs, hbefore, hx'⟩ := h
      cases before with
      | nil =>
        obtain ⟨rfl, -⟩ := List.cons.inj hxs
        exact Or.inl hx'
      | cons b before =>
        obtain ⟨rfl, hrest⟩ := List.cons.inj hxs
        obtain ⟨⟨y, hy⟩, hbefore⟩ := List.forall_mem_cons.1 hbefore
        exact Or.inr ⟨y, hy, map_eq_error_iff.2 (ih.2 ⟨before, x', after, hrest, hbefore, hx'⟩)⟩

end KeyTree.Fallible
