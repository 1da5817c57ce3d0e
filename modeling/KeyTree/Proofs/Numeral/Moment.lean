import KeyTree.Proofs.Numeral
import Mathlib.Logic.Relation

/-!
# A numeral while it is computed

`Radix.accumulate` gives the numeral that is left when everything has been read. Here the loops
behind it are stopped at every single digit. Whatever digit they have come to, the digits in place,
the carry and the digits that still wait for it determine what the pass will leave behind, and two
bounds carry each other from digit to digit: the carry is below the base of the digits that are read,
and so a sum is below the product of both bases, and so the next carry is below that base again.

* **`Radix.Moment`**: where the loops stand, **`Radix.Moment.Step`**: what they do next.
* **`Radix.Moment.Visits`**: the moments that the loops come by on the way through some digits.
* **`Radix.Moment.visits_idle`**: the loops come to rest after every digit that they have read, with
  `accumulate` of the digits so far.
* **`Radix.Moment.Visits.exists_front`**, the invariant of a run: what the pass will leave behind is
  `accumulate` of the digits that have been read.
* **`Radix.Moment.Visits.bounded`**, **`Radix.Moment.Bounded.sum_lt`**: the bounds.
-/

namespace KeyTree.Radix

/-- Where the loops of `accumulate` stand. -/
structure Moment where
  /-- The digits of the numeral that are in place, least significant first. -/
  settled : List UInt8
  carry : Nat
  /-- The digits of the numeral that the pass has yet to come to. -/
  waiting : List UInt8
  /-- The digits that have not been read. -/
  unread : List UInt8

namespace Moment

variable (src dst : Radix)

/-- The numeral as it stands, in the middle of a pass or after it. -/
def numeral (m : Moment) : List UInt8 :=
  m.settled ++ m.waiting

/-- The loops at rest between one digit that is read and the next. -/
def idle (numeral unread : List UInt8) : Moment :=
  ⟨numeral, 0, [], unread⟩

/-- The pass is over. -/
def Idle (m : Moment) : Prop :=
  m.waiting = [] ∧ m.carry = 0

/-- The carry, and the multiple of the digit that it meets if there is one left. -/
def sum (m : Moment) : Nat :=
  m.carry + src.base * (m.waiting.headD 0).toNat

/-- The units of the sum are put in place and the rest of it is carried on. -/
def settle (m : Moment) : Moment where
  settled := m.settled ++ [dst.unit (m.sum src)]
  carry := m.sum src / dst.base
  waiting := m.waiting.tail
  unread := m.unread

/-- What the loops do next. A pass goes on as long as a digit waits or something is carried; then the
next digit is read, which is the carry that the next pass begins with. -/
inductive Step : Moment → Moment → Prop where
  | settle {m : Moment} (hbusy : ¬ m.Idle) : Step m (m.settle src dst)
  | read {numeral unread : List UInt8} {d : UInt8} :
      Step (idle numeral (d :: unread)) ⟨[], d.toNat, numeral, unread⟩

/-- The loops come by `m` on the way through the digits `ds`. -/
def Visits (ds : List UInt8) (m : Moment) : Prop :=
  Relation.ReflTransGen (Step src dst) (idle [] ds) m

/-- What the pass under way will leave behind. -/
def outcome (m : Moment) : List UInt8 :=
  m.settled ++ dst.mulAdd src.base m.carry m.waiting

variable {src dst} {ds : List UInt8} {m m' : Moment}

theorem Idle.eq_idle (h : m.Idle) : m = idle m.settled m.unread := by
  obtain ⟨settled, carry, waiting, unread⟩ := m
  obtain ⟨rfl, rfl⟩ : waiting = [] ∧ carry = 0 := h
  rfl

@[simp] theorem outcome_idle (numeral unread : List UInt8) :
    (idle numeral unread).outcome src dst = numeral := by
  simp [outcome, idle, mulAdd]

theorem Idle.outcome_eq (h : m.Idle) : m.outcome src dst = m.settled := by
  rw [h.eq_idle, outcome_idle]
  rfl

/-! ## What stays the same during a pass -/

theorem outcome_settle (h : ¬ m.Idle) : (m.settle src dst).outcome src dst = m.outcome src dst := by
  obtain ⟨settled, carry, waiting, unread⟩ := m
  -- a digit that waits is a step of `mulAdd`, and beyond the last one it is a step of `digits`
  cases waiting with
  | nil =>
    have hcarry : carry ≠ 0 := fun hzero => h ⟨rfl, hzero⟩
    simp [outcome, settle, sum, mulAdd, digits_of_ne_zero dst hcarry]
  | cons d waiting => simp [outcome, settle, sum, mulAdd]

variable (src dst) in
/-- **Every pass comes to an end**, and leaves behind what it was about to. -/
theorem reaches_idle (m : Moment) :
    Relation.ReflTransGen (Step src dst) m (idle (m.outcome src dst) m.unread) := by
  by_cases h : m.Idle
  · rw [h.outcome_eq, ← h.eq_idle]
  · have hrest := reaches_idle (m.settle src dst)
    rw [outcome_settle h] at hrest
    exact Relation.ReflTransGen.head (Step.settle h) hrest
-- digits wait in line first, then what is carried beyond the last of them dwindles
termination_by (m.waiting.length, m.carry)
decreasing_by
  obtain ⟨settled, carry, waiting, unread⟩ := m
  cases waiting with
  | nil =>
    have hcarry : carry ≠ 0 := fun hzero => h ⟨rfl, hzero⟩
    refine Prod.Lex.right _ ?_
    simpa [settle, sum] using Nat.div_lt_self (Nat.pos_of_ne_zero hcarry) dst.one_lt
  | cons d waiting => exact Prod.Lex.left _ _ (Nat.lt_succ_self _)

/-- **The loops come to rest after every digit that they have read.** -/
theorem visits_idle {front rest : List UInt8} (h : ds = front ++ rest) :
    Visits src dst ds (idle (accumulate src dst front) rest) := by
  subst h
  -- a digit more has been read when a digit less is left
  induction front using List.reverseRecOn generalizing rest with
  | nil => exact Relation.ReflTransGen.refl
  | append_singleton front d ih =>
    have hfront : Visits src dst (front ++ d :: rest) _ := ih
    have hread := hfront.tail Step.read
    have hpass := reaches_idle src dst ⟨[], d.toNat, accumulate src dst front, rest⟩
    rw [outcome, List.nil_append, ← accumulate_append_singleton] at hpass
    rw [List.append_assoc, List.singleton_append]
    exact hread.trans hpass

/-- **The run.** At every moment the pass is about to leave behind the numeral of the digits that
have been read, the one that it works on included. -/
theorem Visits.exists_front (h : Visits src dst ds m) :
    ∃ front, ds = front ++ m.unread ∧ m.outcome src dst = accumulate src dst front := by
  induction h with
  | refl => exact ⟨[], rfl, outcome_idle [] ds⟩
  | tail _ hstep ih =>
    obtain ⟨front, hfront, houtcome⟩ := ih
    cases hstep with
    | settle hbusy => exact ⟨front, hfront, by rw [outcome_settle hbusy, houtcome]⟩
    | @read numeral unread d =>
      rw [outcome_idle] at houtcome
      refine ⟨front ++ [d], ?_, ?_⟩
      · rw [hfront, List.append_assoc]
        rfl
      · rw [accumulate_append_singleton, ← houtcome]
        rfl

/-! ## Bounds on the carry -/

variable (src dst) in
/-- All digits are digits, and the carry is below the base of those that are read. -/
structure Bounded (m : Moment) : Prop where
  settled_lt : ∀ d ∈ m.settled, d.toNat < dst.base
  waiting_lt : ∀ d ∈ m.waiting, d.toNat < dst.base
  unread_lt : ∀ d ∈ m.unread, d.toNat < src.base
  carry_lt : m.carry < src.base

namespace Bounded

theorem head_lt (h : Bounded src dst m) : (m.waiting.headD 0).toNat < dst.base := by
  cases hwaiting : m.waiting with
  | nil => exact dst.base_pos
  | cons d rest => exact h.waiting_lt d (by rw [hwaiting]; exact List.mem_cons_self)

/-- The bound on the carry is a bound on the sum. -/
theorem sum_lt (h : Bounded src dst m) : m.sum src < src.base * dst.base :=
  calc m.sum src
      < src.base + src.base * (m.waiting.headD 0).toNat := Nat.add_lt_add_right h.carry_lt _
    _ = src.base * ((m.waiting.headD 0).toNat + 1) := by rw [Nat.mul_succ, Nat.add_comm]
    _ ≤ src.base * dst.base := Nat.mul_le_mul_left _ h.head_lt

theorem sum_lt_of_cons {d : UInt8} {rest : List UInt8} (h : Bounded src dst m)
    (hwaiting : m.waiting = d :: rest) : m.carry + src.base * d.toNat < src.base * dst.base := by
  have hsum := h.sum_lt
  rwa [sum, hwaiting] at hsum

/-- And that bound on the sum is the bound on the next carry. -/
theorem settle (h : Bounded src dst m) : Bounded src dst (m.settle src dst) where
  settled_lt d hd := by
    rcases List.mem_append.1 hd with hd | hd
    · exact h.settled_lt d hd
    · rw [List.mem_singleton.1 hd]
      exact unit_lt dst _
  waiting_lt d hd := h.waiting_lt d (List.mem_of_mem_tail hd)
  unread_lt := h.unread_lt
  carry_lt := Nat.div_lt_of_lt_mul (by rw [Nat.mul_comm]; exact h.sum_lt)

/-- **The step.** -/
theorem step (h : Bounded src dst m) (hstep : Step src dst m m') : Bounded src dst m' := by
  cases hstep with
  | settle _ => exact h.settle
  | @read numeral unread d =>
    obtain ⟨hd, hunread⟩ := List.forall_mem_cons.1 h.unread_lt
    exact ⟨by simp, h.settled_lt, hunread, hd⟩

theorem numeral_lt (h : Bounded src dst m) : ∀ d ∈ m.numeral, d.toNat < dst.base := by
  intro d hd
  rcases List.mem_append.1 hd with hd | hd
  · exact h.settled_lt d hd
  · exact h.waiting_lt d hd

/-- Into a larger base, what is carried beyond the last digit is a single digit. -/
theorem carry_settle (h : Bounded src dst m) (hbase : src.base ≤ dst.base)
    (hwaiting : m.waiting = []) : (m.settle src dst).carry = 0 := by
  have hsum : m.sum src = m.carry := by simp [sum, hwaiting]
  have hlt : m.carry < dst.base := Nat.lt_of_lt_of_le h.carry_lt hbase
  show m.sum src / dst.base = 0
  rw [hsum, Nat.div_eq_of_lt hlt]

end Bounded

/-- **The run.** -/
theorem Visits.bounded (h : Visits src dst ds m) (hds : ∀ d ∈ ds, d.toNat < src.base) :
    Bounded src dst m := by
  induction h with
  | refl => exact ⟨by simp [idle], by simp [idle], hds, src.base_pos⟩
  | tail _ hstep ih => exact ih.step hstep

end Moment

/-! ## Lengths -/

theorem length_digits_le_iff {r : Radix} {n k : Nat} : (r.digits n).length ≤ k ↔ n < r.base ^ k := by
  rw [← Nat.digits_length_le_iff r.one_lt, ← map_toNat_digits, List.length_map]

/-- A pass takes no digit away. -/
theorem length_le_length_mulAdd (r : Radix) (factor carry : Nat) (ds : List UInt8) :
    ds.length ≤ (r.mulAdd factor carry ds).length := by
  induction ds generalizing carry with
  | nil => exact Nat.zero_le _
  | cons d ds ih => exact Nat.succ_le_succ (ih _)

/-- No numeral on the way is longer than the one that the pass leaves behind. -/
theorem Moment.length_numeral_le (src dst : Radix) (m : Moment) :
    m.numeral.length ≤ (m.outcome src dst).length := by
  rw [numeral, outcome, List.length_append, List.length_append]
  exact Nat.add_le_add_left (length_le_length_mulAdd dst _ _ _) _

/-- Into a larger base, a pass adds at most one digit. -/
theorem Moment.Bounded.length_outcome_le {src dst : Radix} {m : Moment} (h : Bounded src dst m)
    (hbase : src.base ≤ dst.base) : (m.outcome src dst).length ≤ m.numeral.length + 1 := by
  -- digit by digit, and the length stays what it is until there is no digit left
  induction hwaiting : m.waiting generalizing m with
  | nil =>
    have hcarry : m.carry < dst.base ^ 1 := by
      rw [Nat.pow_one]
      exact Nat.lt_of_lt_of_le h.carry_lt hbase
    rw [outcome, numeral, hwaiting, mulAdd, List.append_nil, List.length_append]
    exact Nat.add_le_add_left (length_digits_le_iff.2 hcarry) _
  | cons d rest ih =>
    have hbusy : ¬ m.Idle := fun hidle => by simp [hidle.1] at hwaiting
    have hnumeral : (m.settle src dst).numeral.length = m.numeral.length := by
      simp [numeral, Moment.settle, hwaiting]
    rw [← outcome_settle hbusy, ← hnumeral]
    exact ih h.settle (by simp [Moment.settle, hwaiting])

end KeyTree.Radix
