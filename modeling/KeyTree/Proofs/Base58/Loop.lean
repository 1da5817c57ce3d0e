import KeyTree.Proofs.Base58.Numeral
import KeyTree.Proofs.Numeral.Moment

/-!
# The two loops of base 58

Writing takes bytes into digits below 58 and reading takes symbols into bytes, by one and the same
loops over numerals. Here is what holds of them whenever they are stopped: between two passes, where
the numeral is that of what has been read so far, and at every digit of a pass, where carry and sum
are bounded. Both ways a sum is below `256 * 58`, so it fits a machine word with room to spare, and
what is cut down to a byte has been a remainder before.

* **`Base58.Writing`**, **`Base58.Reading`**: what holds at a moment when a part has been read.
* **`Base58.writing_of_visits`**, **`Base58.reading_of_visits`**: it holds at every moment.
* **`Base58.length_accumulate_append_singleton_le`**: a symbol adds at most one byte.
* **`Base58.invariants_of_both_loops`**: all this from the start of either loop to its end.
-/

namespace KeyTree.Base58

open Radix (Moment accumulate)
open Radix.Moment (Visits Bounded idle)

variable {m : Moment}

/-! ## In machine words -/

/-- The sum of a digit, shifted by a byte, and the carry. -/
def writingSum (m : Moment) : UInt64 :=
  UInt64.ofNat m.carry + (m.waiting.headD 0).toUInt64 <<< 8

/-- The sum of 58 times a byte and the carry. -/
def readingSum (m : Moment) : UInt64 :=
  UInt64.ofNat m.carry + (m.waiting.headD 0).toUInt64 * 58

theorem toNat_writingSum (h : Bounded .byte .fiftyEight m) :
    (writingSum m).toNat = m.sum .byte := by
  have hcarry : m.carry < 256 := h.carry_lt
  have hdigit : (m.waiting.headD 0).toNat < 58 := h.head_lt
  have hshift : 2 ^ ((8 : UInt64).toNat % 64) = 256 := rfl
  show _ = m.carry + 256 * (m.waiting.headD 0).toNat
  rw [writingSum, UInt64.toNat_add, UInt64.toNat_ofNat', UInt64.toNat_shiftLeft, UInt8.toNat_toUInt64,
    Nat.shiftLeft_eq, hshift]
  omega

theorem toNat_readingSum (h : Bounded .fiftyEight .byte m) :
    (readingSum m).toNat = m.sum .fiftyEight := by
  have hcarry : m.carry < 58 := h.carry_lt
  have hdigit : (m.waiting.headD 0).toNat < 256 := h.head_lt
  have hfactor : (58 : UInt64).toNat = 58 := rfl
  show _ = m.carry + 58 * (m.waiting.headD 0).toNat
  rw [readingSum, UInt64.toNat_add, UInt64.toNat_ofNat', UInt64.toNat_mul, UInt8.toNat_toUInt64,
    hfactor]
  omega

theorem toNat_and_255 (w : UInt64) : (w &&& 0xff).toNat = w.toNat % 256 := by
  have hmask : (0xff : UInt64).toNat = 2 ^ 8 - 1 := rfl
  rw [UInt64.toNat_and, hmask, Nat.and_two_pow_sub_one_eq_mod]

theorem toNat_shiftRight_8 (w : UInt64) : (w >>> 8).toNat = w.toNat / 256 := by
  rw [UInt64.toNat_shiftRight, Nat.shiftRight_eq_div_pow]
  rfl

/-- A word that is below 256 survives the cast to a byte. -/
theorem toUInt64_toUInt8 {w : UInt64} (h : w.toNat < 256) : w.toUInt8.toUInt64 = w := by
  apply UInt64.toNat_inj.1
  rw [UInt8.toNat_toUInt64, UInt64.toNat_toUInt8]
  exact Nat.mod_eq_of_lt h

/-- A word that is a remainder is cut down to the units. -/
theorem toUInt8_eq_unit {r : Radix} {w : UInt64} {n : Nat} (h : w.toNat = n % r.base) :
    w.toUInt8 = r.unit n := by
  have hlt := r.unit_lt n
  have hbase := r.le_256
  rw [r.toNat_unit] at hlt
  apply UInt8.toNat_inj.1
  rw [UInt64.toNat_toUInt8, h, r.toNat_unit]
  exact Nat.mod_eq_of_lt (by omega)

/-! ## At every moment -/

/-- The loops of `encode` when they have read the bytes `front`, the last of which may be the one
that they work on. -/
structure Writing (front : Bytes) (m : Moment) : Prop where
  digit_lt : ∀ d ∈ m.numeral, d.toNat < 58
  carry_le : m.carry ≤ 255
  sum_le : ∀ d rest, m.waiting = d :: rest → m.carry + 256 * d.toNat ≤ 14847
  /-- What is put in place and what is carried on, as a machine computes them. -/
  settle_eq : m.settle .byte .fiftyEight =
    ⟨m.settled ++ [(writingSum m % 58).toUInt8], (writingSum m / 58).toNat, m.waiting.tail, m.unread⟩
  /-- The cast to a byte loses nothing. -/
  cast_eq : (writingSum m % 58).toUInt8.toUInt64 = writingSum m % 58
  /-- After a byte there is a most significant digit, and it is not zero. -/
  last_ne_zero : m.Idle → front ≠ [] → ∃ d, m.settled.getLast? = some d ∧ d ≠ 0
  value_eq : m.Idle → Nat.ofDigits 58 (m.settled.map UInt8.toNat) = ofBigEndian front

/-- The loops of `decode` when they have read the symbols `front`, the last of which may be the one
that they work on. The bytes in place are in the opposite order. -/
structure Reading (front : Bytes) (m : Moment) : Prop where
  carry_le : m.carry ≤ 57
  sum_le : ∀ d rest, m.waiting = d :: rest → m.carry + 58 * d.toNat ≤ 14847
  /-- What is put in place and what is carried on, as a machine computes them. -/
  settle_eq : m.settle .fiftyEight .byte =
    ⟨m.settled ++ [(readingSum m &&& 0xff).toUInt8], (readingSum m >>> 8).toNat, m.waiting.tail,
      m.unread⟩
  /-- The cast to a byte loses nothing. -/
  cast_eq : (readingSum m &&& 0xff).toUInt8.toUInt64 = readingSum m &&& 0xff
  /-- A byte in front of all others takes up what is carried, so it remains the only one. -/
  carry_settle : m.waiting = [] → (m.settle .fiftyEight .byte).carry = 0
  head_ne_zero : m.Idle → m.settled.reverse.head? ≠ some 0
  value_eq : m.Idle → ofBigEndian m.settled.reverse = number front

/-! ## Writing -/

/-- Bytes that do not begin with a zero have a number with a most significant digit. -/
theorem exists_getLast?_accumulate {front : Bytes} (hne : front ≠ []) (hhead : front.head? ≠ some 0) :
    ∃ d, (accumulate .byte .fiftyEight front).getLast? = some d ∧ d ≠ 0 := by
  have hvalue : ofBigEndian front ≠ 0 := by
    obtain ⟨b, rest, rfl⟩ := List.exists_cons_of_ne_nil hne
    have hb : b.toNat ≠ 0 := fun hzero => hhead (congrArg some (UInt8.toNat_inj.1 hzero))
    have hweight : 0 < 256 ^ rest.length := Nat.pow_pos (by decide)
    have hproduct := Nat.mul_ne_zero hb (Nat.ne_of_gt hweight)
    rw [ofBigEndian_cons]
    omega
  rw [Radix.accumulate_eq_digits, ← ofBigEndian_eq_value]
  have hcanonical := Radix.canonical_digits .fiftyEight (ofBigEndian front)
  cases hlast : (Radix.fiftyEight.digits (ofBigEndian front)).getLast? with
  | none =>
    rw [Radix.digits_of_ne_zero _ hvalue] at hlast
    simp at hlast
  | some d => exact ⟨d, rfl, fun hd => hcanonical.getLast?_ne_zero (by rw [hlast, hd])⟩

/-- The bounds of a pass and the numeral between two passes are all that is needed. -/
theorem writing_of_bounded {front : Bytes} (hbounded : Bounded .byte .fiftyEight m)
    (hhead : front.head? ≠ some 0)
    (hsettled : m.Idle → m.settled = accumulate .byte .fiftyEight front) : Writing front m where
  digit_lt := hbounded.numeral_lt
  carry_le := Nat.le_of_lt_succ hbounded.carry_lt
  sum_le _ _ hwaiting := Nat.le_of_lt_succ (hbounded.sum_lt_of_cons hwaiting)
  settle_eq := by
    have hsum := toNat_writingSum hbounded
    have hunit : (writingSum m % 58).toUInt8 = Radix.fiftyEight.unit (m.sum .byte) :=
      toUInt8_eq_unit (by rw [UInt64.toNat_mod, hsum]; rfl)
    have hcarry : (writingSum m / 58).toNat = m.sum .byte / 58 := by rw [UInt64.toNat_div, hsum]; rfl
    rw [hunit, hcarry]
    rfl
  cast_eq := by
    apply toUInt64_toUInt8
    rw [UInt64.toNat_mod]
    exact Nat.lt_trans (Nat.mod_lt _ (by decide)) (by decide : 58 < 256)
  last_ne_zero hidle hne := by
    rw [hsettled hidle]
    exact exists_getLast?_accumulate hne hhead
  value_eq hidle := by
    rw [hsettled hidle, Radix.accumulate_eq_digits, ← ofBigEndian_eq_value]
    exact Radix.value_digits .fiftyEight _

/-- **It holds at every moment of writing.** -/
theorem writing_of_visits {bytes : Bytes}
    (h : Visits .byte .fiftyEight (bytes.dropWhile (· == 0)) m) :
    ∃ front, bytes.dropWhile (· == 0) = front ++ m.unread ∧ Writing front m := by
  obtain ⟨front, hfront, houtcome⟩ := h.exists_front
  refine ⟨front, hfront, writing_of_bounded (h.bounded fun d _ => d.toNat_lt) ?_ ?_⟩
  · -- whatever has been read begins where the bytes without their leading zeros begin
    have hbody := List.head?_dropWhile_not (· == (0 : UInt8)) bytes
    rw [hfront] at hbody
    cases front with
    | nil => simp
    | cons b rest => simpa using hbody
  · intro hidle
    rw [← houtcome, hidle.outcome_eq]

/-! ## Reading -/

theorem reading_of_bounded {front ds : Bytes} (hbounded : Bounded .fiftyEight .byte m)
    (hfront : front = ds.map symbol) (hds : ∀ d ∈ ds, d.toNat < 58)
    (hsettled : m.Idle → m.settled = accumulate .fiftyEight .byte ds) : Reading front m where
  carry_le := Nat.le_of_lt_succ hbounded.carry_lt
  sum_le _ _ hwaiting := Nat.le_of_lt_succ (hbounded.sum_lt_of_cons hwaiting)
  settle_eq := by
    have hsum := toNat_readingSum hbounded
    have hunit : (readingSum m &&& 0xff).toUInt8 = Radix.byte.unit (m.sum .fiftyEight) :=
      toUInt8_eq_unit (by rw [toNat_and_255, hsum]; rfl)
    have hcarry : (readingSum m >>> 8).toNat = m.sum .fiftyEight / 256 := by
      rw [toNat_shiftRight_8, hsum]
    rw [hunit, hcarry]
    rfl
  cast_eq := by
    apply toUInt64_toUInt8
    rw [toNat_and_255]
    exact Nat.mod_lt _ (by decide)
  carry_settle := hbounded.carry_settle (by decide)
  head_ne_zero hidle := by
    rw [hsettled hidle, List.head?_reverse, Radix.accumulate_eq_digits]
    exact (Radix.canonical_digits .byte _).getLast?_ne_zero
  value_eq hidle := by
    rw [hsettled hidle, ofBigEndian_eq_value, List.reverse_reverse, Radix.accumulate_eq_digits,
      Radix.value_digits, hfront, number_map_symbol hds]

/-- **It holds at every moment of reading**, whatever is to come after the symbols. -/
theorem reading_of_visits {text ds : Bytes} (hread : text.mapM readSymbol = .ok ds)
    (h : Visits .fiftyEight .byte ds m) :
    ∃ front, text = front ++ m.unread.map symbol ∧ Reading front m := by
  obtain ⟨hds, htext⟩ := mapM_readSymbol_eq_ok_iff.1 hread
  obtain ⟨front, hfront, houtcome⟩ := h.exists_front
  have hlt : ∀ d ∈ front, d.toNat < 58 := by
    intro d hd
    apply hds
    rw [hfront]
    exact List.mem_append_left _ hd
  refine ⟨front.map symbol, by rw [htext, hfront, List.map_append], ?_⟩
  apply reading_of_bounded (h.bounded hds) rfl hlt
  intro hidle
  rw [← houtcome, hidle.outcome_eq]

/-- A symbol adds at most one byte. -/
theorem length_accumulate_append_singleton_le {ds : Bytes} {d : UInt8}
    (hds : ∀ e ∈ ds ++ [d], e.toNat < 58) :
    (accumulate .fiftyEight .byte (ds ++ [d])).length ≤
      (accumulate .fiftyEight .byte ds).length + 1 := by
  have hread : Visits .fiftyEight .byte (ds ++ [d])
      ⟨[], d.toNat, accumulate .fiftyEight .byte ds, []⟩ :=
    (Radix.Moment.visits_idle rfl).tail Radix.Moment.Step.read
  have hlength := (hread.bounded hds).length_outcome_le (by decide)
  rwa [Moment.outcome, List.nil_append, ← Radix.accumulate_append_singleton] at hlength

/-! ## From start to end -/

variable (bytes : Bytes) in
/-- The loops of `encode` end with the digits that it writes. -/
theorem exists_visits_encode :
    ∃ digits, Visits .byte .fiftyEight (bytes.dropWhile (· == 0)) (idle digits []) ∧
      encode bytes = (bytes.takeWhile (· == 0)).map (fun _ => zero) ++ digits.reverse.map symbol := by
  exact ⟨_, Radix.Moment.visits_idle (List.append_nil _).symm, rfl⟩

/-- The loops of `decode` end with the bytes that it gives. -/
theorem exists_visits_decode {text ds : Bytes} (hread : text.mapM readSymbol = .ok ds) :
    ∃ bytes, Visits .fiftyEight .byte ds (idle bytes []) ∧
      decode text = .ok ((text.takeWhile (· == zero)).map (fun _ => 0) ++ bytes.reverse) := by
  refine ⟨_, Radix.Moment.visits_idle (List.append_nil ds).symm, ?_⟩
  rw [decode, hread]
  rfl

/-- **The invariants of both loops.** They come to rest after every byte or symbol, with the digits of
what has been read so far, and end with what is written or given. At every moment on the way the
bounds hold that go from one digit to the next, in words as in numbers. A text that is refused is
read like this up to the character that it is refused for. -/
theorem invariants_of_both_loops :
    (∀ bytes : Bytes,
      (∃ digits, Visits .byte .fiftyEight (bytes.dropWhile (· == 0)) (idle digits []) ∧
        encode bytes =
          (bytes.takeWhile (· == 0)).map (fun _ => zero) ++ digits.reverse.map symbol) ∧
      (∀ front rest, bytes.dropWhile (· == 0) = front ++ rest →
        ∃ digits, Visits .byte .fiftyEight (bytes.dropWhile (· == 0)) (idle digits rest)) ∧
      ∀ m, Visits .byte .fiftyEight (bytes.dropWhile (· == 0)) m →
        ∃ front, bytes.dropWhile (· == 0) = front ++ m.unread ∧ Writing front m) ∧
    ∀ text ds, text.mapM readSymbol = .ok ds →
      (∃ bytes, Visits .fiftyEight .byte ds (idle bytes []) ∧
        decode text = .ok ((text.takeWhile (· == zero)).map (fun _ => 0) ++ bytes.reverse)) ∧
      (∀ front rest, ds = front ++ rest →
        ∃ bytes, Visits .fiftyEight .byte ds (idle bytes rest)) ∧
      (∀ front d rest, ds = front ++ d :: rest →
        (accumulate .fiftyEight .byte (front ++ [d])).length ≤
          (accumulate .fiftyEight .byte front).length + 1) ∧
      ∀ m, Visits .fiftyEight .byte ds m →
        ∃ front, text = front ++ m.unread.map symbol ∧ Reading front m := by
  constructor
  case left =>
    intro bytes
    refine ⟨exists_visits_encode bytes, ?_, fun m hm => writing_of_visits hm⟩
    exact fun front rest hsplit => ⟨_, Radix.Moment.visits_idle hsplit⟩
  case right =>
    intro text ds hread
    refine ⟨exists_visits_decode hread, ?_, ?_, fun m hm => reading_of_visits hread hm⟩
    · exact fun front rest hsplit => ⟨_, Radix.Moment.visits_idle hsplit⟩
    · intro front d rest hsplit
      obtain ⟨hds, -⟩ := mapM_readSymbol_eq_ok_iff.1 hread
      apply length_accumulate_append_singleton_le
      intro e he
      apply hds
      rw [hsplit, List.append_cons]
      exact List.mem_append_left rest he

/-- Two bytes and three symbols on which both loops come up against the bounds. -/
theorem invariants_of_both_loops_at_the_bounds :
    (∃ m, Visits .byte .fiftyEight [57, 255] m ∧ m.carry = 255 ∧ m.sum .byte = 14847 ∧
      Writing [57, 255] m) ∧
    (ascii "5Qz").mapM readSymbol = .ok [4, 23, 57] ∧
      ∃ m, Visits .fiftyEight .byte [4, 23, 57] m ∧ m.carry = 57 ∧ m.sum .fiftyEight = 14847 ∧
        Reading (ascii "5Qz") m := by
  have hdigits : accumulate .byte .fiftyEight [57] = [57] :=
    Radix.digits_of_lt .fiftyEight (by decide) (by decide)
  have hbytes : accumulate .fiftyEight .byte [4, 23] = [255] := by
    have hfirst : Radix.byte.mulAdd 58 4 [] = [4] :=
      Radix.digits_of_lt .byte (by decide) (by decide)
    have hlast : Radix.byte.mulAdd 58 0 [] = [] := Radix.digits_zero .byte
    show Radix.byte.mulAdd 58 23 (Radix.byte.mulAdd 58 4 []) = [255]
    rw [hfirst]
    show 255 :: Radix.byte.mulAdd 58 0 [] = [255]
    rw [hlast]
  have hread : (ascii "5Qz").mapM readSymbol = .ok [4, 23, 57] :=
    mapM_readSymbol_eq_ok_iff.2 ⟨by simp, by decide⟩
  have hwriting : Visits .byte .fiftyEight [57, 255] ⟨[], 255, [57], []⟩ := by
    have hsplit : ([57, 255] : Bytes) = [57] ++ [255] := rfl
    have hrest : Visits .byte .fiftyEight [57, 255] (idle _ [255]) :=
      Radix.Moment.visits_idle hsplit
    rw [hdigits] at hrest
    exact hrest.tail Radix.Moment.Step.read
  have hreading : Visits .fiftyEight .byte [4, 23, 57] ⟨[], 57, [255], []⟩ := by
    have hsplit : ([4, 23, 57] : Bytes) = [4, 23] ++ [57] := rfl
    have hrest : Visits .fiftyEight .byte [4, 23, 57] (idle _ [57]) :=
      Radix.Moment.visits_idle hsplit
    rw [hbytes] at hrest
    exact hrest.tail Radix.Moment.Step.read
  obtain ⟨hencode, hdecode⟩ := invariants_of_both_loops
  obtain ⟨-, -, hencode⟩ := hencode [57, 255]
  obtain ⟨-, -, -, hdecode⟩ := hdecode _ _ hread
  obtain ⟨front, hfront, hinv⟩ := hencode _ hwriting
  obtain ⟨front', hfront', hinv'⟩ := hdecode _ hreading
  rw [List.append_nil] at hfront
  rw [List.map_nil, List.append_nil] at hfront'
  refine ⟨⟨_, hwriting, rfl, rfl, ?_⟩, hread, _, hreading, rfl, rfl, ?_⟩
  · rwa [← hfront] at hinv
  · rwa [← hfront'] at hinv'

end KeyTree.Base58
