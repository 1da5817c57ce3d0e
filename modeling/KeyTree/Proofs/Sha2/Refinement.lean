import KeyTree.Proofs.Numeral
import KeyTree.Sha2.Standard

/-!
# The digests that run against the standard

The loops of `Sha2.Variant` against the functions of `Sha2.Standard`. The loops keep a window of the
schedule and a running state and consume their input; the standard numbers every word, round and
block. Both are related once, by what a variant has to provide (`Variant.Implements`), and from
there each loop follows by what one turn of it preserves.

* **`Variant.pad_eq_padded`**: the computed number of zeros is the least that fills a block.
* **`Variant.Implements.shows_slide`** and **`Variant.Implements.map_schedule`**: the window shows
  sixteen consecutive words of the standard's schedule.
* **`Variant.Implements.map_round`** and **`Variant.Implements.map_foldl_round`**: the rounds.
* **`Variant.Implements.map_absorb`**: any number of blocks.
* **`Variant.Implements.toList_digest`**: the digest of every message.
-/

namespace KeyTree

/-- A window that lies inside the bytes, byte by byte. -/
theorem take_drop_eq_map {bytes : Bytes} {start count : Nat} (h : start + count ≤ bytes.length) :
    (bytes.drop start).take count = (List.range count).map fun j => bytes.getD (start + j) 0 := by
  have hlength : ((bytes.drop start).take count).length = count := by
    rw [List.length_take, List.length_drop]
    omega
  refine List.ext_getElem (by rw [hlength, List.length_map, List.length_range]) fun j hj _ => ?_
  have hlt : start + j < bytes.length := by omega
  simp [hlt]

namespace Sha2

namespace State

variable {α β : Type}

/-- The same state in other words. -/
def map (f : α → β) (s : State α) : State β :=
  ⟨f s.a, f s.b, f s.c, f s.d, f s.e, f s.f, f s.g, f s.h⟩

theorem toList_map (f : α → β) (s : State α) : (s.map f).toList = s.toList.map f := rfl

theorem map_add [Add α] [Add β] {f : α → β} (hf : ∀ x y, f (x + y) = f x + f y) (s t : State α) :
    (s + t).map f = s.map f + t.map f := by
  simp only [map, HAdd.hAdd, Add.add] at hf ⊢
  simp only [hf]

end State

namespace Variant

variable {α : Type} (v : Variant α)

/-! ## Padding -/

/-- The computed zeros fill the last block up. -/
theorem mod_zeros (length : Nat) :
    (length + 1 + v.zeros length + 2 * v.wordBytes) % v.blockBytes = 0 := by
  have hlen := v.blockBytes_dvd_length_pad (List.replicate length 0)
  rw [length_pad, List.length_replicate] at hlen
  rw [← Nat.mod_eq_zero_of_dvd hlen]
  congr 1
  omega

/-- Fewer zeros do not. -/
theorem mod_ne_zero_of_lt_zeros {length k : Nat} (h : k < v.zeros length) :
    (length + 1 + k + 2 * v.wordBytes) % v.blockBytes ≠ 0 := by
  intro hk
  -- both fill up, so their difference is a whole number of blocks, and less than one
  have hdvd : v.blockBytes ∣ v.zeros length - k := by
    have hsub := Nat.dvd_sub (Nat.dvd_of_mod_eq_zero (v.mod_zeros length))
      (Nat.dvd_of_mod_eq_zero hk)
    rwa [show length + 1 + v.zeros length + 2 * v.wordBytes - (length + 1 + k + 2 * v.wordBytes) =
      v.zeros length - k by omega] at hsub
  have hle := Nat.le_of_dvd (by omega) hdvd
  have hlt := v.zeros_lt length
  omega

/-- **Padding.** Both put the same bytes behind a message. -/
theorem pad_eq_padded {p : Standard.Parameters} (h : v.wordBytes = p.wordBytes) (message : Bytes) :
    v.pad message = p.padded message := by
  have hzeros : (List.range (16 * v.wordBytes)).find? (fun k =>
      (message.length + 1 + k + 2 * v.wordBytes) % (16 * v.wordBytes) = 0) =
        some (v.zeros message.length) := by
    rw [List.find?_range_eq_some]
    refine ⟨decide_eq_true (v.mod_zeros _), List.mem_range.2 (v.zeros_lt _), fun k hk => ?_⟩
    simpa [blockBytes] using v.mod_ne_zero_of_lt_zeros hk
  have hlength (n : Nat) : bigEndian (2 * v.wordBytes) n =
      (List.range (2 * v.wordBytes)).reverse.map fun i => UInt8.ofNat (n / 256 ^ i) := by
    rw [bigEndian_eq_map, List.range_eq_range', List.reverse_range', List.map_map,
      ← List.range_eq_range']
    refine List.map_congr_left fun j _ => ?_
    rw [Function.comp_apply, Nat.zero_add]
  rw [pad, Standard.Parameters.padded, ← h, hzeros, hlength, Option.getD_some, List.append_cons,
    List.append_assoc message]

/-! ## What a variant has to provide -/

variable [Add α] [AndOp α] [XorOp α] [Complement α]

/-- The words of `v` behave like the bit vectors of the standard, `bits` telling which bit vector a
word stands for, and the tables agree. -/
structure Implements (p : Standard.Parameters) (bits : α → p.Word) : Prop where
  wordBytes : v.wordBytes = p.wordBytes
  rounds : v.constants.length = p.rounds
  ofNat : ∀ n, bits (v.ofNat n) = BitVec.ofNat _ n
  toNat : ∀ x, v.toNat x = (bits x).toNat
  add : ∀ x y, bits (x + y) = bits x + bits y
  and : ∀ x y, bits (x &&& y) = bits x &&& bits y
  xor : ∀ x y, bits (x ^^^ y) = bits x ^^^ bits y
  not : ∀ x, bits (~~~ x) = ~~~ bits x
  bigSigma0 : ∀ x, bits (v.bigSigma0 x) = p.rotations p.bigSigma0 (bits x)
  bigSigma1 : ∀ x, bits (v.bigSigma1 x) = p.rotations p.bigSigma1 (bits x)
  smallSigma0 : ∀ x, bits (v.smallSigma0 x) = p.rotationsAndShift p.smallSigma0 (bits x)
  smallSigma1 : ∀ x, bits (v.smallSigma1 x) = p.rotationsAndShift p.smallSigma1 (bits x)
  constants : ∀ t (h : t < v.constants.length), bits v.constants[t] = p.constant t
  initial : v.initial.map bits = p.initial

namespace Implements

variable {v} {p : Standard.Parameters} {bits : α → p.Word} {block : Nat → p.Word} {t : Nat}

theorem blockBytes_eq (h : v.Implements p bits) : v.blockBytes = 16 * p.wordBytes := by
  rw [Variant.blockBytes, h.wordBytes]

/-! ## The schedule -/

/-- The words of a block are those that the standard finds at their numbers. -/
theorem bits_getElem_words (h : v.Implements p bits) {bytes : Bytes} {i : Nat}
    (hi : v.blockBytes * (i + 1) ≤ bytes.length) (ht : t < 16) :
    bits (v.words ((bytes.drop (v.blockBytes * i)).take v.blockBytes))[t] =
      p.blockWord bytes i t := by
  have hroom : v.wordBytes * (t + 1) ≤ v.blockBytes := by
    rw [Variant.blockBytes, Nat.mul_comm]
    exact Nat.mul_le_mul_right _ ht
  have hfirst : v.blockBytes * i + v.wordBytes * t = (16 * i + t) * v.wordBytes := by
    rw [Variant.blockBytes]
    ring
  rw [Nat.mul_succ] at hi hroom
  -- a window of a window is a window of the whole, and the whole is what the standard counts in
  have hslice : (((bytes.drop (v.blockBytes * i)).take v.blockBytes).drop (v.wordBytes * t)).take
      v.wordBytes = (bytes.drop ((16 * i + t) * v.wordBytes)).take v.wordBytes := by
    rw [List.drop_take, List.take_take, List.drop_drop, hfirst, Nat.min_eq_left (by omega)]
  rw [words, Vector.getElem_ofFn, h.ofNat, hslice, take_drop_eq_map (by omega),
    ofBigEndian_map_range, Standard.Parameters.blockWord, h.wordBytes]

/-- The window stands at word `t` of the schedule. -/
def Shows (bits : α → p.Word) (block : Nat → p.Word) (t : Nat) (window : Vector α 16) : Prop :=
  ∀ j (hj : j < 16), bits window[j] = p.schedule block (t + j)

omit [Add α] [AndOp α] [XorOp α] [Complement α] in
/-- The window begins with the words of the block. -/
theorem shows_zero {window : Vector α 16}
    (h : ∀ j (hj : j < 16), bits window[j] = block j) : Shows bits block 0 window := by
  intro j hj
  rw [h j hj, Nat.zero_add, Standard.Parameters.schedule, if_pos hj]

theorem bits_following (h : v.Implements p bits) {window : Vector α 16}
    (hshows : Shows bits block t window) :
    bits (v.following window) = p.schedule block (t + 16) := by
  rw [Variant.following, Standard.Parameters.schedule, if_neg (by omega), h.add, h.add, h.add,
    h.smallSigma0, h.smallSigma1, hshows 14 (by decide), hshows 9 (by decide),
    hshows 1 (by decide), hshows 0 (by decide)]
  rfl

/-- **The step.** A window that is moved on shows the words that begin one later. -/
theorem shows_slide (h : v.Implements p bits) {window : Vector α 16}
    (hshows : Shows bits block t window) : Shows bits block (t + 1) (v.slide window) := by
  intro j hj
  have hmoved : (v.slide window)[j] =
      if hlt : j < 15 then window[j + 1] else v.following window := by
    rw [Variant.slide, Vector.getElem_push]
    split
    · simp only [Vector.tail_eq_cast_extract, Vector.getElem_cast, Vector.getElem_extract,
        Nat.add_comm 1 j]
    · rfl
  rw [hmoved]
  -- fifteen words are those of before, and only the last one is computed
  split
  case isTrue hlt => rw [hshows (j + 1) (by omega), Nat.add_right_comm, Nat.add_assoc]
  case isFalse hge =>
    have hlast : j = 15 := by omega
    rw [h.bits_following hshows, hlast, Nat.add_assoc]

/-- **The run.** The words that are handed out are consecutive words of the schedule. -/
theorem map_schedule (h : v.Implements p bits) (count : Nat) {window : Vector α 16}
    (hshows : Shows bits block t window) :
    (v.schedule count window).map bits = (List.range' t count).map (p.schedule block) := by
  -- the window moves on with every word, so the induction is for every place where it can stand
  induction count generalizing t window with
  | zero => rfl
  | succ count ih =>
    rw [Variant.schedule, List.map_cons, ih (h.shows_slide hshows), List.range'_succ, List.map_cons,
      hshows 0 (by decide), Nat.add_zero]

/-! ## The rounds -/

/-- **The step.** One round on a state that the standard reaches is the standard's next one. -/
theorem map_round (h : v.Implements p bits) {start : State p.Word} {s : State α}
    {constant word : α} (hs : s.map bits = p.after start block t)
    (hconstant : bits constant = p.constant t) (hword : bits word = p.schedule block t) :
    (v.round s constant word).map bits = p.after start block (t + 1) := by
  rw [Standard.Parameters.after, ← hs, ← hconstant, ← hword]
  simp only [State.map, Variant.round, choose, majority, h.add, h.and, h.xor, h.not, h.bigSigma0,
    h.bigSigma1]

/-- **The run.** Any number of rounds. -/
theorem map_foldl_round (h : v.Implements p bits) {start : State p.Word} (count : Nat)
    {s : State α} {pairs : List (α × α)} (hs : s.map bits = p.after start block t)
    (hpairs : pairs.map (Prod.map bits bits) =
      (List.range' t count).map fun t => (p.constant t, p.schedule block t)) :
    (pairs.foldl (fun s (constant, word) => v.round s constant word) s).map bits =
      p.after start block (t + count) := by
  -- the first pair is that of round `t`, and the rest is that of the rounds from `t + 1` on
  induction count generalizing t s pairs with
  | zero =>
    rw [List.map_eq_nil_iff.1 hpairs]
    exact hs
  | succ count ih =>
    rw [List.range'_succ, List.map_cons, List.map_eq_cons_iff] at hpairs
    obtain ⟨⟨constant, word⟩, rest, rfl, hpair, hrest⟩ := hpairs
    obtain ⟨hconstant, hword⟩ := Prod.mk.inj hpair
    rw [List.foldl_cons, ih (h.map_round hs hconstant hword) hrest, Nat.add_right_comm,
      Nat.add_assoc]

theorem map_constants (h : v.Implements p bits) :
    v.constants.map bits = (List.range' 0 v.constants.length).map p.constant := by
  refine List.ext_getElem (by simp) fun t ht _ => ?_
  rw [List.length_map] at ht
  rw [List.getElem_map, h.constants t ht, List.getElem_map, List.getElem_range', Nat.zero_add,
    Nat.one_mul]

/-- **One block.** -/
theorem map_compress (h : v.Implements p bits) {bytes : Bytes} {i : Nat} {s : State α}
    (hi : v.blockBytes * (i + 1) ≤ bytes.length) (hs : s.map bits = p.chain bytes i) :
    (v.compress s ((bytes.drop (v.blockBytes * i)).take v.blockBytes)).map bits =
      p.chain bytes (i + 1) := by
  let window := v.words ((bytes.drop (v.blockBytes * i)).take v.blockBytes)
  -- the standard counts through constants and words alike, so both are lists over the same numbers
  have hpairs : (v.constants.zip (v.schedule v.constants.length window)).map (Prod.map bits bits) =
      (List.range' 0 v.constants.length).map fun t =>
        (p.constant t, p.schedule (p.blockWord bytes i) t) := by
    rw [← List.zip_map, h.map_constants,
      h.map_schedule _ (shows_zero fun _ ht => h.bits_getElem_words hi ht), List.zip_map']
  have hstart : s.map bits = p.after (s.map bits) (p.blockWord bytes i) 0 := rfl
  have hrounds := h.map_foldl_round v.constants.length hstart hpairs
  rw [Variant.compress, State.map_add h.add, hrounds, hs, Nat.zero_add, h.rounds]
  rfl

/-! ## The whole message -/

/-- **Any number of blocks**, of which none is cut short. -/
theorem map_absorb (h : v.Implements p bits) {bytes : Bytes} (count : Nat) {i : Nat} {s : State α}
    (hroom : v.blockBytes * (i + count) ≤ bytes.length) (hs : s.map bits = p.chain bytes i) :
    (v.absorb count s (bytes.drop (v.blockBytes * i))).map bits = p.chain bytes (i + count) := by
  -- what is left of the input after a block is the input behind one more block
  induction count generalizing i s with
  | zero => exact hs
  | succ count ih =>
    have hi : v.blockBytes * (i + 1) ≤ bytes.length :=
      Nat.le_trans (Nat.mul_le_mul_left _ (by omega)) hroom
    have hcount : i + (count + 1) = i + 1 + count := by omega
    rw [hcount] at hroom ⊢
    rw [Variant.absorb, List.drop_drop, ← Nat.mul_succ]
    exact ih hroom (h.map_compress hi hs)

theorem toList_output (h : v.Implements p bits) (s : State α) :
    (v.output s).toList = (s.map bits).toList.flatMap fun word =>
      (List.range p.wordBytes).map fun j =>
        UInt8.ofNat (word.toNat / 256 ^ (p.wordBytes - 1 - j)) := by
  rw [State.toList_map, List.flatMap_map, Variant.output]
  refine List.flatMap_congr fun word _ => ?_
  rw [bigEndian_eq_map, h.toNat, h.wordBytes]

/-- **The digest of every message is the one of the standard.** -/
theorem toList_digest (h : v.Implements p bits) (message : Bytes) :
    (v.digest message).toList = p.digest message := by
  have hwhole : v.blockBytes * (0 + (v.pad message).length / v.blockBytes) ≤
      (v.pad message).length := by
    rw [Nat.zero_add]
    exact Nat.mul_div_le _ _
  have habsorb := h.map_absorb _ hwhole h.initial
  rw [Nat.mul_zero, List.drop_zero, Nat.zero_add] at habsorb
  rw [Variant.digest, h.toList_output, habsorb, v.pad_eq_padded h.wordBytes, h.blockBytes_eq]
  rfl

end Implements

end Variant

end Sha2

end KeyTree
