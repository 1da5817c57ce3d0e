import KeyTree.Hex
import KeyTree.Proofs.Fallible

/-!
# Hexadecimal text, pair by pair

A text of even length is a list of pairs, and each pair stands for a byte or is to blame. So a text
is read exactly if all of its characters are digits, and what is read is written again in small
letters. Otherwise the first pair with a fault decides, once the length is in order.

* **`Hex.IsDigit`**, **`Hex.lower`**: the characters that are digits, in letters of either case, and
  their spelling in small letters.
* **`Hex.pairs`**: a text of even length as pairs (`Hex.join_pairs`), which is how it is read
  (`Hex.decodePairs_eq_mapM`).
* **`Hex.decode_eq_ok_iff`**: what is read, by what is written for it.
* **`Hex.Refused`**: a text and the fault that it is refused for, said without the reader
  (`Hex.decode_eq_error_iff`).
* **`Hex.outcome_of_every_text`**: what every text whatsoever is read as.
-/

namespace KeyTree.Hex

/-! ## Digits -/

/-- A digit, in a letter of either case if it is one. -/
def IsDigit (c : UInt8) : Prop :=
  ('0'.toUInt8 ≤ c ∧ c ≤ '9'.toUInt8) ∨ ('a'.toUInt8 ≤ c ∧ c ≤ 'f'.toUInt8) ∨
    ('A'.toUInt8 ≤ c ∧ c ≤ 'F'.toUInt8)

instance (c : UInt8) : Decidable (IsDigit c) :=
  inferInstanceAs (Decidable (_ ∨ _))

/-- A capital letter from `A` to `F` as a small one; other characters as they are. -/
def lower (c : UInt8) : UInt8 :=
  if 'A'.toUInt8 ≤ c ∧ c ≤ 'F'.toUInt8 then c + 32 else c

theorem digitValue?_eq_none_iff {c : UInt8} : digitValue? c = none ↔ ¬ IsDigit c := by
  unfold digitValue? IsDigit
  split
  · next h => simp [h]
  · next h =>
    split
    · next h' => simp [h']
    · next h' => simp [h, h']

theorem lower_of_lt {c : UInt8} (h : c.toNat < 65) : lower c = c := by
  refine if_neg fun hcapital => ?_
  have hlow : 65 ≤ c.toNat := UInt8.le_iff_toNat_le.1 hcapital.1
  omega

theorem lower_of_gt {c : UInt8} (h : 70 < c.toNat) : lower c = c := by
  refine if_neg fun hcapital => ?_
  have hhigh : c.toNat ≤ 70 := UInt8.le_iff_toNat_le.1 hcapital.2
  omega

theorem toNat_digit_of_lt {value : Nat} (h : value < 10) : (digit value).toNat = 48 + value := by
  have all : ∀ v ∈ List.range 10, (digit v).toNat = 48 + v := by decide
  exact all value (List.mem_range.2 h)

theorem toNat_digit_of_ge {value : Nat} (hlow : 10 ≤ value) (h : value < 16) :
    (digit value).toNat = 87 + value := by
  have all : ∀ v ∈ List.range 16, 10 ≤ v → (digit v).toNat = 87 + v := by decide
  exact all value (List.mem_range.2 h) hlow

/-- The value of a character is that of its small spelling. -/
theorem digit_of_digitValue? {c : UInt8} {value : Nat} (h : digitValue? c = some value) :
    value < 16 ∧ digit value = lower c := by
  unfold digitValue? at h
  split at h
  · next hdecimal =>
    have hlow : 48 ≤ c.toNat := UInt8.le_iff_toNat_le.1 hdecimal.1
    have hhigh : c.toNat ≤ 57 := UInt8.le_iff_toNat_le.1 hdecimal.2
    have hvalue : c.toNat - 48 = value := Option.some.inj h
    refine ⟨by omega, ?_⟩
    rw [lower_of_lt (by omega), ← UInt8.toNat_inj, toNat_digit_of_lt (by omega)]
    omega
  · split at h
    · next hsmall =>
      have hlow : 97 ≤ c.toNat := UInt8.le_iff_toNat_le.1 hsmall.1
      have hhigh : c.toNat ≤ 102 := UInt8.le_iff_toNat_le.1 hsmall.2
      have hvalue : c.toNat - 97 + 10 = value := Option.some.inj h
      refine ⟨by omega, ?_⟩
      rw [lower_of_gt (by omega), ← UInt8.toNat_inj, toNat_digit_of_ge (by omega) (by omega)]
      omega
    · split at h
      · next hcapital =>
        have hlow : 65 ≤ c.toNat := UInt8.le_iff_toNat_le.1 hcapital.1
        have hhigh : c.toNat ≤ 70 := UInt8.le_iff_toNat_le.1 hcapital.2
        have hvalue : c.toNat - 65 + 10 = value := Option.some.inj h
        have hsmall : (c + 32).toNat = c.toNat + 32 := by
          rw [UInt8.toNat_add]
          show (c.toNat + 32) % 256 = c.toNat + 32
          omega
        refine ⟨by omega, ?_⟩
        rw [lower, if_pos hcapital, ← UInt8.toNat_inj, toNat_digit_of_ge (by omega) (by omega),
          hsmall]
        omega
      · cases h

/-- A value has one digit, and a character that is a digit shows it in its small spelling. -/
theorem digitValue?_eq_some_iff {c : UInt8} {value : Nat} :
    digitValue? c = some value ↔ IsDigit c ∧ value < 16 ∧ digit value = lower c := by
  refine ⟨fun h => ?_, fun h => ?_⟩
  · refine ⟨?_, digit_of_digitValue? h⟩
    by_contra hc
    rw [digitValue?_eq_none_iff.2 hc] at h
    cases h
  · obtain ⟨hc, hlt, hdigit⟩ := h
    cases hvalue : digitValue? c with
    | none => exact absurd hc (digitValue?_eq_none_iff.1 hvalue)
    | some other =>
      -- two values with one digit are one value, since the digit is read as either
      obtain ⟨hother, hsame⟩ := digit_of_digitValue? hvalue
      rw [← digitValue?_digit hother, hsame, ← hdigit, digitValue?_digit hlt]

theorem readDigit_eq_ok_iff {c : UInt8} {value : Nat} :
    readDigit c = .ok value ↔ IsDigit c ∧ value < 16 ∧ digit value = lower c := by
  rw [← digitValue?_eq_some_iff]
  unfold readDigit
  cases digitValue? c with
  | none => simp
  | some other => simp

theorem readDigit_eq_error_iff {c : UInt8} {e : Error} :
    readDigit c = .error e ↔ ¬ IsDigit c ∧ e = .badDigit c := by
  rw [← digitValue?_eq_none_iff]
  unfold readDigit
  cases digitValue? c with
  | none => simp [eq_comm]
  | some other => simp

theorem exists_readDigit_eq_ok_iff {c : UInt8} :
    (∃ value, readDigit c = .ok value) ↔ IsDigit c := by
  refine ⟨fun h => ?_, fun hc => ?_⟩
  · obtain ⟨value, hvalue⟩ := h
    exact (readDigit_eq_ok_iff.1 hvalue).1
  · cases h : readDigit c with
    | ok value => exact ⟨value, rfl⟩
    | error e => exact absurd hc (readDigit_eq_error_iff.1 h).1

/-! ## Pairs -/

/-- The characters two by two. One that is left over is left out. -/
def pairs : Bytes → List (UInt8 × UInt8)
  | first :: second :: rest => (first, second) :: pairs rest
  | _ => []

def join (ps : List (UInt8 × UInt8)) : Bytes :=
  ps.flatMap fun p => [p.1, p.2]

@[simp] theorem join_nil : join [] = [] := rfl

@[simp] theorem join_cons (p : UInt8 × UInt8) (ps : List (UInt8 × UInt8)) :
    join (p :: ps) = p.1 :: p.2 :: join ps := rfl

theorem join_append (ps qs : List (UInt8 × UInt8)) : join (ps ++ qs) = join ps ++ join qs :=
  List.flatMap_append

theorem length_join (ps : List (UInt8 × UInt8)) : (join ps).length = 2 * ps.length := by
  induction ps with
  | nil => rfl
  | cons p ps ih =>
    rw [join_cons, List.length_cons, List.length_cons, List.length_cons, ih]
    omega

theorem forall_mem_join {P : UInt8 → Prop} {ps : List (UInt8 × UInt8)} :
    (∀ c ∈ join ps, P c) ↔ ∀ p ∈ ps, P p.1 ∧ P p.2 := by
  induction ps with
  | nil => simp
  | cons p ps ih =>
    rw [join_cons, List.forall_mem_cons, List.forall_mem_cons, List.forall_mem_cons, ih, and_assoc]

theorem join_pairs {text : Bytes} (h : text.length % 2 = 0) : join (pairs text) = text := by
  induction text using pairs.induct with
  | case1 first second rest ih =>
    have hrest : rest.length % 2 = 0 := by
      simp only [List.length_cons] at h
      omega
    rw [pairs, join_cons, ih hrest]
  | case2 text hshort =>
    match text, hshort with
    | [], _ => rfl
    | [_], _ => simp at h
    | first :: second :: rest, hshort => exact absurd rfl (hshort first second rest)

theorem pairs_append {front : Bytes} (h : front.length % 2 = 0) (back : Bytes) :
    pairs (front ++ back) = pairs front ++ pairs back := by
  induction front using pairs.induct with
  | case1 first second rest ih =>
    have hrest : rest.length % 2 = 0 := by
      simp only [List.length_cons] at h
      omega
    rw [List.cons_append, List.cons_append, pairs, ih hrest]
    rfl
  | case2 front hshort =>
    match front, hshort with
    | [], _ => rfl
    | [_], _ => simp at h
    | first :: second :: rest, hshort => exact absurd rfl (hshort first second rest)

def readPair (p : UInt8 × UInt8) : Except Error UInt8 := do
  let u ← readDigit p.1
  let l ← readDigit p.2
  return UInt8.ofNat (16 * u + l)

theorem decodePairs_eq_mapM (text : Bytes) : decodePairs text = (pairs text).mapM readPair := by
  induction text using pairs.induct with
  | case1 first second rest ih =>
    rw [decodePairs, pairs, List.mapM_cons, ih]
    simp only [readPair, bind_assoc, pure_bind]
  | case2 text hshort =>
    rw [decodePairs.eq_2 text hshort, pairs.eq_2 text hshort]
    rfl

/-- **A pair stands for a byte** if the byte is spelled by the pair's small letters. -/
theorem readPair_eq_ok_iff {p : UInt8 × UInt8} {b : UInt8} :
    readPair p = .ok b ↔
      (IsDigit p.1 ∧ IsDigit p.2) ∧ digit (b.toNat / 16) = lower p.1 ∧
        digit (b.toNat % 16) = lower p.2 := by
  unfold readPair
  simp only [Fallible.bind_eq_ok_iff, readDigit_eq_ok_iff, pure, Except.pure, Except.ok.injEq]
  refine ⟨fun h => ?_, fun h => ?_⟩
  · obtain ⟨u, ⟨hfirst, hu, hdigit⟩, l, ⟨hsecond, hl, hdigit'⟩, rfl⟩ := h
    have hb : (UInt8.ofNat (16 * u + l)).toNat = 16 * u + l := by
      rw [UInt8.toNat_ofNat']
      exact Nat.mod_eq_of_lt (by omega)
    have hupper : (16 * u + l) / 16 = u := by omega
    have hlower : (16 * u + l) % 16 = l := by omega
    rw [hb, hupper, hlower]
    exact ⟨⟨hfirst, hsecond⟩, hdigit, hdigit'⟩
  · obtain ⟨⟨hfirst, hsecond⟩, hdigit, hdigit'⟩ := h
    have hb : b.toNat < 256 := b.toNat_lt
    have hsum : 16 * (b.toNat / 16) + b.toNat % 16 = b.toNat := by omega
    refine ⟨_, ⟨hfirst, by omega, hdigit⟩, _, ⟨hsecond, by omega, hdigit'⟩, ?_⟩
    rw [hsum, UInt8.ofNat_toNat]

/-- The left character of a pair is judged first. -/
theorem readPair_eq_error_iff {p : UInt8 × UInt8} {e : Error} :
    readPair p = .error e ↔
      ¬ IsDigit p.1 ∧ e = .badDigit p.1 ∨ IsDigit p.1 ∧ ¬ IsDigit p.2 ∧ e = .badDigit p.2 := by
  unfold readPair
  rw [Fallible.bind_eq_error_iff, readDigit_eq_error_iff, ← exists_readDigit_eq_ok_iff,
    ← exists_and_right]
  simp only [Fallible.bind_eq_error_iff, readDigit_eq_error_iff, pure, Except.pure, reduceCtorEq,
    and_false, exists_false, or_false]

theorem exists_readPair_eq_ok_iff {p : UInt8 × UInt8} :
    (∃ b, readPair p = .ok b) ↔ IsDigit p.1 ∧ IsDigit p.2 := by
  refine ⟨fun h => ?_, fun hp => ?_⟩
  · obtain ⟨b, hb⟩ := h
    exact (readPair_eq_ok_iff.1 hb).1
  · cases h : readPair p with
    | ok b => exact ⟨b, rfl⟩
    | error e =>
      rcases readPair_eq_error_iff.1 h with ⟨hfirst, -⟩ | ⟨-, hsecond, -⟩
      · exact absurd hp.1 hfirst
      · exact absurd hp.2 hsecond

/-! ## Texts -/

theorem encode_cons (b : UInt8) (bytes : Bytes) :
    encode (b :: bytes) = digit (b.toNat / 16) :: digit (b.toNat % 16) :: encode bytes := rfl

theorem mapM_readPair_eq_ok_iff {ps : List (UInt8 × UInt8)} {bytes : Bytes} :
    ps.mapM readPair = .ok bytes ↔
      (∀ c ∈ join ps, IsDigit c) ∧ encode bytes = (join ps).map lower := by
  rw [Fallible.mapM_eq_ok_iff]
  induction ps generalizing bytes with
  | nil =>
    cases bytes with
    | nil => simp [encode]
    | cons b bytes => simp [encode_cons]
  | cons p ps ih =>
    cases bytes with
    | nil => simp [encode]
    | cons b bytes =>
      rw [List.forall₂_cons, readPair_eq_ok_iff, ih]
      simp only [join_cons, List.forall_mem_cons, encode_cons, List.map_cons, List.cons.injEq]
      tauto

/-- **What is read is written again in small letters**, and nothing else is. -/
theorem decode_eq_ok_iff {text bytes : Bytes} :
    decode text = .ok bytes ↔
      text.length % 2 = 0 ∧ (∀ c ∈ text, IsDigit c) ∧ encode bytes = text.map lower := by
  unfold decode
  by_cases heven : text.length % 2 = 0
  · rw [if_pos heven, decodePairs_eq_mapM, mapM_readPair_eq_ok_iff, join_pairs heven]
    exact (and_iff_right heven).symm
  · rw [if_neg heven]
    simp [heven]

/-- A text and the fault that it is refused for. Its length is judged first, then its pairs from the
left, and of a pair the left character. -/
inductive Refused : Bytes → Error → Prop where
  | length {text : Bytes} (hodd : text.length % 2 = 1) : Refused text .oddLength
  | first {front back : Bytes} {c other : UInt8} (hfront : front.length % 2 = 0)
      (hdigits : ∀ d ∈ front, IsDigit d) (hc : ¬ IsDigit c) (hback : back.length % 2 = 0) :
      Refused (front ++ c :: other :: back) (.badDigit c)
  | second {front back : Bytes} {c other : UInt8} (hfront : front.length % 2 = 0)
      (hdigits : ∀ d ∈ front, IsDigit d) (hother : IsDigit other) (hc : ¬ IsDigit c)
      (hback : back.length % 2 = 0) : Refused (front ++ other :: c :: back) (.badDigit c)

/-- The pair behind a front of digits decides, once the length is in order. -/
theorem decode_of_readPair {front back : Bytes} {p : UInt8 × UInt8} {e : Error}
    (hfront : front.length % 2 = 0) (hdigits : ∀ d ∈ front, IsDigit d)
    (hback : back.length % 2 = 0) (h : readPair p = .error e) :
    decode (front ++ p.1 :: p.2 :: back) = .error e := by
  have heven : (front ++ p.1 :: p.2 :: back).length % 2 = 0 := by
    rw [List.length_append, List.length_cons, List.length_cons]
    omega
  rw [decode, if_pos heven, decodePairs_eq_mapM, Fallible.mapM_eq_error_iff]
  refine ⟨pairs front, p, pairs back, pairs_append hfront _, ?_, h⟩
  rw [← join_pairs hfront, forall_mem_join] at hdigits
  exact fun q hq => exists_readPair_eq_ok_iff.2 (hdigits q hq)

/-- **A text is refused with exactly the failure of its fault.** -/
theorem decode_eq_error_iff {text : Bytes} {e : Error} :
    decode text = .error e ↔ Refused text e := by
  refine ⟨fun h => ?_, fun h => ?_⟩
  · by_cases heven : text.length % 2 = 0
    · rw [decode, if_pos heven, decodePairs_eq_mapM, Fallible.mapM_eq_error_iff] at h
      obtain ⟨before, p, after, hpairs, hbefore, hp⟩ := h
      have htext : text = join before ++ p.1 :: p.2 :: join after := by
        rw [← join_pairs heven, hpairs, join_append, join_cons]
      have hfront : (join before).length % 2 = 0 := by
        rw [length_join]
        omega
      have hback : (join after).length % 2 = 0 := by
        rw [length_join]
        omega
      have hdigits : ∀ d ∈ join before, IsDigit d :=
        forall_mem_join.2 fun q hq => exists_readPair_eq_ok_iff.1 (hbefore q hq)
      rw [htext]
      rcases readPair_eq_error_iff.1 hp with ⟨hc, rfl⟩ | ⟨hother, hc, rfl⟩
      · exact .first hfront hdigits hc hback
      · exact .second hfront hdigits hother hc hback
    · rw [decode, if_neg heven] at h
      rw [← Except.error.inj h]
      exact .length (by omega)
  · cases h with
    | length hodd => exact if_neg (by omega)
    | @first front back c other hfront hdigits hc hback =>
      have hp : readPair (c, other) = .error (.badDigit c) :=
        readPair_eq_error_iff.2 (Or.inl ⟨hc, rfl⟩)
      exact decode_of_readPair hfront hdigits hback hp
    | @second front back c other hfront hdigits hother hc hback =>
      have hp : readPair (other, c) = .error (.badDigit c) :=
        readPair_eq_error_iff.2 (Or.inr ⟨hother, hc, rfl⟩)
      exact decode_of_readPair hfront hdigits hback hp

theorem exists_decode_eq_ok_iff {text : Bytes} :
    (∃ bytes, decode text = .ok bytes) ↔ text.length % 2 = 0 ∧ ∀ c ∈ text, IsDigit c := by
  refine ⟨fun h => ?_, fun h => ?_⟩
  · obtain ⟨bytes, hbytes⟩ := h
    obtain ⟨heven, hdigits, -⟩ := decode_eq_ok_iff.1 hbytes
    exact ⟨heven, hdigits⟩
  · obtain ⟨heven, hdigits⟩ := h
    cases hread : decode text with
    | ok bytes => exact ⟨bytes, rfl⟩
    | error e =>
      cases decode_eq_error_iff.1 hread with
      | length hodd => omega
      | first _ _ hc _ | second _ _ _ hc _ => exact absurd (hdigits _ (by simp)) hc

theorem decode_eq_oddLength_iff {text : Bytes} :
    decode text = .error .oddLength ↔ text.length % 2 = 1 := by
  refine ⟨fun h => ?_, fun hodd => decode_eq_error_iff.2 (.length hodd)⟩
  cases decode_eq_error_iff.1 h with
  | length hodd => exact hodd

/-- A character that is no digit is named out of the first pair that has one. -/
theorem exists_badDigit_iff {text : Bytes} :
    (text.length % 2 = 0 ∧ ∃ c ∈ text, ¬ IsDigit c) ↔
      ∃ front first second back c, text = front ++ first :: second :: back ∧
        front.length % 2 = 0 ∧ (∀ d ∈ front, IsDigit d) ∧ c ∈ [first, second] ∧ ¬ IsDigit c ∧
        decode text = .error (.badDigit c) := by
  refine ⟨fun h => ?_, fun h => ?_⟩
  · obtain ⟨heven, c, hmem, hc⟩ := h
    cases hread : decode text with
    | ok bytes => exact absurd ((decode_eq_ok_iff.1 hread).2.1 c hmem) hc
    | error e =>
      cases decode_eq_error_iff.1 hread with
      | length hodd => omega
      | first hfront hdigits hbad _ =>
        exact ⟨_, _, _, _, _, rfl, hfront, hdigits, by simp, hbad, rfl⟩
      | second hfront hdigits _ hbad _ =>
        exact ⟨_, _, _, _, _, rfl, hfront, hdigits, by simp, hbad, rfl⟩
  · obtain ⟨front, first, second, back, c, rfl, -, -, hmem, hc, hread⟩ := h
    refine ⟨?_, c, List.mem_append_right _ ?_, hc⟩
    · by_contra hodd
      rw [decode, if_neg hodd] at hread
      cases hread
    · rcases List.mem_pair.1 hmem with rfl | rfl
      · exact List.mem_cons_self
      · exact List.mem_cons_of_mem _ List.mem_cons_self

/-- **What every text is read as.** What was written is read back. A text is read exactly if its
length is even and all of its characters are digits, and what is written for the result is the text
in small letters. A text of odd length is refused for its length, whatever its characters are, and
any other one for a character of the first pair that has a fault; the wording names that
character. -/
theorem outcome_of_every_text :
    (∀ bytes, decode (encode bytes) = .ok bytes) ∧
      (∀ text, (∃ bytes, decode text = .ok bytes) ↔
        text.length % 2 = 0 ∧ ∀ c ∈ text, IsDigit c) ∧
      (∀ text bytes, decode text = .ok bytes ↔
        text.length % 2 = 0 ∧ (∀ c ∈ text, IsDigit c) ∧ encode bytes = text.map lower) ∧
      (∀ text, decode text = .error .oddLength ↔ text.length % 2 = 1) ∧
      (∀ text, (text.length % 2 = 0 ∧ ∃ c ∈ text, ¬ IsDigit c) ↔
        ∃ front first second back c, text = front ++ first :: second :: back ∧
          front.length % 2 = 0 ∧ (∀ d ∈ front, IsDigit d) ∧ c ∈ [first, second] ∧ ¬ IsDigit c ∧
          decode text = .error (.badDigit c)) ∧
      Error.oddLength.message = ascii "Invalid hex string length" ∧
      ∀ c, (Error.badDigit c).message = ascii "Invalid hex character '" ++ [c] ++ ascii "'" :=
  ⟨decode_encode, fun _ => exists_decode_eq_ok_iff, fun _ _ => decode_eq_ok_iff,
    fun _ => decode_eq_oddLength_iff, fun _ => exists_badDigit_iff, rfl, fun _ => rfl⟩

/-- The length hides the bad character, and a byte above 127 is one. -/
example : decode (ascii "0g1") = .error .oddLength ∧
    decode (ascii "0F" ++ [0xc3, 0xa9]) = .error (.badDigit 0xc3) := by decide

end KeyTree.Hex
