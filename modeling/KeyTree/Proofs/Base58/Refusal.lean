import KeyTree.Proofs.Base58.Check

/-!
# What a text in base 58 is refused for

The characters are judged before anything else, then whether there are bytes enough for a checksum,
then the checksum itself. Four bytes or more are a payload with four bytes behind it, and every such
pair has a text. So these four decide in the end, whichever of their bits are wrong and whatever
zeros the payload or they themselves begin with.

* **`decode_eq_error_iff`**: a text is refused for its first character outside the alphabet.
* **`Check.decode_eq_ite`**: a text that is read as a payload and four bytes.
* **`Check.Verdict`**: what a text with a checksum comes to, said without the reader. Every text
  comes to something (`Check.exists_verdict`), and the reader says what (`Check.decode_eq_iff`).
* **`Check.verdict_of_every_text`**: the verdict on all texts, tampered ones included.
-/

namespace KeyTree.Base58

theorem readSymbol_eq_error_iff {c : UInt8} {failure : Failure} :
    readSymbol c = .error failure ↔ c ∉ alphabet ∧ failure = .badSymbol c := by
  rw [← digit?_eq_none_iff]
  unfold readSymbol
  cases digit? c with
  | none => simp [eq_comm]
  | some d => simp

/-- **A text is refused for its first character outside the alphabet.** -/
theorem decode_eq_error_iff {text : Bytes} {failure : Failure} :
    decode text = .error failure ↔
      ∃ before c after, text = before ++ c :: after ∧ (∀ b ∈ before, b ∈ alphabet) ∧
        c ∉ alphabet ∧ failure = .badSymbol c := by
  have hread : decode text = .error failure ↔ text.mapM readSymbol = .error failure :=
    Fallible.map_eq_error_iff
  rw [hread, Fallible.mapM_eq_error_iff]
  simp only [exists_readSymbol_eq_ok_iff, readSymbol_eq_error_iff]

namespace Check

variable {checksum : Bytes → FixedBytes checksumSize} {text : Bytes}

theorem decode_of_decode {bytes : Bytes} (h : Base58.decode text = .ok bytes) :
    decode checksum text = verify checksum bytes := by
  unfold decode
  rw [h]
  rfl

/-- **A text that is read as a payload and four bytes** is judged by these four alone. -/
theorem decode_eq_ite {payload : Bytes} {last : FixedBytes checksumSize}
    (h : Base58.decode text = .ok (payload ++ last.toList)) :
    decode checksum text =
      if last = checksum payload then .ok payload else .error .checksumMismatch := by
  rw [decode_of_decode h]
  exact verify_append checksum payload last

variable (checksum) in
/-- What a text comes to. -/
inductive Verdict : Bytes → Except Failure Bytes → Prop where
  /-- The first character outside the alphabet is the one to blame. -/
  | foreign {before after : Bytes} {c : UInt8} (hbefore : ∀ b ∈ before, b ∈ alphabet)
      (hc : c ∉ alphabet) : Verdict (before ++ c :: after) (.error (.badSymbol c))
  | short {text bytes : Bytes} (hread : Base58.decode text = .ok bytes)
      (hshort : bytes.length < checksumSize) : Verdict text (.error .checksumMissing)
  | tampered {text payload : Bytes} {last : FixedBytes checksumSize}
      (hread : Base58.decode text = .ok (payload ++ last.toList)) (hlast : last ≠ checksum payload) :
      Verdict text (.error .checksumMismatch)
  | genuine {text payload : Bytes} {last : FixedBytes checksumSize}
      (hread : Base58.decode text = .ok (payload ++ last.toList)) (hlast : last = checksum payload) :
      Verdict text (.ok payload)

variable {outcome : Except Failure Bytes}

theorem Verdict.decode_eq (h : Verdict checksum text outcome) : decode checksum text = outcome := by
  cases h with
  | @foreign before after c hbefore hc =>
    have hread : Base58.decode (before ++ c :: after) = .error (.badSymbol c) :=
      Base58.decode_eq_error_iff.2 ⟨before, c, after, rfl, hbefore, hc, rfl⟩
    exact Fallible.bind_eq_error_iff.2 (Or.inl hread)
  | short hread hshort =>
    rw [decode_of_decode hread]
    exact if_pos hshort
  | tampered hread hlast => rw [decode_eq_ite hread, if_neg hlast]
  | genuine hread hlast => rw [decode_eq_ite hread, if_pos hlast]

variable (checksum text) in
theorem exists_verdict : ∃ outcome, Verdict checksum text outcome := by
  cases hread : Base58.decode text with
  | error failure =>
    obtain ⟨before, c, after, rfl, hbefore, hc, -⟩ := Base58.decode_eq_error_iff.1 hread
    exact ⟨_, .foreign hbefore hc⟩
  | ok bytes =>
    rcases Nat.lt_or_ge bytes.length checksumSize with hshort | hlong
    · exact ⟨_, .short hread hshort⟩
    · obtain ⟨payload, last, rfl⟩ := FixedBytes.exists_eq_append hlong
      by_cases hlast : last = checksum payload
      · exact ⟨_, .genuine hread hlast⟩
      · exact ⟨_, .tampered hread hlast⟩

/-- **The reader gives the verdict**, that and no other. -/
theorem decode_eq_iff : decode checksum text = outcome ↔ Verdict checksum text outcome := by
  refine ⟨fun h => ?_, Verdict.decode_eq⟩
  obtain ⟨verdict, hverdict⟩ := exists_verdict checksum text
  rw [← h, hverdict.decode_eq]
  exact hverdict

theorem category_isDecode_of_decode {failure : Failure}
    (h : decode checksum text = .error failure) : failure.category.isDecode = true := by
  cases decode_eq_iff.1 h with
  | foreign _ _ | short _ _ | tampered _ _ => rfl

variable (checksum) in
/-- **The verdict on every text**, whatever the checksum is. The characters are judged first, then
whether there are four bytes, then these; and of all the ways to end a payload in four bytes, the
checksum is the only one that is accepted. -/
theorem verdict_of_every_text :
    (∀ text outcome, decode checksum text = outcome ↔ Verdict checksum text outcome) ∧
      (∀ text, (∃ bytes, Base58.decode text = .ok bytes) ↔ ∀ c ∈ text, c ∈ alphabet) ∧
      (∀ c, (Failure.badSymbol c).category = .malformedText ∧
        (Failure.badSymbol c).message = ascii "Invalid base58 character '" ++ [c] ++ ascii "'") ∧
      (Failure.checksumMissing.category = .malformedText ∧
        Failure.checksumMissing.message = ascii "Base58check string too short for checksum") ∧
      Failure.checksumMismatch.category = .checksumMismatch ∧
      ∀ payload (last : FixedBytes checksumSize),
        decode checksum (Base58.encode (payload ++ last.toList)) =
          if last = checksum payload then .ok payload else .error .checksumMismatch := by
  refine ⟨fun _ _ => decode_eq_iff, fun _ => exists_decode_eq_ok_iff, fun _ => ⟨rfl, rfl⟩,
    ⟨rfl, rfl⟩, rfl, ?tampering⟩
  case tampering =>
    intro payload last
    exact decode_eq_ite (Base58.decode_eq_ok_iff.2 rfl)

end Check

end KeyTree.Base58
