import KeyTree.Proofs.Base58.Refusal

/-!
# The number behind a text in base 58

`Base58.encode` and `Base58.decode` against the positional system. A byte string is a number in base
256 and a text over the alphabet is one in base 58; either function writes the number of its
argument with as few digits as possible, behind one digit zero for every digit zero in front of the
argument.

* **`Base58.number`**: the number that a text denotes.
* **`Base58.map_some_map_symbol`**, **`Base58.number_map_symbol`**: digits looked up in the alphabet,
  and found there again.
* **`Base58.getElem?_reverse_encode`**: which digit a character shows.
* **`Base58.encode_eq_numeral`**: what is written for a byte string.
* **`Base58.decode_outcome`**: what every text whatsoever is read as.
-/

namespace KeyTree

/-- What is displayed ends in front of a zero byte, and so in front of a character that is one. -/
theorem Failure.shown_badSymbol (c : UInt8) :
    (badSymbol c).shown =
      ascii "Invalid base58 character '" ++ if c = 0 then [] else [c] ++ ascii "'" := by
  have hfront : 0 ∉ ascii "Invalid base58 character '" := by decide
  have hback : 0 ∉ ascii "'" := by decide
  show beforeNul (ascii "Invalid base58 character '" ++ [c] ++ ascii "'") = _
  rw [List.append_assoc, beforeNul_append hfront]
  by_cases hc : c = 0
  · rw [if_pos hc, hc]
    rfl
  · rw [if_neg hc, beforeNul_eq_self]
    simpa [eq_comm, hc] using hback

namespace Base58

/-- The number that a text over the alphabet denotes: each symbol is a digit, and the most
significant one stands first. -/
def number (text : Bytes) : Nat :=
  Nat.ofDigits 58 (text.reverse.map fun c => alphabet.idxOf c)

/-! ## Symbols and digits -/

theorem nodup_alphabet : alphabet.Nodup := by decide

theorem getElem?_alphabet {d : UInt8} (h : d.toNat < 58) :
    alphabet[d.toNat]? = some (symbol d) := by
  have hlt : d.toNat < alphabet.length := length_alphabet ▸ h
  rw [symbol, List.getD_eq_getElem?_getD, List.getElem?_eq_getElem hlt, Option.getD_some]

theorem idxOf_symbol {d : UInt8} (h : d.toNat < 58) : alphabet.idxOf (symbol d) = d.toNat := by
  obtain ⟨hlt, hsymbol⟩ := List.getElem?_eq_some_iff.1 (getElem?_alphabet h)
  rw [← hsymbol, nodup_alphabet.idxOf_getElem]

/-- Digits below 58 are found in the alphabet, each at its own place. -/
theorem map_some_map_symbol {ds : Bytes} (h : ∀ d ∈ ds, d.toNat < 58) :
    (ds.map symbol).map some = (ds.map UInt8.toNat).map (alphabet[·]?) := by
  rw [List.map_map, List.map_map]
  exact List.map_congr_left fun d hd => (getElem?_alphabet (h d hd)).symm

theorem number_map_symbol {ds : Bytes} (h : ∀ d ∈ ds, d.toNat < 58) :
    number (ds.map symbol) = Radix.fiftyEight.value ds.reverse := by
  have hdigits : (ds.map symbol).reverse.map (fun c => alphabet.idxOf c) =
      ds.reverse.map UInt8.toNat := by
    rw [← List.map_reverse, List.map_map]
    exact List.map_congr_left fun d hd => idxOf_symbol (h d (List.mem_reverse.1 hd))
  rw [number, hdigits]
  rfl

/-! ## Writing -/

/-- The digits that are looked up are those of the number. -/
theorem map_toNat_convert_byte (bytes : Bytes) :
    (Radix.convert .byte .fiftyEight (bytes.dropWhile (· == 0))).map UInt8.toNat =
      (Nat.digits 58 (ofBigEndian bytes)).reverse := by
  rw [Radix.convert_dropWhile_zeros, Radix.map_toNat_convert, ofBigEndian_eq_value]
  rfl

theorem length_encode (bytes : Bytes) :
    (encode bytes).length =
      (bytes.takeWhile (· == 0)).length + (Nat.digits 58 (ofBigEndian bytes)).length := by
  have hdigits := congrArg List.length (map_toNat_convert_byte bytes)
  rw [List.length_map, List.length_reverse] at hdigits
  rw [encode, List.length_append, List.length_map, List.length_map, hdigits]

theorem mem_alphabet_of_mem_encode {bytes : Bytes} {c : UInt8} (h : c ∈ encode bytes) :
    c ∈ alphabet :=
  exists_decode_eq_ok_iff.1 ⟨bytes, decode_eq_ok_iff.2 rfl⟩ c h

/-- **Each character shows one digit of the number**, counted from the end. In front of the number
stand characters that show zeros. -/
theorem getElem?_reverse_encode {bytes : Bytes} {i : Nat} (h : i < (encode bytes).length) :
    (encode bytes).reverse[i]? = alphabet[ofBigEndian bytes / 58 ^ i % 58]? := by
  let ds := (Radix.recode .byte .fiftyEight bytes).reverse
  have hreverse : (encode bytes).reverse = ds.map symbol := by
    rw [encode_eq_map_symbol, ← List.map_reverse]
  have hlt : ∀ d ∈ ds, d.toNat < 58 :=
    fun d hd => Radix.lt_base_of_mem_recode .byte .fiftyEight (List.mem_reverse.1 hd)
  have hi : i < ds.length := by rwa [← List.length_reverse, hreverse, List.length_map] at h
  have hdigit : ds[i].toNat = ofBigEndian bytes / 58 ^ i % 58 := by
    rw [Radix.toNat_getElem (r := .fiftyEight) hlt hi, ofBigEndian_eq_value,
      Radix.value_recode .byte .fiftyEight]
    rfl
  rw [hreverse, List.getElem?_map, List.getElem?_eq_getElem hi, ← hdigit,
    getElem?_alphabet (hlt _ (List.getElem_mem hi)), Option.map_some]

/-- **What is written for a byte string**: `1` for each of its leading zeros, and behind these the
symbols of the digits of its number. No digit is beyond the end of the alphabet. -/
theorem encode_eq_numeral (bytes : Bytes) :
    (encode bytes).map some =
        List.replicate (bytes.takeWhile (· == 0)).length (some '1'.toUInt8) ++
          (Nat.digits 58 (ofBigEndian bytes)).reverse.map (alphabet[·]?) ∧
      (Radix.convert .byte .fiftyEight (bytes.dropWhile (· == 0))).map UInt8.toNat =
        (Nat.digits 58 (ofBigEndian bytes)).reverse ∧
      ∀ d ∈ Radix.convert .byte .fiftyEight (bytes.dropWhile (· == 0)), d.toNat < 58 := by
  have hdigits := map_toNat_convert_byte bytes
  have hlt : ∀ d ∈ Radix.convert .byte .fiftyEight (bytes.dropWhile (· == 0)), d.toNat < 58 :=
    fun d hd => Radix.lt_base_of_mem_convert .byte .fiftyEight hd
  refine ⟨?_, hdigits, hlt⟩
  rw [encode, List.map_append, map_some_map_symbol hlt, hdigits, List.map_const',
    List.map_replicate]
  rfl

/-! ## Reading -/

/-- **A text over the alphabet is read as its number**, behind a zero byte for each leading `1`. -/
theorem decode_of_forall_mem {text : Bytes} (h : ∀ c ∈ text, c ∈ alphabet) :
    decode text = .ok (List.replicate (text.takeWhile (· == zero)).length 0 ++
      (Nat.digits 256 (number text)).reverse.map UInt8.ofNat) := by
  obtain ⟨bytes, hbytes⟩ := exists_decode_eq_ok_iff.2 h
  obtain ⟨ds, hread, -⟩ := Fallible.bind_eq_ok_iff.1 hbytes
  obtain ⟨hds, htext⟩ := mapM_readSymbol_eq_ok_iff.1 hread
  have hnumber : (Radix.convert .fiftyEight .byte ds).map UInt8.toNat =
      (Nat.digits 256 (number text)).reverse := by
    rw [Radix.map_toNat_convert, htext, number_map_symbol hds]
    rfl
  have hdigits : Radix.convert .fiftyEight .byte ds =
      (Nat.digits 256 (number text)).reverse.map UInt8.ofNat := by
    -- no digit exceeds a byte, so none is changed on the way to a number and back
    rw [← hnumber, List.map_map]
    simp [Function.comp_def]
  unfold decode
  rw [hread, ← hdigits, List.map_const']
  rfl

/-- **What a text is read as.** Over the alphabet it is read as its number, in bytes and with as few
of them as possible, behind a zero byte for each leading `1`. Any other text is refused for its first
character outside the alphabet, whatever stands around it, and the wording has that one byte. -/
theorem decode_outcome (text : Bytes) :
    (∀ bytes, decode text = .ok bytes ↔
      (∀ c ∈ text, c ∈ alphabet) ∧
        bytes = List.replicate (text.takeWhile (· == '1'.toUInt8)).length 0 ++
          (Nat.digits 256 (number text)).reverse.map UInt8.ofNat) ∧
      ∀ failure, decode text = .error failure ↔
        ∃ before c after, text = before ++ c :: after ∧ (∀ b ∈ before, b ∈ alphabet) ∧
          c ∉ alphabet ∧ failure = .badSymbol c ∧ failure.category = .malformedText ∧
          failure.message = ascii "Invalid base58 character '" ++ [c] ++ ascii "'" ∧
          failure.shown =
            ascii "Invalid base58 character '" ++ if c = 0 then [] else [c] ++ ascii "'" := by
  refine ⟨fun bytes => ⟨fun h => ?read, ?readBack⟩, fun failure => ⟨fun h => ?refused, ?refusal⟩⟩
  case read =>
    have hall := exists_decode_eq_ok_iff.1 ⟨bytes, h⟩
    rw [decode_of_forall_mem hall] at h
    exact ⟨hall, (Except.ok.inj h).symm⟩
  case readBack =>
    rintro ⟨hall, rfl⟩
    exact decode_of_forall_mem hall
  case refused =>
    obtain ⟨before, c, after, htext, hbefore, hc, rfl⟩ := decode_eq_error_iff.1 h
    exact ⟨before, c, after, htext, hbefore, hc, rfl, rfl, rfl, Failure.shown_badSymbol c⟩
  case refusal =>
    rintro ⟨before, c, after, htext, hbefore, hc, hfailure, -⟩
    exact decode_eq_error_iff.2 ⟨before, c, after, htext, hbefore, hc, hfailure⟩

end Base58

end KeyTree
