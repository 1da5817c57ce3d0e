import KeyTree.Proofs.Base58.Numeral
import KeyTree.Wif

/-!
# The text of a private key

In base 58 with a checksum every private key takes up the same number of bytes, and the first byte
is always the same one. So the number that is written lies in a narrow range, whatever the key is
and whatever four bytes its checksum is.

* **`Wif.ofBigEndian_stamp_bounds`**: the range.
* **`Wif.length_text`**: every text has 52 characters.
* **`Wif.Shape`**: the length, the alphabet and the two characters in front that the range leaves
  room for.
* **`Wif.shape_of_every_text`**: every text has that shape.
-/

namespace KeyTree.Wif

variable (checksum : Bytes → FixedBytes Base58.Check.checksumSize) (key : FixedBytes 32)

theorem ofBigEndian_stamp_bounds :
    0xef * 256 ^ 37 ≤ ofBigEndian (Base58.Check.stamp checksum (payload key)) ∧
      ofBigEndian (Base58.Check.stamp checksum (payload key)) < 0xf0 * 256 ^ 37 := by
  let rest := key.toList ++ [compressed] ++ (checksum (payload key)).toList
  have hlength : rest.length = 37 := by simp [rest, Base58.Check.checksumSize]
  have hrest := ofBigEndian_lt rest
  have hstamp : ofBigEndian (Base58.Check.stamp checksum (payload key)) =
      0xef * 256 ^ rest.length + ofBigEndian rest := ofBigEndian_cons version rest
  rw [hlength] at hrest hstamp
  omega

/-- **Every text has 52 characters**: the range lies between two neighbouring powers of 58. -/
theorem length_text : (Base58.Check.encode checksum (payload key)).length = 52 := by
  obtain ⟨hlow, hhigh⟩ := ofBigEndian_stamp_bounds checksum key
  have hzeros : (Base58.Check.stamp checksum (payload key)).takeWhile (· == 0) = [] := rfl
  rw [Base58.Check.encode, Base58.length_encode, hzeros, List.length_nil, Nat.zero_add]
  apply Nat.le_antisymm
  · exact (Nat.digits_length_le_iff (by decide) _).2 (by omega)
  · exact (Nat.lt_digits_length_iff (by decide) _).2 (by omega)

/-- Which digit a character shows. The last of the 52 shows the units. -/
theorem getElem?_text {i : Nat} (h : i < 52) :
    (Base58.Check.encode checksum (payload key))[51 - i]? =
      Base58.alphabet[ofBigEndian (Base58.Check.stamp checksum (payload key)) / 58 ^ i % 58]? := by
  have hlength := length_text checksum key
  have hi : i < (Base58.Check.encode checksum (payload key)).length := by omega
  rw [← Base58.getElem?_reverse_encode hi, ← Base58.Check.encode, List.getElem?_reverse hi, hlength]

/-- The range ends before the first digit goes up. -/
theorem getElem?_text_zero :
    (Base58.Check.encode checksum (payload key))[0]? = some 'c'.toUInt8 := by
  obtain ⟨hlow, hhigh⟩ := ofBigEndian_stamp_bounds checksum key
  have hdigit : ofBigEndian (Base58.Check.stamp checksum (payload key)) / 58 ^ 51 % 58 = 35 := by
    omega
  have hfirst := getElem?_text checksum key (by decide : 51 < 52)
  rw [hdigit] at hfirst
  exact hfirst

/-- The second digit goes up nine times within the range. -/
theorem exists_getElem?_text_one :
    ∃ c ∈ ascii "MNPQRSTUVW", (Base58.Check.encode checksum (payload key))[1]? = some c := by
  obtain ⟨hlow, hhigh⟩ := ofBigEndian_stamp_bounds checksum key
  obtain ⟨j, hj, hdigit⟩ : ∃ j < 10,
      ofBigEndian (Base58.Check.stamp checksum (payload key)) / 58 ^ 50 % 58 = 20 + j := by
    refine ⟨ofBigEndian (Base58.Check.stamp checksum (payload key)) / 58 ^ 50 % 58 - 20, ?_, ?_⟩
    · omega
    · omega
  have hwindow : (Base58.alphabet.drop 20).take 10 = ascii "MNPQRSTUVW" := by decide
  have hsymbol : Base58.alphabet[20 + j]? = (ascii "MNPQRSTUVW")[j]? := by
    rw [← hwindow, List.getElem?_take_of_lt hj, List.getElem?_drop]
  have hlt : j < (ascii "MNPQRSTUVW").length := hj
  have hsecond := getElem?_text checksum key (by decide : 50 < 52)
  rw [hdigit, hsymbol, List.getElem?_eq_getElem hlt] at hsecond
  exact ⟨_, List.getElem_mem hlt, hsecond⟩

/-- What can be told of a text without knowing the key. -/
structure Shape (text : Bytes) : Prop where
  length_eq : text.length = 52
  mem_alphabet : ∀ c ∈ text, c ∈ Base58.alphabet
  first : text[0]? = some 'c'.toUInt8
  second : ∃ c ∈ ascii "MNPQRSTUVW", text[1]? = some c

/-- **Every text has that shape**: in the format in general use, and in base 58 with any other four
bytes behind the key. -/
theorem shape_of_every_text :
    Shape (encode .base58Check key) ∧
      ∀ checksum : Bytes → FixedBytes Base58.Check.checksumSize,
        Shape (Base58.Check.encode checksum (payload key)) := by
  have hshape (checksum : Bytes → FixedBytes Base58.Check.checksumSize) :
      Shape (Base58.Check.encode checksum (payload key)) :=
    { length_eq := length_text checksum key
      mem_alphabet := fun _ hc => Base58.mem_alphabet_of_mem_encode hc
      first := getElem?_text_zero checksum key
      second := exists_getElem?_text_one checksum key }
  exact ⟨hshape Checksum.of, hshape⟩

end KeyTree.Wif
