import KeyTree.Proofs.Base58.Loop
import KeyTree.Proofs.ExtendedKey

/-!
# How long a text in base 58 is

The number of digits follows from powers of the two bases: `k` digits of one base are enough for `n`
digits of the other if `src.base ^ n ≤ dst.base ^ k`. Zeros in front take one digit on both sides,
which a larger base cannot make up for, so they do not disturb the comparison. All that is left of
the ratio `138 / 100` is `256 ^ 100 ≤ 58 ^ 138`.

* **`Radix.length_accumulate_le`**: digits that are enough, and so enough at every moment on the way
  (`Radix.Moment.Visits.length_numeral_le`).
* **`Radix.length_recode_le`**: the same with zeros in front.
* **`Radix.length_recode_le_length`**: in a larger base a numeral does not get longer.
* **`Base58.pow_le_pow_ratio`**: the ratio, for every number of bytes.
* **`Base58.length_bounds`**: the bounds on texts, byte strings and extended keys.
-/

namespace KeyTree.Radix

variable {r src dst : Radix} {ds : List UInt8} {k : Nat}

/-! ## Enough digits -/

theorem value_lt (h : ∀ d ∈ ds, d.toNat < r.base) : r.value ds < r.base ^ ds.length := by
  have hlt : ∀ n ∈ ds.map UInt8.toNat, n < r.base := List.forall_mem_map.2 h
  have hvalue := Nat.ofDigits_lt_base_pow_length r.one_lt hlt
  rwa [List.length_map] at hvalue

/-- **Digits that are enough** for every number of that many digits. -/
theorem length_accumulate_le (hds : ∀ d ∈ ds, d.toNat < src.base)
    (hpow : src.base ^ ds.length ≤ dst.base ^ k) : (accumulate src dst ds).length ≤ k := by
  rw [accumulate_eq_digits, length_digits_le_iff]
  have hvalue : src.value ds.reverse < src.base ^ ds.reverse.length :=
    value_lt fun d hd => hds d (List.mem_reverse.1 hd)
  rw [List.length_reverse] at hvalue
  exact Nat.lt_of_lt_of_le hvalue hpow

/-- What is enough for all digits is enough at every moment on the way through them. -/
theorem Moment.Visits.length_numeral_le {m : Moment} (h : Visits src dst ds m)
    (hds : ∀ d ∈ ds, d.toNat < src.base) (hpow : src.base ^ ds.length ≤ dst.base ^ k) :
    m.numeral.length ≤ k := by
  obtain ⟨front, hfront, houtcome⟩ := h.exists_front
  have hlength : front.length ≤ ds.length := by
    rw [hfront, List.length_append]
    exact Nat.le_add_right _ _
  calc m.numeral.length
      ≤ (m.outcome src dst).length := m.length_numeral_le src dst
    _ = (accumulate src dst front).length := by rw [houtcome]
    _ ≤ k := by
      refine length_accumulate_le (fun d hd => hds d ?_) ?_
      · rw [hfront]
        exact List.mem_append_left _ hd
      · exact Nat.le_trans (Nat.pow_le_pow_right src.base_pos hlength) hpow

/-! ## Zeros in front -/

/-- From a larger base into a smaller one, zeros in front cost no more than other digits do. -/
theorem zeros_le_and_pow_le_pow {zeros n : Nat} (hbase : dst.base ≤ src.base)
    (hpow : src.base ^ (zeros + n) ≤ dst.base ^ k) :
    zeros ≤ k ∧ src.base ^ n ≤ dst.base ^ (k - zeros) := by
  have hk : zeros + n ≤ k := by
    refine (Nat.pow_le_pow_iff_right dst.one_lt).1 ?_
    exact Nat.le_trans (Nat.pow_le_pow_left hbase _) hpow
  have hzeros : zeros ≤ k := Nat.le_trans (Nat.le_add_right _ _) hk
  refine ⟨hzeros, Nat.le_of_mul_le_mul_left ?_ (Nat.pow_pos dst.base_pos : 0 < dst.base ^ zeros)⟩
  calc dst.base ^ zeros * src.base ^ n
      ≤ src.base ^ zeros * src.base ^ n := Nat.mul_le_mul_right _ (Nat.pow_le_pow_left hbase _)
    _ = src.base ^ (zeros + n) := (Nat.pow_add _ _ _).symm
    _ ≤ dst.base ^ k := hpow
    _ = dst.base ^ zeros * dst.base ^ (k - zeros) := by rw [← Nat.pow_add, Nat.add_sub_cancel' hzeros]

variable (dst) in
/-- The digits behind the zeros in front are those that the loops compute. -/
theorem exists_length_recode (hds : ∀ d ∈ ds, d.toNat < src.base) :
    ∃ zeros rest, ds.length = zeros + rest.length ∧ (∀ d ∈ rest, d.toNat < src.base) ∧
      (recode src dst ds).length = zeros + (accumulate src dst rest).length := by
  obtain ⟨zeros, rest, rfl, hrest⟩ := exists_eq_zeros_append ds
  refine ⟨zeros, rest, by simp, fun d hd => hds d (List.mem_append_right _ hd), ?_⟩
  rw [recode_zeros_append src dst zeros hrest, List.length_append, List.length_replicate, convert,
    List.length_reverse]

theorem length_recode_le (hds : ∀ d ∈ ds, d.toNat < src.base) (hbase : dst.base ≤ src.base)
    (hpow : src.base ^ ds.length ≤ dst.base ^ k) : (recode src dst ds).length ≤ k := by
  obtain ⟨zeros, rest, hlength, hrest, hrecode⟩ := exists_length_recode dst hds
  rw [hlength] at hpow
  obtain ⟨hzeros, hpow⟩ := zeros_le_and_pow_le_pow hbase hpow
  have hdigits := length_accumulate_le hrest hpow
  omega

/-- In a larger base a numeral does not get longer. -/
theorem length_recode_le_length (hds : ∀ d ∈ ds, d.toNat < src.base) (hbase : src.base ≤ dst.base) :
    (recode src dst ds).length ≤ ds.length := by
  obtain ⟨zeros, rest, hlength, hrest, hrecode⟩ := exists_length_recode dst hds
  have hdigits := length_accumulate_le hrest (Nat.pow_le_pow_left hbase rest.length)
  omega

end KeyTree.Radix

namespace KeyTree.Base58

open Radix.Moment (Visits)

/-! ## Texts -/

/-- A text of `k` characters is enough for bytes that `k` digits are enough for. -/
theorem length_encode_le {bytes : Bytes} {k : Nat} (hpow : 256 ^ bytes.length ≤ 58 ^ k) :
    (encode bytes).length ≤ k := by
  rw [encode_eq_map_symbol, List.length_map]
  exact Radix.length_recode_le (fun d _ => d.toNat_lt) (by decide) hpow

theorem length_le_length_encode (bytes : Bytes) : bytes.length ≤ (encode bytes).length := by
  let ds := Radix.recode .byte .fiftyEight bytes
  have hds : ∀ d ∈ ds, d.toNat < 58 := fun d hd => Radix.lt_base_of_mem_recode .byte .fiftyEight hd
  have hback : Radix.recode .fiftyEight .byte ds = bytes :=
    Radix.recode_recode .fiftyEight fun d _ => d.toNat_lt
  have hlength : (Radix.recode .fiftyEight .byte ds).length ≤ ds.length :=
    Radix.length_recode_le_length hds (by decide)
  rw [hback] at hlength
  rwa [encode_eq_map_symbol, List.length_map]

/-- **The ratio.** It rounds up `log 256 / log 58`, and what the division cuts off is made up for by
one digit more. -/
theorem pow_le_pow_ratio (n : Nat) : 256 ^ n ≤ 58 ^ (n * 138 / 100 + 1) := by
  have hratio : 256 ^ 100 ≤ 58 ^ 138 := by norm_num
  have hceil : 138 * n ≤ (n * 138 / 100 + 1) * 100 := by omega
  -- a hundred times as many digits leave no rounding to be done
  refine (Nat.pow_le_pow_iff_left (by decide : 100 ≠ 0)).1 ?_
  calc (256 ^ n) ^ 100
      = (256 ^ 100) ^ n := Nat.pow_right_comm _ _ _
    _ ≤ (58 ^ 138) ^ n := Nat.pow_le_pow_left hratio n
    _ = 58 ^ (138 * n) := (Nat.pow_mul _ _ _).symm
    _ ≤ 58 ^ ((n * 138 / 100 + 1) * 100) := Nat.pow_le_pow_right (by decide) hceil
    _ = (58 ^ (n * 138 / 100 + 1)) ^ 100 := Nat.pow_mul _ _ _

/-! ## Extended keys -/

/-- An extended key and its checksum are 82 bytes. -/
theorem length_of_readMaterial {text : Bytes} {start : Material}
    (h : Derivation.readMaterial Derivation.standard text = .ok start) :
    82 ≤ text.length ∧ text.length ≤ 112 := by
  obtain ⟨payload, hdecode, hsize⟩ := Derivation.exists_readMaterial_eq_ok_iff.1 ⟨start, h⟩
  have htext : text = encode (Check.stamp Checksum.of payload) := Check.decode_eq_ok_iff.1 hdecode
  have hlength : (Check.stamp Checksum.of payload).length = 82 := by
    rw [Check.length_stamp, hsize]
    rfl
  rw [htext]
  refine ⟨?_, length_encode_le ?_⟩
  · rw [← hlength]
    exact length_le_length_encode _
  · rw [hlength]
    norm_num

/-- **The bounds.** A text has at least as many characters as there are bytes and at most as many as
room is made for, which is never exceeded while the digits are computed. Hence a text that is read is
at least as long as what it is read as, and an extended key has 82 to 112 characters. -/
theorem length_bounds :
    (∀ bytes : Bytes, bytes.length ≤ (encode bytes).length ∧
      (encode bytes).length ≤ bytes.length * 138 / 100 + 1 ∧
      (∃ digits, Visits .byte .fiftyEight (bytes.dropWhile (· == 0)) (.idle digits []) ∧
        encode bytes =
          (bytes.takeWhile (· == 0)).map (fun _ => zero) ++ digits.reverse.map symbol) ∧
      ∀ m, Visits .byte .fiftyEight (bytes.dropWhile (· == 0)) m →
        m.numeral.length ≤ bytes.length * 138 / 100 + 1) ∧
      (∀ text bytes, decode text = .ok bytes → bytes.length ≤ text.length) ∧
      ∀ text, (∃ key, Derivation.readKey Derivation.standard text = .ok key) ∨
          (∃ start, Derivation.readMaterial Derivation.standard text = .ok start) →
        82 ≤ text.length ∧ text.length ≤ 112 := by
  refine ⟨fun bytes => ⟨length_le_length_encode bytes, ?enough, exists_visits_encode bytes, ?room⟩,
    ?read, ?key⟩
  case enough => exact length_encode_le (pow_le_pow_ratio bytes.length)
  case room =>
    intro m hm
    have hbody : (bytes.dropWhile (· == 0)).length ≤ bytes.length :=
      (List.dropWhile_sublist _).length_le
    refine hm.length_numeral_le (fun d _ => d.toNat_lt) ?_
    exact Nat.le_trans (Nat.pow_le_pow_right (by decide) hbody) (pow_le_pow_ratio bytes.length)
  case read =>
    intro text bytes h
    rw [decode_eq_ok_iff.1 h]
    exact length_le_length_encode bytes
  case key =>
    intro text h
    rcases h with ⟨key, hkey⟩ | ⟨start, hstart⟩
    · have hstart : Derivation.readMaterial Derivation.standard text = .ok key.material :=
        Fallible.map_eq_ok_iff.2 ⟨key, hkey, rfl⟩
      exact length_of_readMaterial hstart
    · exact length_of_readMaterial hstart

/-- An extended key all of whose bits are set takes up all 112 characters, whatever its checksum is. -/
theorem length_bounds_of_set_bits :
    ∃ text key, Derivation.readKey Derivation.standard text = .ok key ∧
      key.toBytes = List.replicate 78 0xff ∧ text.length = 112 ∧ 82 ≤ text.length := by
  obtain ⟨key, hkey⟩ := ExtendedKey.exists_ofBytes_eq_ok_iff.2
    (List.length_replicate : (List.replicate 78 (0xff : UInt8)).length = ExtendedKey.size)
  have hbytes := ExtendedKey.ofBytes_eq_ok_iff_toBytes.1 hkey
  let text := TextFormat.base58Check.encode key.toBytes
  have hread : Derivation.readKey Derivation.standard text = .ok key :=
    Derivation.readKey_encode TextFormat.lawful_base58Check key
  obtain ⟨-, -, hlength⟩ := length_bounds
  obtain ⟨hmin, hmax⟩ := hlength text (Or.inl ⟨key, hread⟩)
  refine ⟨text, key, hread, hbytes, Nat.le_antisymm hmax ?_, hmin⟩
  have htext : text = encode (0xff :: (List.replicate 77 0xff ++ (Checksum.of key.toBytes).toList)) := by
    show encode (Check.stamp Checksum.of key.toBytes) = _
    rw [Check.stamp, hbytes]
    rfl
  have hrest : (List.replicate 77 (0xff : UInt8) ++ (Checksum.of key.toBytes).toList).length = 81 := by
    simp [Check.checksumSize]
  rw [htext, length_encode]
  apply Nat.le_trans _ (Nat.le_add_left _ _)
  apply (Nat.lt_digits_length_iff (by decide) _).2
  have hfirst : (0xff : UInt8).toNat = 255 := rfl
  have hpow : 58 ^ 111 ≤ 255 * 256 ^ 81 := by norm_num
  rw [ofBigEndian_cons, hrest, hfirst]
  exact Nat.le_trans hpow (Nat.le_add_right _ _)

end KeyTree.Base58
