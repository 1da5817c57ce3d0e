import KeyTree.Proofs.Derivation.Resume
import KeyTree.Proofs.Derivation.Stages

/-!
# Extended keys, field by field

The fields of an extended key tile its 78 bytes: each begins where the one in front of it ends, so
cutting the bytes apart loses nothing and putting the fields together again leaves no choice. That
holds for every content, since no field is checked.

* **`FixedBytes.slice_append_slice`**: two windows that meet are one window.
* **`ExtendedKey.toBytes_ofFixed`**, **`ExtendedKey.toBytes_injective`**: the fields give back the
  bytes, and the bytes give back the fields.
* **`ExtendedKey.ofBytes_eq_ok_iff_toBytes`**: bytes are read as an extended key exactly if they are
  its bytes.
* **`ExtendedKey.lossless_split`**: what becomes of every byte string, and of every extended key
  that is written in a lawful format.
-/

namespace KeyTree

namespace FixedBytes

variable {n : Nat} (x : FixedBytes n)

/-- Two windows that meet are one window. -/
theorem slice_append_slice {i m k : Nat} (h : i + (m + k) ≤ n) :
    (x.slice i m (by omega)).toList ++ (x.slice (i + m) k (by omega)).toList =
      (x.slice i (m + k) h).toList := by
  simp only [toList_slice]
  rw [List.take_add, List.drop_drop]

/-- A byte in front of a window belongs to a window that begins one byte earlier. -/
theorem get_cons_slice {i k : Nat} (h : i + (1 + k) ≤ n) :
    x.get i (by omega) :: (x.slice (i + 1) k (by omega)).toList = (x.slice i (1 + k) h).toList := by
  have hbyte : (x.slice i 1 (by omega)).toList = [x.get i (by omega)] := by
    have hlt : i < x.toList.length := by
      rw [x.length_toList]
      omega
    rw [toList_slice, List.drop_eq_getElem_cons hlt]
    rfl
  rw [← slice_append_slice x h, hbyte]
  rfl

theorem toList_slice_all : (x.slice 0 n (by omega)).toList = x.toList := by
  rw [toList_slice, List.drop_zero, List.take_of_length_le (Nat.le_of_eq x.length_toList)]

end FixedBytes

namespace ExtendedKey

/-- **The fields give back the bytes.** -/
theorem toBytes_ofFixed (bytes : FixedBytes size) : (ofFixed bytes).toBytes = bytes.toList := by
  -- from left to right, each field is joined to the window that the fields in front of it make up
  calc (ofFixed bytes).toBytes
      = (bytes.slice 0 4 (by decide)).toList ++
          bytes.get 4 (by decide) :: (bytes.slice 5 4 (by decide)).toList ++
          (bytes.slice 9 4 (by decide)).toList ++ (bytes.slice 13 32 (by decide)).toList ++
          bytes.get 45 (by decide) :: (bytes.slice 46 32 (by decide)).toList := rfl
    _ = (bytes.slice 0 4 (by decide)).toList ++ (bytes.slice 4 5 (by decide)).toList ++
          (bytes.slice 9 4 (by decide)).toList ++ (bytes.slice 13 32 (by decide)).toList ++
          (bytes.slice 45 33 (by decide)).toList := by
      rw [bytes.get_cons_slice (i := 4) (k := 4) (by decide),
        bytes.get_cons_slice (i := 45) (k := 32) (by decide)]
    _ = (bytes.slice 0 78 (by decide)).toList := by
      rw [bytes.slice_append_slice (i := 0) (m := 4) (k := 5) (by decide),
        bytes.slice_append_slice (i := 0) (m := 9) (k := 4) (by decide),
        bytes.slice_append_slice (i := 0) (m := 13) (k := 32) (by decide),
        bytes.slice_append_slice (i := 0) (m := 45) (k := 33) (by decide)]
    _ = bytes.toList := bytes.toList_slice_all

/-- **The bytes give back the fields**: every field has its own number of bytes. -/
theorem toBytes_injective {k l : ExtendedKey} (h : k.toBytes = l.toBytes) : k = l := by
  have hsame {n : Nat} {x y : FixedBytes n} : x.toList.length = y.toList.length := by
    rw [x.length_toList, y.length_toList]
  unfold toBytes at h
  obtain ⟨h, hlast⟩ := List.append_inj' h (by simp)
  obtain ⟨h, hchainCode⟩ := List.append_inj' h hsame
  obtain ⟨h, hchildNumber⟩ := List.append_inj' h hsame
  obtain ⟨hversion, hmiddle⟩ := List.append_inj' h (by simp)
  obtain ⟨hdepth, hfingerprint⟩ := List.cons.inj hmiddle
  obtain ⟨hkeyMark, hkey⟩ := List.cons.inj hlast
  exact ExtendedKey.ext (FixedBytes.ext hversion) hdepth (FixedBytes.ext hfingerprint)
    (FixedBytes.ext hchildNumber) (FixedBytes.ext hchainCode) hkeyMark (FixedBytes.ext hkey)

/-- **Bytes are read as an extended key exactly if they are its bytes.** -/
theorem ofBytes_eq_ok_iff_toBytes {bytes : Bytes} {key : ExtendedKey} :
    ofBytes bytes = .ok key ↔ key.toBytes = bytes := by
  rw [ofBytes_eq_ok_iff]
  refine ⟨fun h => ?_, fun h => ?_⟩
  · obtain ⟨fixed, hbytes, hkey⟩ := h
    rw [← hkey, toBytes_ofFixed, hbytes]
  · let fixed : FixedBytes size := ⟨key.toBytes, length_toBytes key⟩
    have hfixed : (ofFixed fixed).toBytes = key.toBytes := toBytes_ofFixed fixed
    exact ⟨fixed, h, toBytes_injective hfixed⟩

theorem exists_ofBytes_eq_ok_iff {bytes : Bytes} :
    (∃ key, ofBytes bytes = .ok key) ↔ bytes.length = size := by
  refine ⟨fun h => ?_, fun h => ?_⟩
  · obtain ⟨key, hkey⟩ := h
    rw [← ofBytes_eq_ok_iff_toBytes.1 hkey, length_toBytes]
  · exact ⟨_, ofBytes_eq_ok_iff.2 ⟨⟨bytes, h⟩, rfl, rfl⟩⟩

end ExtendedKey

/-! ## Written and read in a text format -/

namespace Derivation

variable {format : TextFormat}

/-- What a lawful format wrote is read with all its fields. -/
theorem readKey_encode (hlawful : format.Lawful) (key : ExtendedKey) :
    readKey (some format) (format.encode key.toBytes) = .ok key := by
  rw [readKey_some, hlawful]
  exact ExtendedKey.ofBytes_eq_ok_iff_toBytes.2 rfl

end Derivation

/-- **Nothing is lost and nothing is made up.** Bytes are cut into fields exactly if there are 78 of
them, and then the fields, one behind the other, are these bytes; any other number of bytes is
refused with that number. So a key that is written in a lawful format is read with the fields that
it was written with, and derivation starts from its key and its chain code. -/
theorem ExtendedKey.lossless_split :
    (∀ bytes, (∃ key, ofBytes bytes = .ok key) ↔ bytes.length = 78) ∧
      (∀ bytes key, ofBytes bytes = .ok key ↔
        key.version.toList ++ [key.depth] ++ key.fingerprint.toList ++ key.childNumber.toList ++
          key.chainCode.toList ++ [key.keyMark] ++ key.key.toList = bytes) ∧
      (∀ bytes failure, ofBytes bytes = .error failure ↔
        bytes.length ≠ 78 ∧ failure = .keySize bytes.length) ∧
      (∀ n, (Failure.keySize n).category = .keySize ∧
        (Failure.keySize n).message =
          ascii "Extended key must be 78 bytes, got " ++ Decimal.text n ∧
        Decimal.value (Decimal.text n) = n) ∧
      ∀ format : TextFormat, format.Lawful → ∀ key : ExtendedKey,
        Derivation.readKey (some format) (format.encode key.toBytes) = .ok key ∧
          Derivation.readMaterial (some format) (format.encode key.toBytes) =
            .ok { key := key.key, chainCode := key.chainCode } := by
  refine ⟨fun _ => exists_ofBytes_eq_ok_iff, ?fields, fun _ _ => ofBytes_eq_error_iff, ?wording,
    ?written⟩
  case fields =>
    intro bytes key
    rw [ofBytes_eq_ok_iff_toBytes]
    simp only [toBytes, List.append_assoc, List.cons_append, List.nil_append]
  case wording => exact fun n => ⟨rfl, rfl, Decimal.value_text n⟩
  case written =>
    intro format hlawful key
    have hread := Derivation.readKey_encode hlawful key
    refine ⟨hread, ?_⟩
    rw [Derivation.readMaterial, hread]
    rfl

/-- The bytes that count from 0 to 77, in the format in general use: each byte of a field tells
where it stands. -/
theorem ExtendedKey.lossless_split_of_counted_bytes :
    TextFormat.base58Check.Lawful ∧
      ∃ key : ExtendedKey, key.toBytes = (List.range 78).map UInt8.ofNat ∧
        key.chainCode.toList = (List.range' 13 32).map UInt8.ofNat ∧
        key.key.toList = (List.range' 46 32).map UInt8.ofNat ∧
        ofBytes ((List.range 78).map UInt8.ofNat) = .ok key ∧
        ofBytes ((List.range 77).map UInt8.ofNat) = .error (.keySize 77) ∧
        Derivation.readKey Derivation.standard (TextFormat.base58Check.encode key.toBytes) =
          .ok key ∧
        Derivation.readMaterial Derivation.standard (TextFormat.base58Check.encode key.toBytes) =
          .ok { key := key.key, chainCode := key.chainCode } := by
  let bytes : FixedBytes size := ⟨(List.range 78).map UInt8.ofNat, rfl⟩
  have hlawful := TextFormat.lawful_base58Check
  have hbytes : (ofFixed bytes).toBytes = bytes.toList := toBytes_ofFixed bytes
  have hkey : ofBytes bytes.toList = .ok (ofFixed bytes) := ofBytes_eq_ok_iff_toBytes.2 hbytes
  obtain ⟨-, -, hrefused, -, hwritten⟩ := lossless_split
  refine ⟨hlawful, ofFixed bytes, hbytes, rfl, rfl, hkey, ?_, hwritten _ hlawful _⟩
  exact (hrefused _ _).2 ⟨by decide, by simp⟩

end KeyTree
