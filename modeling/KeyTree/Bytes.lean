/-!
# Byte strings

Texts and binary data alike are lists of bytes. `FixedBytes n` is a byte string whose length is
part of its type, as a key, a chain code or a digest has it.

* **`FixedBytes.ofList?`** admits a list of the right length, **`FixedBytes.slice`** cuts out a
  window that lies inside the bytes.
* **`bigEndian`** and **`ofBigEndian`**: a number as bytes, most significant first, and back.
* **`beforeNul`**: the part of a text that a reader which stops at a zero byte gets to see.
-/

namespace KeyTree

/-- A byte string, or a text in an encoding that extends ASCII. -/
abbrev Bytes := List UInt8

/-- The bytes of a text all of whose characters are ASCII. -/
def ascii (text : String) : Bytes :=
  text.toList.map Char.toUInt8

/-- The bytes of `text` in front of its first zero byte, or all of them. -/
def beforeNul (text : Bytes) : Bytes :=
  text.takeWhile (· != 0)

theorem beforeNul_eq_self {text : Bytes} (h : 0 ∉ text) : beforeNul text = text := by
  induction text with
  | nil => rfl
  | cons c rest ih =>
    obtain ⟨hc, hrest⟩ : c ≠ 0 ∧ 0 ∉ rest := by simpa [eq_comm] using h
    simpa [beforeNul, hc] using ih hrest

theorem beforeNul_append {front : Bytes} (h : 0 ∉ front) (back : Bytes) :
    beforeNul (front ++ back) = front ++ beforeNul back := by
  refine List.takeWhile_append_of_pos fun c hc => bne_iff_ne.2 ?_
  rintro rfl
  exact h hc

/-- Nothing is seen of what stands behind a zero byte. -/
theorem beforeNul_append_of_mem {front : Bytes} (h : 0 ∈ front) (back : Bytes) :
    beforeNul (front ++ back) = beforeNul front := by
  obtain ⟨seen, unseen, rfl, hseen⟩ := List.eq_append_cons_of_mem h
  rw [List.append_assoc, List.cons_append, beforeNul_append hseen, beforeNul_append hseen]
  rfl

/-! ## Byte strings of a fixed length -/

/-- A byte string of exactly `n` bytes. -/
@[ext]
structure FixedBytes (n : Nat) where
  toList : Bytes
  length_toList : toList.length = n
  deriving DecidableEq, Repr

attribute [simp] FixedBytes.length_toList

namespace FixedBytes

variable {m n : Nat}

def ofList? (n : Nat) (bytes : Bytes) : Option (FixedBytes n) :=
  if h : bytes.length = n then some ⟨bytes, h⟩ else none

@[simp] theorem ofList?_toList (x : FixedBytes n) : ofList? n x.toList = some x := by
  simp [ofList?]

theorem ofList?_eq_some_iff {bytes : Bytes} {x : FixedBytes n} :
    ofList? n bytes = some x ↔ bytes = x.toList := by
  constructor
  · intro h
    unfold ofList? at h
    split at h
    · simp only [Option.some.injEq] at h
      rw [← h]
    · simp at h
  · rintro rfl
    exact ofList?_toList x

def slice (x : FixedBytes n) (start m : Nat) (h : start + m ≤ n) : FixedBytes m :=
  ⟨(x.toList.drop start).take m, by
    rw [List.length_take, List.length_drop, x.length_toList]; omega⟩

@[simp] theorem toList_slice (x : FixedBytes n) (start m : Nat) (h : start + m ≤ n) :
    (x.slice start m h).toList = (x.toList.drop start).take m := rfl

/-- Bytes that are not too few end in as many as are asked for. -/
theorem exists_eq_append {bytes : Bytes} (h : n ≤ bytes.length) :
    ∃ (front : Bytes) (last : FixedBytes n), bytes = front ++ last.toList := by
  have hlast : (bytes.drop (bytes.length - n)).length = n := by
    rw [List.length_drop]
    omega
  exact ⟨bytes.take (bytes.length - n), ⟨_, hlast⟩, (List.take_append_drop _ bytes).symm⟩

def get (x : FixedBytes n) (i : Nat) (h : i < n) : UInt8 :=
  have : i < x.toList.length := by simpa using h
  x.toList[i]

end FixedBytes

/-! ## Numbers in big-endian order -/

/-- The lowest `width` base-256 digits of `value`, most significant first. -/
def bigEndian : Nat → Nat → Bytes
  | 0, _ => []
  | width + 1, value => bigEndian width (value / 256) ++ [UInt8.ofNat value]

/-- The number whose base-256 digits, most significant first, are `bytes`. -/
def ofBigEndian (bytes : Bytes) : Nat :=
  bytes.foldl (fun value byte => 256 * value + byte.toNat) 0

@[simp] theorem length_bigEndian (width value : Nat) : (bigEndian width value).length = width := by
  induction width generalizing value with
  | zero => rfl
  | succ width ih => simp [bigEndian, ih]

@[simp] theorem ofBigEndian_nil : ofBigEndian [] = 0 := rfl

theorem ofBigEndian_append_singleton (bytes : Bytes) (byte : UInt8) :
    ofBigEndian (bytes ++ [byte]) = 256 * ofBigEndian bytes + byte.toNat := by
  simp [ofBigEndian]

end KeyTree
