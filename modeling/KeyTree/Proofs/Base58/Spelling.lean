import KeyTree.Base58
import KeyTree.Proofs.Fallible
import KeyTree.Proofs.Numeral
import Mathlib.Data.Set.Function

/-!
# Every byte string has one spelling in base 58

Writing and reading are one and the same operation on digits, `Radix.recode`, in opposite directions
and dressed in symbols. Zeros in front stand for themselves on both sides and the rest of a numeral is
canonical on both sides, so nothing can be spelled in two ways.

* **`encode_eq_map_symbol`**, **`decode_map_symbol`**: both functions in terms of `Radix.recode`.
* **`decode_eq_ok_iff`**: a text stands for a byte string exactly if it is that byte string's text.
* **`decode_encode_eq_ok`**: every byte string is read back from its own text.
* **`encode_of_decode_and_bijOn`**: every text that is read at all is written again, so reading is a
  bijection between the texts over the alphabet and the byte strings.
-/

namespace KeyTree.Base58

open Radix (recode)

/-! ## Symbols -/

theorem symbol_eq_zero_iff {d : UInt8} (h : d.toNat < 58) : symbol d = zero ↔ d = 0 := by
  refine ⟨fun hsymbol => ?_, fun hd => by rw [hd, symbol_zero]⟩
  have hdigit := digit?_symbol h
  rw [hsymbol, ← symbol_zero, digit?_symbol (by decide)] at hdigit
  exact (Option.some.inj hdigit).symm

theorem readSymbol_eq_ok_iff {c d : UInt8} :
    readSymbol c = .ok d ↔ d.toNat < 58 ∧ symbol d = c := by
  have hread : readSymbol c = .ok d ↔ digit? c = some d := by
    unfold readSymbol
    cases digit? c with
    | none => simp
    | some e => simp
  rw [hread]
  refine ⟨symbol_of_digit?_eq_some, fun h => ?_⟩
  rw [← h.2, digit?_symbol h.1]

/-- The digits of a text are below 58, and the text is made of their symbols. -/
theorem mapM_readSymbol_eq_ok_iff {text ds : Bytes} :
    text.mapM readSymbol = .ok ds ↔ (∀ d ∈ ds, d.toNat < 58) ∧ text = ds.map symbol := by
  rw [Fallible.mapM_eq_ok_iff]
  simp only [readSymbol_eq_ok_iff]
  induction ds generalizing text with
  | nil => simp
  | cons d ds ih =>
    rw [List.forall₂_cons_right_iff, List.map_cons]
    refine ⟨fun h => ?_, fun h => ?_⟩
    · obtain ⟨c, rest, ⟨hd, hc⟩, hrest, htext⟩ := h
      obtain ⟨hds, hmap⟩ := ih.1 hrest
      rw [htext, hmap, hc]
      exact ⟨List.forall_mem_cons.2 ⟨hd, hds⟩, rfl⟩
    · obtain ⟨hall, htext⟩ := h
      obtain ⟨hd, hds⟩ := List.forall_mem_cons.1 hall
      exact ⟨symbol d, ds.map symbol, ⟨hd, rfl⟩, ih.2 ⟨hds, rfl⟩, htext⟩

/-! ## Both directions on digits -/

theorem encode_eq_map_symbol (bytes : Bytes) :
    encode bytes = (recode .byte .fiftyEight bytes).map symbol := by
  have hzeros : (bytes.takeWhile (· == 0)).map (fun _ => zero) =
      (bytes.takeWhile (· == 0)).map symbol := by
    refine List.map_congr_left fun d hd => ?_
    have hzero : d = 0 := by simpa using List.mem_takeWhile_imp hd
    rw [hzero, symbol_zero]
  unfold encode
  rw [recode, List.map_append, hzeros]

theorem decode_map_symbol {ds : Bytes} (h : ∀ d ∈ ds, d.toNat < 58) :
    decode (ds.map symbol) = .ok (recode .fiftyEight .byte ds) := by
  obtain ⟨count, rest, hds, hrest⟩ := Radix.exists_eq_zeros_append ds
  have hread : (ds.map symbol).mapM readSymbol = .ok ds := mapM_readSymbol_eq_ok_iff.2 ⟨h, rfl⟩
  -- no digit but zero has the symbol of zero, so text and digits begin with as many zeros
  have hhead : (rest.map symbol).head? ≠ some zero := by
    cases hcase : rest with
    | nil => simp
    | cons d tail =>
      have hd : d.toNat < 58 := h d (by rw [hds, hcase]; simp)
      have hne : d ≠ 0 := by simpa [hcase] using hrest
      intro heq
      exact hne ((symbol_eq_zero_iff hd).1 (Option.some.inj heq))
  have hzeros : ((ds.map symbol).takeWhile (· == zero)).map (fun _ => (0 : UInt8)) =
      List.replicate count 0 := by
    rw [hds, List.map_append, List.map_replicate, symbol_zero,
      Radix.takeWhile_replicate_append count zero hhead, List.map_replicate]
  unfold decode
  rw [hread, hzeros]
  -- the loop runs over the zeros too, without effect
  show Except.ok (List.replicate count 0 ++ Radix.convert .fiftyEight .byte ds) = _
  rw [hds, Radix.convert_zeros_append, Radix.recode_zeros_append _ _ count hrest]

/-! ## One spelling -/

/-- **A text stands for a byte string exactly if it is that byte string's text.** -/
theorem decode_eq_ok_iff {text bytes : Bytes} : decode text = .ok bytes ↔ text = encode bytes := by
  refine ⟨fun h => ?_, fun h => ?_⟩
  · obtain ⟨ds, hread, -⟩ := Fallible.bind_eq_ok_iff.1 h
    obtain ⟨hds, htext⟩ := mapM_readSymbol_eq_ok_iff.1 hread
    have hbytes : recode .fiftyEight .byte ds = bytes := by
      rw [htext, decode_map_symbol hds] at h
      exact Except.ok.inj h
    rw [encode_eq_map_symbol, ← hbytes, Radix.recode_recode .byte hds, htext]
  · have hdigits : ∀ d ∈ recode .byte .fiftyEight bytes, d.toNat < 58 :=
      fun d hd => Radix.lt_base_of_mem_recode .byte .fiftyEight hd
    rw [h, encode_eq_map_symbol, decode_map_symbol hdigits,
      Radix.recode_recode .fiftyEight fun d _ => d.toNat_lt]

theorem exists_readSymbol_eq_ok_iff {c : UInt8} : (∃ d, readSymbol c = .ok d) ↔ c ∈ alphabet := by
  unfold readSymbol
  cases hdigit : digit? c with
  | none => simpa using digit?_eq_none_iff.1 hdigit
  | some d =>
    have hmem : c ∈ alphabet := by
      by_contra hc
      rw [digit?_eq_none_iff.2 hc] at hdigit
      cases hdigit
    simpa using hmem

/-- The texts that are read are the texts over the alphabet. -/
theorem exists_decode_eq_ok_iff {text : Bytes} :
    (∃ bytes, decode text = .ok bytes) ↔ ∀ c ∈ text, c ∈ alphabet := by
  have hread : (∃ bytes, decode text = .ok bytes) ↔ ∃ ds, text.mapM readSymbol = .ok ds := by
    refine ⟨fun h => ?_, fun h => ?_⟩
    · obtain ⟨bytes, hbytes⟩ := h
      obtain ⟨ds, hds, -⟩ := Fallible.bind_eq_ok_iff.1 hbytes
      exact ⟨ds, hds⟩
    · obtain ⟨ds, hds⟩ := h
      exact ⟨_, Fallible.bind_eq_ok_iff.2 ⟨ds, hds, rfl⟩⟩
  rw [hread, Fallible.exists_mapM_eq_ok_iff]
  exact forall₂_congr fun c _ => exists_readSymbol_eq_ok_iff

/-- **Every byte string is read back from its own text.** -/
theorem decode_encode_eq_ok (bytes : Bytes) : decode (encode bytes) = .ok bytes :=
  decode_eq_ok_iff.2 rfl

/-- **Every text that is read is written again.** Hence reading is a bijection: each text over the
alphabet is read, different ones as different byte strings, and every byte string is reached. -/
theorem encode_of_decode_and_bijOn :
    (∀ text bytes, decode text = .ok bytes → encode bytes = text) ∧
      Set.BijOn decode {text | ∀ c ∈ text, c ∈ alphabet} (Set.range Except.ok) := by
  refine ⟨fun text bytes h => (decode_eq_ok_iff.1 h).symm, ?maps, ?injective, ?surjective⟩
  case maps =>
    intro text htext
    obtain ⟨bytes, h⟩ := exists_decode_eq_ok_iff.2 htext
    exact ⟨bytes, h.symm⟩
  case injective =>
    intro s hs t _ heq
    obtain ⟨bytes, h⟩ := exists_decode_eq_ok_iff.2 hs
    have ht : decode t = .ok bytes := heq ▸ h
    rw [decode_eq_ok_iff.1 h, decode_eq_ok_iff.1 ht]
  case surjective =>
    intro outcome houtcome
    obtain ⟨bytes, hbytes⟩ := houtcome
    have h : decode (encode bytes) = .ok bytes := decode_eq_ok_iff.2 rfl
    rw [← hbytes]
    exact ⟨encode bytes, exists_decode_eq_ok_iff.1 ⟨bytes, h⟩, h⟩

end KeyTree.Base58
