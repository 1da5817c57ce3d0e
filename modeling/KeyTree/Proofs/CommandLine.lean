import KeyTree.CommandLine
import KeyTree.Proofs.Derivation.FirstFailure
import KeyTree.Proofs.Derivation.Independence
import KeyTree.Proofs.Wif

/-!
# What the command line answers

There are four answers: the usage, a derived key, a diagnostic for a path and one for a key. Which
one is given can be told from the arguments before anything is run, and from what is written
afterwards.

* **`CommandLine.Answer`**: the four answers and their conditions.
* **`CommandLine.answer_run`**: a run answers so. What is displayed of a failure ends in front of a
  zero byte, but arguments have none.
* **`CommandLine.run_outcome`**: exit code and both texts, each with its condition.
-/

namespace KeyTree.CommandLine

open KeyTree.Derivation

/-! ## Diagnostics -/

/-- The diagnostic for a key that cannot be read. -/
def keyDiagnostic (message : Bytes) : Bytes :=
  ascii "Error: " ++ message ++ newline

/-- The diagnostic for a path that is refused. -/
def pathDiagnostic (pathText message : Bytes) : Bytes :=
  ascii "Error: invalid keypath '" ++ pathText ++ ascii "': " ++ message ++ newline

theorem pathDiagnostic_eq_keyDiagnostic (pathText message : Bytes) :
    pathDiagnostic pathText message =
      keyDiagnostic (ascii "invalid keypath '" ++ pathText ++ ascii "': " ++ message) := by
  have hfront : ascii "Error: invalid keypath '" =
      ascii "Error: " ++ ascii "invalid keypath '" := by decide
  rw [pathDiagnostic, keyDiagnostic, hfront]
  simp only [List.append_assoc]

theorem diagnostic_of_isPath (pathText : Bytes) {failure : Failure}
    (h : failure.category.isPath = true) :
    diagnostic pathText failure = pathDiagnostic pathText failure.shown := by
  rw [diagnostic, if_pos h, pathDiagnostic_eq_keyDiagnostic, keyDiagnostic]
  simp only [List.append_assoc]

theorem diagnostic_of_not_isPath (pathText : Bytes) {failure : Failure}
    (h : failure.category.isPath = false) :
    diagnostic pathText failure = keyDiagnostic failure.shown := by
  rw [diagnostic, h, if_neg Bool.false_ne_true, keyDiagnostic, List.append_nil]

/-- The usage and the diagnostics differ in their first byte. -/
theorem keyDiagnostic_ne_usage (message : Bytes) : keyDiagnostic message ≠ usage := by
  intro h
  have hhead : some 'E'.toUInt8 = usage.head? := congrArg List.head? h
  exact absurd hhead (by decide)

theorem pathDiagnostic_ne_usage (pathText message : Bytes) :
    pathDiagnostic pathText message ≠ usage := by
  rw [pathDiagnostic_eq_keyDiagnostic]
  exact keyDiagnostic_ne_usage _

/-- With the same wording, the diagnostic that quotes the path is the longer one. -/
theorem pathDiagnostic_ne_keyDiagnostic (pathText message : Bytes) :
    pathDiagnostic pathText message ≠ keyDiagnostic message := by
  intro h
  have hlength := congrArg List.length h
  have hquoted : (ascii "invalid keypath '").length = 17 := by decide
  rw [pathDiagnostic_eq_keyDiagnostic] at hlength
  simp only [keyDiagnostic, List.length_append, hquoted] at hlength
  omega

/-! ## Answers -/

/-- What is answered to a list of arguments. -/
inductive Answer : List Bytes → Outcome → Prop where
  | usage {args : List Bytes} (hlength : args.length ≠ 2) :
      Answer args { exitCode := 1, stdout := [], stderr := usage }
  | derived {keyText pathText text : Bytes} (hwif : wif standard keyText pathText = .ok text) :
      Answer [keyText, pathText] { exitCode := 0, stdout := text ++ newline, stderr := [] }
  | badPath {keyText pathText : Bytes} {failure : Failure} (hkey : Readable keyText)
      (hpath : Path.parse pathText = .error failure) :
      Answer [keyText, pathText]
        { exitCode := 1, stdout := [], stderr := pathDiagnostic pathText failure.message }
  | badKey {keyText pathText : Bytes} {failure : Failure} (hkey : ¬ Readable keyText)
      (hfirst : FirstFailure keyText pathText failure) :
      Answer [keyText, pathText]
        { exitCode := 1, stdout := [], stderr := keyDiagnostic failure.message }

theorem run_of_ok {keyText pathText text : Bytes} (h : wif standard keyText pathText = .ok text) :
    run [keyText, pathText] = { exitCode := 0, stdout := text ++ newline, stderr := [] } := by
  simp only [run, h]

theorem run_of_error {keyText pathText : Bytes} {failure : Failure}
    (h : wif standard keyText pathText = .error failure) :
    run [keyText, pathText] =
      { exitCode := 1, stdout := [], stderr := diagnostic pathText failure } := by
  simp only [run, h]

variable {args : List Bytes} {outcome : Outcome}

/-- **A run gives the answer that its arguments call for.** -/
theorem answer_run (hargs : ∀ arg ∈ args, 0 ∉ arg) : Answer args (run args) := by
  match args with
  | [keyText, pathText] =>
    cases hwif : wif standard keyText pathText with
    | ok text =>
      rw [run_of_ok hwif]
      exact .derived hwif
    | error failure =>
      have hfirst := firstFailure_iff.2 hwif
      -- what is displayed is the whole wording, since nothing that it quotes has a zero byte
      have hshown : failure.shown = failure.message :=
        beforeNul_eq_self (hfirst.zero_not_mem_message (hargs _ (by simp)) (hargs _ (by simp)))
      rw [run_of_error hwif]
      rcases hfirst.stage_cases with ⟨hisPath, hkey, hpath⟩ | ⟨hisPath, hkey⟩
      · rw [diagnostic_of_isPath _ hisPath, hshown]
        exact .badPath hkey hpath
      · rw [diagnostic_of_not_isPath _ hisPath, hshown]
        exact .badKey hkey hfirst
  | [] | [_] | _ :: _ :: _ :: _ => exact .usage (by simp)

namespace Answer

theorem exitCode_eq_zero_iff (h : Answer args outcome) :
    outcome.exitCode = 0 ↔
      ∃ keyText pathText text, args = [keyText, pathText] ∧
        wif standard keyText pathText = .ok text := by
  have hfails : (1 : UInt8) ≠ 0 := by decide
  cases h with
  | usage hlength =>
    refine iff_of_false hfails ?_
    rintro ⟨keyText, pathText, text, rfl, -⟩
    exact hlength rfl
  | derived hwif => exact iff_of_true rfl ⟨_, _, _, rfl, hwif⟩
  | badPath hkey hpath =>
    refine iff_of_false hfails ?_
    rintro ⟨keyText, pathText, text, hargs, hwif⟩
    cases hargs
    exact (FirstFailure.badPath hkey hpath).wif_ne_ok hwif
  | badKey _ hfirst =>
    refine iff_of_false hfails ?_
    rintro ⟨keyText, pathText, text, hargs, hwif⟩
    cases hargs
    exact hfirst.wif_ne_ok hwif

/-- A derived key stands on a line of its own, and the line has 53 bytes. -/
theorem of_exitCode_eq_zero (h : Answer args outcome) (hcode : outcome.exitCode = 0) :
    ∃ keyText pathText text, args = [keyText, pathText] ∧
      wif standard keyText pathText = .ok text ∧ outcome.stdout = text ++ newline ∧
      outcome.stdout.length = 53 ∧ 0x0a ∉ text ∧ outcome.stderr = [] := by
  have hfails : (1 : UInt8) ≠ 0 := by decide
  cases h with
  | usage _ | badPath _ _ | badKey _ _ => exact absurd hcode hfails
  | derived hwif =>
    -- the text is that of a private key, whichever key it is
    obtain ⟨last, -, rfl⟩ := wif_eq_ok_iff.1 hwif
    have hlength : (Wif.encode .base58Check last.key).length = 52 :=
      Wif.length_text Checksum.of last.key
    have hline : (0x0a : UInt8) ∉ Base58.alphabet := by decide
    refine ⟨_, _, _, rfl, hwif, rfl, ?_, ?_, rfl⟩
    · rw [List.length_append, hlength]
      rfl
    · exact fun hmem => hline (Base58.mem_alphabet_of_mem_encode hmem)

theorem of_exitCode_ne_zero (h : Answer args outcome) (hcode : outcome.exitCode ≠ 0) :
    outcome.exitCode = 1 ∧ outcome.stdout = [] := by
  cases h with
  | derived _ => exact absurd rfl hcode
  | usage _ | badPath _ _ | badKey _ _ => exact ⟨rfl, rfl⟩

theorem stderr_eq_usage_iff (h : Answer args outcome) :
    outcome.stderr = CommandLine.usage ↔ args.length ≠ 2 := by
  have hsilent : [] ≠ CommandLine.usage := by decide
  cases h with
  | usage hlength => exact iff_of_true rfl hlength
  | derived _ => exact iff_of_false hsilent (by simp)
  | badPath _ _ => exact iff_of_false (pathDiagnostic_ne_usage _ _) (by simp)
  | badKey _ _ => exact iff_of_false (keyDiagnostic_ne_usage _) (by simp)

/-- A failure is displayed with the path exactly if the key can be read. -/
theorem stderr_of_firstFailure {keyText pathText : Bytes} {failure : Failure}
    (h : Answer [keyText, pathText] outcome) (hfirst : FirstFailure keyText pathText failure) :
    (Readable keyText ∧ Path.parse pathText = .error failure) ∧
        outcome.stderr = pathDiagnostic pathText failure.message ∨
      ¬ Readable keyText ∧ outcome.stderr = keyDiagnostic failure.message := by
  cases h with
  | usage hlength => exact absurd rfl hlength
  | derived hwif => exact absurd hwif hfirst.wif_ne_ok
  | badPath hkey hpath =>
    rw [hfirst.unique (.badPath hkey hpath)]
    exact Or.inl ⟨⟨hkey, hpath⟩, rfl⟩
  | badKey hkey hother =>
    rw [hfirst.unique hother]
    exact Or.inr ⟨hkey, rfl⟩

theorem stderr_eq_pathDiagnostic_iff (h : Answer args outcome) :
    (∃ keyText pathText failure, args = [keyText, pathText] ∧
        FirstFailure keyText pathText failure ∧
        outcome.stderr = pathDiagnostic pathText failure.message) ↔
      ∃ keyText pathText, args = [keyText, pathText] ∧ Readable keyText ∧
        ∃ failure, Path.parse pathText = .error failure := by
  refine ⟨fun hstderr => ?_, fun hrefused => ?_⟩
  · obtain ⟨keyText, pathText, failure, rfl, hfirst, hstderr⟩ := hstderr
    rcases h.stderr_of_firstFailure hfirst with ⟨⟨hkey, hpath⟩, -⟩ | ⟨-, hother⟩
    · exact ⟨keyText, pathText, rfl, hkey, failure, hpath⟩
    -- there is one first failure, so the other diagnostic would have the same wording
    · exact absurd (hstderr.symm.trans hother) (pathDiagnostic_ne_keyDiagnostic _ _)
  · obtain ⟨keyText, pathText, rfl, hkey, failure, hpath⟩ := hrefused
    have hfirst := FirstFailure.badPath hkey hpath
    rcases h.stderr_of_firstFailure hfirst with ⟨-, hstderr⟩ | ⟨hbad, -⟩
    · exact ⟨keyText, pathText, failure, rfl, hfirst, hstderr⟩
    · exact absurd hkey hbad

theorem stderr_eq_keyDiagnostic_iff (h : Answer args outcome) :
    (∃ keyText pathText failure, args = [keyText, pathText] ∧
        FirstFailure keyText pathText failure ∧
        outcome.stderr = keyDiagnostic failure.message) ↔
      ∃ keyText pathText, args = [keyText, pathText] ∧ ¬ Readable keyText := by
  refine ⟨fun hstderr => ?_, fun hrefused => ?_⟩
  · obtain ⟨keyText, pathText, failure, rfl, hfirst, hstderr⟩ := hstderr
    rcases h.stderr_of_firstFailure hfirst with ⟨-, hother⟩ | ⟨hkey, -⟩
    · exact absurd (hother.symm.trans hstderr) (pathDiagnostic_ne_keyDiagnostic _ _)
    · exact ⟨keyText, pathText, rfl, hkey⟩
  · obtain ⟨keyText, pathText, rfl, hkey⟩ := hrefused
    obtain ⟨failure, hfirst⟩ := FirstFailure.exists_of_not_readable hkey pathText
    rcases h.stderr_of_firstFailure hfirst with ⟨⟨hgood, -⟩, -⟩ | ⟨-, hstderr⟩
    · exact absurd hgood hkey
    · exact ⟨keyText, pathText, failure, rfl, hfirst, hstderr⟩

end Answer

/-! ## Runs -/

/-- **What a run comes to.** The exit code is 0 exactly if there are two arguments and a key is
derived from them, and then this key is all that is written, on a line of 53 bytes. Otherwise the
exit code is 1 and there is a diagnostic alone: the usage exactly if there are not two arguments, one
that quotes the path exactly if the key can be read and the path is refused, and one that does not
exactly if the key cannot be read, whatever the path is. Both give the wording of the first failure
in full. -/
theorem run_outcome (hargs : ∀ arg ∈ args, 0 ∉ arg) :
    ((run args).exitCode = 0 ↔
        ∃ keyText pathText text, args = [keyText, pathText] ∧
          wif standard keyText pathText = .ok text) ∧
      ((run args).exitCode = 0 →
        ∃ keyText pathText text, args = [keyText, pathText] ∧
          wif standard keyText pathText = .ok text ∧ (run args).stdout = text ++ newline ∧
          (run args).stdout.length = 53 ∧ 0x0a ∉ text ∧ (run args).stderr = []) ∧
      ((run args).exitCode ≠ 0 → (run args).exitCode = 1 ∧ (run args).stdout = []) ∧
      ((run args).stderr = usage ↔ args.length ≠ 2) ∧
      ((∃ keyText pathText failure, args = [keyText, pathText] ∧
          FirstFailure keyText pathText failure ∧
          (run args).stderr = pathDiagnostic pathText failure.message) ↔
        ∃ keyText pathText, args = [keyText, pathText] ∧ Readable keyText ∧
          ∃ failure, Path.parse pathText = .error failure) ∧
      ((∃ keyText pathText failure, args = [keyText, pathText] ∧
          FirstFailure keyText pathText failure ∧
          (run args).stderr = keyDiagnostic failure.message) ↔
        ∃ keyText pathText, args = [keyText, pathText] ∧ ¬ Readable keyText) := by
  have hanswer := answer_run hargs
  exact ⟨hanswer.exitCode_eq_zero_iff, hanswer.of_exitCode_eq_zero, hanswer.of_exitCode_ne_zero,
    hanswer.stderr_eq_usage_iff, hanswer.stderr_eq_pathDiagnostic_iff,
    hanswer.stderr_eq_keyDiagnostic_iff⟩

/-- A key of zeros along a path, and a text that is no key along a text that is no path. -/
theorem run_outcome_of_zeros :
    ∃ keyText, keyText = TextFormat.base58Check.encode (List.replicate 78 0) ∧
      (∀ arg ∈ [keyText, ascii "m/0h"], 0 ∉ arg) ∧
      (run [keyText, ascii "m/0h"]).exitCode = 0 ∧
      (run [keyText, ascii "m/0h"]).stdout.length = 53 ∧
      (∀ arg ∈ [ascii "0", ascii "1hh"], 0 ∉ arg) ∧
      (run [ascii "0", ascii "1hh"]).stderr = ascii "Error: Invalid base58 character '0'\n" := by
  have hbad : ∀ arg ∈ [ascii "0", ascii "1hh"], 0 ∉ arg := by decide
  have hgood : ∀ arg ∈ [TextFormat.base58Check.encode (List.replicate 78 0), ascii "m/0h"],
      0 ∉ arg := by
    refine List.forall_mem_cons.2 ⟨fun hmem => ?_, by decide⟩
    exact absurd (Base58.mem_alphabet_of_mem_encode hmem) (by decide)
  obtain ⟨hcode, hline, -⟩ := run_outcome hgood
  obtain ⟨-, -, -, -, -, hkey⟩ := run_outcome hbad
  refine ⟨_, rfl, hgood, ?_⟩
  -- the digests are left alone: a path in range leads somewhere
  have hpath : Path.parse (ascii "m/0h") = .ok [{ index := 0, hardened := true }] := by decide
  have hlawful := TextFormat.lawful_base58Check
  have hderives := (material_encode hlawful ⟨List.replicate 78 0, rfl⟩ _).trans (congrArg _ hpath)
  obtain ⟨text, hwif, -⟩ := exists_wif_decode_eq hlawful hderives
  have hzero := hcode.2 ⟨_, _, text, rfl, hwif⟩
  obtain ⟨_, _, _, -, -, -, hlength, -⟩ := hline hzero
  refine ⟨hzero, hlength, hbad, ?_⟩
  have hsymbol : TextFormat.base58Check.decode (ascii "0") = .error (.badSymbol 0x30) := rfl
  have hunreadable : ¬ Readable (ascii "0") := by
    rintro ⟨payload, hpayload, -⟩
    rw [hsymbol] at hpayload
    cases hpayload
  obtain ⟨_, _, failure, hargs, hfirst, hstderr⟩ := hkey.2 ⟨_, _, rfl, hunreadable⟩
  cases hargs
  rw [hstderr, hfirst.unique (.undecoded hsymbol)]
  decide

end KeyTree.CommandLine
