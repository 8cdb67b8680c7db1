/-
What the tests say of a launch by its registers (`assert_launched` and `assert_not_launched` of `tests/test_xen.py`), against
what the TPM went through.

A TPM of `Tpm` starts up with the DRTM registers at ones. Its history is any sequence of locality 4 starts, which only a launch
makes, and of extends. Each key of the launch record may be missing.

- `after_register`: a DRTM register is the hash chain of what it was given since the last start, or since the startup.
- `assertLaunched_iff`, `assertNotLaunched_iff`: what the assertions ask.
- `launch_told`: a boot passes the one exactly where there was a launch that went through, and the other exactly where nothing
  touched the registers, unless the hash is broken by strings at hand.
-/
import DrtmTest.LaunchLog
import Mathlib.Data.List.DropRight

namespace DrtmTest.LaunchVerdict

open DrtmTest.Bytes DrtmTest.EventLog DrtmTest.HashChain DrtmTest.LaunchLog

/-! ## The assertions -/

def pcrZero : String := String.ofList (List.replicate 64 '0')

def pcrOnes : String := String.ofList (List.replicate 64 'f')

/-- one extend by ones, over zeros -/
def pcrCapped : String := "bba91ca85dc914b2ec3efb9e16e7267bf9193b14350d20fba8a8b406730ae30a"

/-- the service's DRTM_CMD_TMR_RELEASE -/
def pspCmdTmrRelease : ℕ := 3

structure PspRecord where
  kicked : Option Bool
  launch : Option String
  signature : Option String
  command : Option ℕ
  status : Option ℕ

structure LaunchRecord where
  launched : Option Bool
  hash : Option String
  slbLength : Option ℕ
  slDev : Option Bool
  dmaBlocks : Option (List String)
  psp : Option PspRecord

/-- what the assertions read of a boot -/
structure Launch where
  record : LaunchRecord
  pcrs : Dict ℕ String

/-- `record[key]` -/
def field {α : Type} (value : Option α) : Except CheckError α :=
  match value with
  | none => .error .keyError
  | some a => .ok a

def checkField {α : Type} (value : Option α) (p : α → Prop) [DecidablePred p] : Except CheckError Unit :=
  field value >>= fun a => check (p a)

def assertPsp (psp : PspRecord) : Except CheckError Unit := do
  checkField psp.kicked (· = true)
  checkField psp.launch (· = "ok")
  checkField psp.signature (· ∈ ["verified", "unsupported"])
  checkField psp.command (· = pspCmdTmrRelease)
  checkField psp.status (· = 0)

/-- `assert_launched`, for what `PSP` is -/
def assertLaunched (psp : Option String) (b : Launch) : Except CheckError Unit := do
  checkField b.record.launched (· = true)
  checkField b.record.hash (· = "ok")
  checkField b.record.slbLength (0 < ·)
  checkField b.record.slDev (· = false)
  checkField b.record.dmaBlocks (· = [])
  checkField (b.pcrs.get? 17) (· ∉ [pcrZero, pcrOnes])
  checkField (b.pcrs.get? 18) (· ∉ [pcrZero, pcrOnes, pcrCapped])
  (List.range' 19 4).forM fun index => checkField (b.pcrs.get? index) (· = pcrZero)
  if psp = none then check (b.record.psp.isNone = true) else field b.record.psp >>= assertPsp

/-- the DRTM registers -/
def drtmPcrs : List ℕ := List.range' 17 6

/-- `assert_not_launched`, for what `VENDOR` is -/
def assertNotLaunched (vendor : String) (b : Launch) : Except CheckError Unit := do
  if vendor = "amd" then checkField b.record.launched (· = false)
  drtmPcrs.forM fun index => checkField (b.pcrs.get? index) (· = pcrOnes)

/-! ## The TPM -/

/-- what happens to a TPM behind its startup -/
inductive TpmStep where
  /-- a locality 4 start -/
  | start
  | extend (m : Tpm.Measurement)

def TpmStep.isStart : TpmStep → Bool
  | .start => true
  | .extend _ => false

def TpmStep.measurement : TpmStep → Option Tpm.Measurement
  | .start => none
  | .extend m => some m

section

variable (hashlib : String → Hash)

def startup : Tpm.State := fun pcr bank =>
  if pcr ∈ drtmPcrs then List.replicate (hashlib bank).digestSize 0xFF else Tpm.start hashlib pcr bank

def TpmStep.apply (s : Tpm.State) : TpmStep → Tpm.State
  | .start => fun pcr bank => if pcr ∈ drtmPcrs then Tpm.start hashlib pcr bank else s pcr bank
  | .extend m => Tpm.extend hashlib s m

/-- the TPM after a history -/
def after (steps : List TpmStep) : Tpm.State := steps.foldl (TpmStep.apply hashlib) (startup hashlib)

end

def launched (steps : List TpmStep) : Bool := steps.any TpmStep.isStart

/-- the extends behind the last start -/
def behindStart (steps : List TpmStep) : List Tpm.Measurement :=
  (steps.rtakeWhile fun step => !step.isStart).filterMap TpmStep.measurement

/-- what the DRTM registers held before the extends behind the last start -/
def base (hash : Hash) (steps : List TpmStep) : Bytes :=
  List.replicate hash.digestSize (if launched steps then 0 else 0xFF)

theorem behindStart_start (steps : List TpmStep) : behindStart (steps ++ [.start]) = [] := by
  rw [behindStart, List.rtakeWhile_concat, if_neg (by simp [TpmStep.isStart])]
  rfl

theorem behindStart_extend (steps : List TpmStep) (m : Tpm.Measurement) :
    behindStart (steps ++ [.extend m]) = behindStart steps ++ [m] := by
  rw [behindStart, List.rtakeWhile_concat, if_pos (by simp [TpmStep.isStart]), List.filterMap_append]
  rfl

/-- a DRTM register is the chain of what it was given since the last start -/
theorem after_register (hashlib : String → Hash) (steps : List TpmStep) {pcr : ℕ} (hpcr : pcr ∈ drtmPcrs) (bank : String) :
    after hashlib steps pcr bank =
      chain (hashlib bank).digest (base (hashlib bank) steps) (given pcr bank (behindStart steps)) := by
  induction steps using List.reverseRecOn with
  | nil => exact if_pos hpcr
  | append_singleton steps step ih =>
    have hlast : after hashlib (steps ++ [step]) = step.apply hashlib (after hashlib steps) := by
      rw [after, List.foldl_append]
      rfl
    rw [hlast]
    cases step with
    | start =>
      have hbase : base (hashlib bank) (steps ++ [.start]) = Tpm.start hashlib pcr bank := by
        rw [base, launched, List.any_append]
        simp [TpmStep.isStart, Tpm.start]
      rw [behindStart_start, hbase]
      exact if_pos hpcr
    | extend m =>
      have hbase : base (hashlib bank) (steps ++ [.extend m]) = base (hashlib bank) steps := by
        rw [base, base, launched, launched, List.any_append]
        simp [TpmStep.isStart]
      have hone := run_chain hashlib (after hashlib steps) [m] pcr bank
      rw [behindStart_extend, hbase, given, List.filterMap_append, chain_append, ← given, ← ih]
      exact hone

/-! ## What the assertions ask -/

theorem checkField_ok {α : Type} {value : Option α} {p : α → Prop} [DecidablePred p] :
    checkField value p = .ok () ↔ ∃ a, value = some a ∧ p a := by
  cases value with
  | none => exact iff_of_false nofun nofun
  | some a =>
    have hcheck : checkField (some a) p = check (p a) := rfl
    rw [hcheck, check_ok]
    exact ⟨fun h => ⟨a, rfl, h⟩, fun ⟨_, ha, h⟩ => by cases ha; exact h⟩

theorem checkField_eq {α : Type} {value : Option α} {a : α} [DecidablePred (· = a)] :
    checkField value (· = a) = .ok () ↔ value = some a := by
  rw [checkField_ok]
  exact ⟨fun ⟨_, h, ha⟩ => ha ▸ h, fun h => ⟨a, h, rfl⟩⟩

/-- the service's own record of a launch that went through -/
structure Served (psp : PspRecord) : Prop where
  kicked : psp.kicked = some true
  launch : psp.launch = some "ok"
  signature : ∃ signature, psp.signature = some signature ∧ signature ∈ ["verified", "unsupported"]
  command : psp.command = some pspCmdTmrRelease
  status : psp.status = some 0

/-- the platform's record of a launch that went through -/
structure Recorded (psp : Option String) (r : LaunchRecord) : Prop where
  launched : r.launched = some true
  hash : r.hash = some "ok"
  length : ∃ length, r.slbLength = some length ∧ 0 < length
  slDev : r.slDev = some false
  dmaBlocks : r.dmaBlocks = some []
  plain : psp = none → r.psp = none
  served : psp ≠ none → ∃ p, r.psp = some p ∧ Served p

theorem assertPsp_ok {p : PspRecord} : assertPsp p = .ok () ↔ Served p := by
  simp only [assertPsp, bind_ok, checkField_eq, checkField_ok (p := (· ∈ ["verified", "unsupported"]))]
  exact ⟨fun ⟨h₁, h₂, h₃, h₄, h₅⟩ => ⟨h₁, h₂, h₃, h₄, h₅⟩, fun h => ⟨h.1, h.2, h.3, h.4, h.5⟩⟩

theorem pspPart_ok {psp : Option String} {r : LaunchRecord} :
    (if psp = none then check (r.psp.isNone = true) else field r.psp >>= assertPsp) = .ok () ↔
      (psp = none → r.psp = none) ∧ (psp ≠ none → ∃ p, r.psp = some p ∧ Served p) := by
  split_ifs with hnone
  · rw [check_ok, Option.isNone_iff_eq_none]
    exact ⟨fun h => ⟨fun _ => h, fun hno => absurd hnone hno⟩, fun h => h.1 hnone⟩
  · have hfield : (field r.psp >>= assertPsp) = .ok () ↔ ∃ p, r.psp = some p ∧ Served p := by
      cases r.psp with
      | none =>
        refine iff_of_false (fun h => by cases h) ?_
        rintro ⟨_, h, -⟩
        cases h
      | some p =>
        change assertPsp p = .ok () ↔ _
        rw [assertPsp_ok]
        constructor
        · exact fun h => ⟨p, rfl, h⟩
        · rintro ⟨_, hp, h⟩
          cases hp
          exact h
    rw [hfield]
    exact ⟨fun h => ⟨fun hno => absurd hno hnone, fun _ => h⟩, fun h => h.2 hnone⟩

theorem assertLaunched_iff {psp : Option String} {b : Launch} : assertLaunched psp b = .ok () ↔
    Recorded psp b.record ∧ (∃ value, b.pcrs.get? 17 = some value ∧ value ∉ [pcrZero, pcrOnes]) ∧
      (∃ value, b.pcrs.get? 18 = some value ∧ value ∉ [pcrZero, pcrOnes, pcrCapped]) ∧
      ∀ index ∈ List.range' 19 4, b.pcrs.get? index = some pcrZero := by
  simp only [assertLaunched, bind_ok, forM_ok, pspPart_ok, checkField_eq, checkField_ok (p := (0 < ·)),
    checkField_ok (p := (· ∉ [pcrZero, pcrOnes])), checkField_ok (p := (· ∉ [pcrZero, pcrOnes, pcrCapped]))]
  constructor
  · rintro ⟨h₁, h₂, h₃, h₄, h₅, h17, h18, hrest, hplain, hserved⟩
    exact ⟨⟨h₁, h₂, h₃, h₄, h₅, hplain, hserved⟩, h17, h18, hrest⟩
  · rintro ⟨h, h17, h18, hrest⟩
    exact ⟨h.launched, h.hash, h.length, h.slDev, h.dmaBlocks, h17, h18, hrest, h.plain, h.served⟩

theorem assertNotLaunched_iff {vendor : String} {b : Launch} : assertNotLaunched vendor b = .ok () ↔
    (vendor = "amd" → b.record.launched = some false) ∧ ∀ index ∈ drtmPcrs, b.pcrs.get? index = some pcrOnes := by
  unfold assertNotLaunched
  split_ifs with hamd
  · rw [bind_ok, checkField_eq, forM_ok]
    simp only [checkField_eq, hamd, true_implies]
  · simp only [forM_ok, checkField_eq, hamd, false_implies, true_and]

/-! ## What the registers tell -/

def zeros : Bytes := List.replicate 32 0

def ones : Bytes := List.replicate 32 0xFF

/-- the boot shows the DRTM registers of the SHA-256 bank -/
def Shows (hashlib : String → Hash) (steps : List TpmStep) (b : Launch) : Prop :=
  ∀ pcr ∈ drtmPcrs, b.pcrs.get? pcr = some (toHex (after hashlib steps pcr "sha256"))

/-- one of the strings hashed gives the zeros, or the ones, or the digest of a cap it is not -/
def Broken (hash : Hash) (steps : List TpmStep) : Prop :=
  ∃ pcr ∈ drtmPcrs, ∃ x ∈ hashed hash.digest (base hash steps) (given pcr "sha256" (behindStart steps)),
    hash.digest x = zeros ∨ hash.digest x = ones ∨ x ≠ zeros ++ ones ∧ hash.digest x = hash.digest (zeros ++ ones)

/-- a launch that went through: a start, then the SKL into 17, more than a cap into 18, and nothing into the others -/
structure WentThrough (steps : List TpmStep) : Prop where
  start : launched steps = true
  skl : given 17 "sha256" (behindStart steps) ≠ []
  more : given 18 "sha256" (behindStart steps) ≠ []
  uncapped : given 18 "sha256" (behindStart steps) ≠ [ones]
  rest : ∀ pcr ∈ List.range' 19 4, given pcr "sha256" (behindStart steps) = []

/-- nothing touched the DRTM registers -/
structure Untouched (steps : List TpmStep) : Prop where
  start : launched steps = false
  rest : ∀ pcr ∈ drtmPcrs, given pcr "sha256" (behindStart steps) = []

section Registers

variable {hash : Hash} {steps : List TpmStep} {pcr : ℕ}

theorem base_eq (steps : List TpmStep) (hsize : hash.digestSize = 32) :
    base hash steps = if launched steps then zeros else ones := by
  rw [base, hsize]
  cases launched steps <;> rfl

theorem zeros_ne_ones : zeros ≠ ones := by decide

/-- the value of a register -/
def register (hash : Hash) (steps : List TpmStep) (pcr : ℕ) : Bytes :=
  chain hash.digest (base hash steps) (given pcr "sha256" (behindStart steps))

/-- a register that holds the zeros or the ones was given nothing -/
theorem register_nil (hsound : ¬ Broken hash steps) (hpcr : pcr ∈ drtmPcrs) {value : Bytes}
    (hvalue : value = zeros ∨ value = ones) : register hash steps pcr = value ↔
      given pcr "sha256" (behindStart steps) = [] ∧ base hash steps = value := by
  constructor
  · intro h
    by_cases hnil : given pcr "sha256" (behindStart steps) = []
    · rw [register, hnil] at h
      exact ⟨hnil, h⟩
    · obtain ⟨es, d, -, hmem, hlast⟩ := chain_last hash.digest (base hash steps) hnil
      refine absurd ⟨pcr, hpcr, _, hmem, ?_⟩ hsound
      rw [register, hlast] at h
      rcases hvalue with rfl | rfl
      · exact .inl h
      · exact .inr (.inl h)
  · rintro ⟨hnil, hbase⟩
    rw [register, hnil, ← hbase]
    rfl

/-- a register that holds the cap was given the ones alone, over zeros -/
theorem register_capped (hsize : hash.digestSize = 32) (hsound : ¬ Broken hash steps) (hpcr : pcr ∈ drtmPcrs)
    (hne : given pcr "sha256" (behindStart steps) ≠ []) (h : register hash steps pcr = hash.digest (zeros ++ ones)) :
    given pcr "sha256" (behindStart steps) = [ones] := by
  obtain ⟨es, d, hds, hmem, hlast⟩ := chain_last hash.digest (base hash steps) hne
  rw [register, hlast] at h
  have hstring : chain hash.digest (base hash steps) es ++ d = zeros ++ ones := by
    by_contra hno
    exact hsound ⟨pcr, hpcr, _, hmem, .inr (.inr ⟨hno, h⟩)⟩
  have hlength : (chain hash.digest (base hash steps) es).length = zeros.length := by
    have hbase : (base hash steps).length = hash.digestSize := by rw [base, List.length_replicate]
    rw [chain_length hash.digest_length hbase es, hsize]
    rfl
  obtain ⟨hbefore, rfl⟩ := List.append_inj hstring hlength
  rcases eq_or_ne es [] with rfl | hes
  · exact hds
  · obtain ⟨fs, e, rfl, hmem', hlast'⟩ := chain_last hash.digest (base hash steps) hes
    refine absurd ⟨pcr, hpcr, _, ?_, .inl (hlast'.symm.trans hbefore)⟩ hsound
    rw [hds, hashed_append]
    exact List.mem_append_left _ hmem'

end Registers

theorem toHex_zeros : toHex zeros = pcrZero := by decide +kernel

theorem toHex_ones : toHex ones = pcrOnes := by decide +kernel

theorem toHex_eq {a b : Bytes} : toHex a = toHex b ↔ a = b := ⟨ReplayCommits.toHex_injective a b, congrArg toHex⟩

section Told

variable {hashlib : String → Hash} {steps : List TpmStep} {b : Launch}

/-- what a boot shows of a register -/
theorem shows_register (hshown : Shows hashlib steps b) {pcr : ℕ} (hpcr : pcr ∈ drtmPcrs) :
    b.pcrs.get? pcr = some (toHex (register (hashlib "sha256") steps pcr)) := by
  rw [hshown pcr hpcr, after_register hashlib steps hpcr, register]

/-- the registers `assertLaunched` asks for are those of a launch that went through -/
theorem registers_launched (hsize : (hashlib "sha256").digestSize = 32)
    (hcap : toHex ((hashlib "sha256").digest (zeros ++ ones)) = pcrCapped) (hshown : Shows hashlib steps b)
    (hsound : ¬ Broken (hashlib "sha256") steps) :
    ((∃ value, b.pcrs.get? 17 = some value ∧ value ∉ [pcrZero, pcrOnes]) ∧
      (∃ value, b.pcrs.get? 18 = some value ∧ value ∉ [pcrZero, pcrOnes, pcrCapped]) ∧
      ∀ index ∈ List.range' 19 4, b.pcrs.get? index = some pcrZero) ↔ WentThrough steps := by
  have h17 : 17 ∈ drtmPcrs := by decide
  have h18 : 18 ∈ drtmPcrs := by decide
  have hrest : ∀ pcr ∈ List.range' 19 4, pcr ∈ drtmPcrs := by decide
  have hbase := base_eq steps hsize
  have hzero : ∀ pcr ∈ drtmPcrs, toHex (register (hashlib "sha256") steps pcr) = pcrZero ↔
      given pcr "sha256" (behindStart steps) = [] ∧ launched steps = true := by
    intro pcr hpcr
    rw [← toHex_zeros, toHex_eq, register_nil hsound hpcr (.inl rfl), hbase]
    cases launched steps <;> simp [zeros_ne_ones.symm]
  have hones : ∀ pcr ∈ drtmPcrs, toHex (register (hashlib "sha256") steps pcr) = pcrOnes ↔
      given pcr "sha256" (behindStart steps) = [] ∧ launched steps = false := by
    intro pcr hpcr
    rw [← toHex_ones, toHex_eq, register_nil hsound hpcr (.inr rfl), hbase]
    cases launched steps <;> simp [zeros_ne_ones]
  constructor
  · rintro ⟨⟨value, hvalue, hne⟩, ⟨value', hvalue', hne'⟩, hzeros⟩
    rw [shows_register hshown h17, Option.some.injEq] at hvalue
    rw [shows_register hshown h18, Option.some.injEq] at hvalue'
    have hnil : ∀ pcr ∈ List.range' 19 4, given pcr "sha256" (behindStart steps) = [] ∧ launched steps = true := by
      intro pcr hpcr
      have hread := hzeros pcr hpcr
      rw [shows_register hshown (hrest pcr hpcr), Option.some.injEq] at hread
      exact (hzero pcr (hrest pcr hpcr)).1 hread
    have hstart : launched steps = true := (hnil 19 (by decide)).2
    refine ⟨hstart, fun h => hne ?_, fun h => hne' ?_, fun h => hne' ?_, fun pcr hpcr => (hnil pcr hpcr).1⟩
    · rw [← hvalue, (hzero 17 h17).2 ⟨h, hstart⟩]
      exact List.mem_cons_self
    · rw [← hvalue', (hzero 18 h18).2 ⟨h, hstart⟩]
      exact List.mem_cons_self
    · rw [← hvalue', register, h, hbase, hstart, if_pos rfl, chain_cons, chain_nil, hcap]
      simp
  · intro h
    have hread : ∀ pcr ∈ drtmPcrs, given pcr "sha256" (behindStart steps) ≠ [] →
        toHex (register (hashlib "sha256") steps pcr) ∉ [pcrZero, pcrOnes] := by
      intro pcr hpcr hne hmem
      rcases List.mem_pair.1 hmem with hz | ho
      · exact hne ((hzero pcr hpcr).1 hz).1
      · exact hne ((hones pcr hpcr).1 ho).1
    refine ⟨⟨_, shows_register hshown h17, hread 17 h17 h.skl⟩, ⟨_, shows_register hshown h18, fun hmem => ?_⟩,
      fun pcr hpcr => ?_⟩
    · rcases List.mem_cons.1 hmem with hz | hmem
      · exact hread 18 h18 h.more (hz ▸ List.mem_cons_self)
      · rcases List.mem_pair.1 hmem with ho | hc
        · exact hread 18 h18 h.more (List.mem_pair.2 (.inr ho))
        · rw [← hcap, toHex_eq] at hc
          exact h.uncapped (register_capped hsize hsound h18 h.more hc)
    · rw [shows_register hshown (hrest pcr hpcr), (hzero pcr (hrest pcr hpcr)).2 ⟨h.rest pcr hpcr, h.start⟩]

/-- the registers `assertNotLaunched` asks for are those nothing touched -/
theorem registers_untouched (hsize : (hashlib "sha256").digestSize = 32) (hshown : Shows hashlib steps b)
    (hsound : ¬ Broken (hashlib "sha256") steps) :
    (∀ index ∈ drtmPcrs, b.pcrs.get? index = some pcrOnes) ↔ Untouched steps := by
  have hbase := base_eq steps hsize
  have hones : ∀ pcr ∈ drtmPcrs, b.pcrs.get? pcr = some pcrOnes ↔
      given pcr "sha256" (behindStart steps) = [] ∧ launched steps = false := by
    intro pcr hpcr
    rw [shows_register hshown hpcr, Option.some.injEq, ← toHex_ones, toHex_eq, register_nil hsound hpcr (.inr rfl), hbase]
    cases launched steps <;> simp [zeros_ne_ones]
  constructor
  · intro h
    exact ⟨((hones 17 (by decide)).1 (h 17 (by decide))).2, fun pcr hpcr => ((hones pcr hpcr).1 (h pcr hpcr)).1⟩
  · exact fun h pcr hpcr => (hones pcr hpcr).2 ⟨h.rest pcr hpcr, h.start⟩

end Told

/-- **The registers tell a launch.** Take any history of the TPM behind its startup, of any number of locality 4 starts and
any extends in any order, and any record the platform gives. Unless the hash is broken by strings at hand, `assert_launched`
passes exactly where the record says so and, since the last start, PCR 17 was extended, PCR 18 by more than the cap of a
failed launch, and PCR 19 to 22 by nothing, and `assert_not_launched` exactly where there was no start and no extend of any
of them. -/
theorem launch_told (hashlib : String → Hash) (hsize : (hashlib "sha256").digestSize = 32)
    (hcap : toHex ((hashlib "sha256").digest (zeros ++ ones)) = pcrCapped) (steps : List TpmStep) (b : Launch)
    (hshown : Shows hashlib steps b) (psp : Option String) (vendor : String) :
    Broken (hashlib "sha256") steps ∨
      (assertLaunched psp b = .ok () ↔ Recorded psp b.record ∧ WentThrough steps) ∧
        (assertNotLaunched vendor b = .ok () ↔
          (vendor = "amd" → b.record.launched = some false) ∧ Untouched steps) := by
  by_cases hsound : Broken (hashlib "sha256") steps
  · exact .inl hsound
  · refine .inr ⟨?_, ?_⟩
    · rw [assertLaunched_iff, registers_launched hsize hcap hshown hsound]
    · rw [assertNotLaunched_iff, registers_untouched hsize hshown hsound]

/-- what the SKL measures, and the kernel behind it -/
def sklDigest : Bytes := List.replicate 32 1

def kernelDigest : Bytes := List.replicate 32 2

/-- SHA-256 on the three strings the sample hashes -/
def sampleHash : Hash where
  digestSize := 32
  digest m :=
    if m = zeros ++ ones then
      [0xBB, 0xA9, 0x1C, 0xA8, 0x5D, 0xC9, 0x14, 0xB2, 0xEC, 0x3E, 0xFB, 0x9E, 0x16, 0xE7, 0x26, 0x7B, 0xF9, 0x19,
       0x3B, 0x14, 0x35, 0x0D, 0x20, 0xFB, 0xA8, 0xA8, 0xB4, 0x06, 0x73, 0x0A, 0xE3, 0x0A]
    else if m = zeros ++ sklDigest then
      [0x5C, 0x85, 0x95, 0x5F, 0x70, 0x92, 0x83, 0xEC, 0xCE, 0x2B, 0x74, 0xF1, 0xB1, 0x55, 0x29, 0x18, 0x81, 0x9F,
       0x39, 0x09, 0x11, 0x81, 0x6E, 0x7B, 0xB4, 0x66, 0x80, 0x5A, 0x38, 0xAB, 0x87, 0xF3]
    else if m = zeros ++ kernelDigest then
      [0x36, 0xB7, 0x21, 0x7F, 0x97, 0x99, 0xDA, 0xDC, 0xDA, 0x35, 0x46, 0x26, 0x7E, 0x32, 0xD6, 0x77, 0x4A, 0x1C,
       0xE2, 0xA7, 0x6D, 0xE7, 0xC2, 0x0C, 0x33, 0x6F, 0x16, 0x0E, 0x68, 0x48, 0x1C, 0x38]
    else List.replicate 32 7
  digest_length m := by
    split_ifs <;> rfl

/-- a launch behind one that failed and was capped -/
def sampleSteps : List TpmStep :=
  [.start, .extend ⟨18, false, fun _ => some ones⟩, .start, .extend ⟨17, false, fun _ => some sklDigest⟩,
    .extend ⟨18, false, fun _ => some kernelDigest⟩]

def sampleLaunch : Launch where
  record := ⟨some true, some "ok", some 65536, some false, some [], none⟩
  pcrs := Dict.ofKeys drtmPcrs fun pcr => toHex (after (fun _ => sampleHash) sampleSteps pcr "sha256")

theorem launch_told_capped : assertLaunched none sampleLaunch = .ok () := by
  have hshown : Shows (fun _ => sampleHash) sampleSteps sampleLaunch := fun pcr hpcr => by
    rw [sampleLaunch, Dict.get?_ofKeys, if_pos hpcr]
  have hsound : ¬ Broken sampleHash sampleSteps := by
    unfold Broken
    decide +kernel
  have htold := (launch_told (fun _ => sampleHash) rfl (by decide +kernel) sampleSteps sampleLaunch hshown none "amd").resolve_left
    hsound
  exact htold.1.2 ⟨⟨rfl, rfl, ⟨65536, rfl, by decide⟩, rfl, rfl, fun _ => rfl, fun h => absurd rfl h⟩,
    ⟨by decide, by decide, by decide, by decide, by decide⟩⟩

end DrtmTest.LaunchVerdict
