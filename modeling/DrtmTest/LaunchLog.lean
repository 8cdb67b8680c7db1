/-
The check of a launch's event log against its PCRs (`assert_log_replays` of `tests/test_xen.py`), and what it says of the
launch.

What it reads of a boot is a `Boot`. The TPM is that of `Tpm`, reset by the locality 4 start. `given` are the digests it was
extended with, in one PCR of one bank, and `logged` those the log accounts for: in PCR 17 first that of the SLB.

- `run_chain`: a register is the hash chain of what the TPM was given.
- `assertLogReplays_iff`: the check passes exactly where each of its assertions holds.
- `log_accounts`: where it passes, what the TPM was given is what the log says, or the hash is broken. A log that says what
  the TPM was given passes, whatever its SKINIT record holds in the banks the SKL cannot hash.
-/
import DrtmTest.LogDump
import DrtmTest.ReplayCommits
import DrtmTest.Tpm

namespace DrtmTest.LaunchLog

open DrtmTest.Bytes DrtmTest.EventLog DrtmTest.HashChain DrtmTest.ReplayCommits

/-! ## The check -/

def evSlaunch : ℕ := 0x502

/-- `b"SKINIT"` -/
def skinit : Bytes := [0x53, 0x4B, 0x49, 0x4E, 0x49, 0x54]

/-- the digests the SKL computes itself -/
def sklHashes : List String := ["sha1", "sha256"]

/-- the PCRs of the launch -/
def launchPcrs : List ℕ := [17, 18]

/-- what the check reads of a boot -/
structure Boot where
  eventlog : Bytes
  /-- `slb-length` of the launch record -/
  recordLength : Option ℕ
  slbLength : ℕ
  slb : Bytes
  bankPcrs : Dict String (Dict ℕ String)

inductive CheckError where
  | assertion
  | keyError
  | log (e : LogError)

/-- the event log's events, none when nothing was dumped -/
def Boot.events (b : Boot) : Except LogError (List Event) := if b.eventlog = [] then .ok [] else parse b.eventlog

/-- `assert` -/
def check (p : Prop) [Decidable p] : Except CheckError Unit := if p then .ok () else .error .assertion

section

variable (hashlib : String → Hash) (available : List String) (b : Boot)

/-- the SLB's digests, in the banks of the TPM that `hashlib` has -/
def slbDigests : Dict String String :=
  Dict.ofKeys (b.bankPcrs.keys.filter (· ∈ available)) fun bank => toHex ((hashlib bank).digest b.slb)

def checkLength : Except CheckError Unit :=
  match b.recordLength with
  | none => .error .keyError
  | some length => check (length = b.slbLength)

/-- SKINIT's record against the SLB -/
def checkSkinit (first : Event) (bank : String) : Except CheckError Unit :=
  match (slbDigests hashlib available b).get? bank, first.digests.get? bank with
  | none, _ => .ok ()
  | some _, none => .error .keyError
  | some digest, some logged => check (logged = digest)

/-- one register against the replay -/
def checkRegister (measured : List Event) (bank : String) (pcr : ℕ) : Except CheckError Unit :=
  match (b.bankPcrs.get? bank).bind fun pcrs => pcrs.get? pcr with
  | none => .error .keyError
  | some got =>
    match replay hashlib measured pcr bank with
    | .error e => .error (.log e)
    | .ok value => check (value = got)

def assertLogReplays : Except CheckError Unit :=
  match b.events with
  | .error e => .error (.log e)
  | .ok [] => .error .assertion
  | .ok (first :: rest) => do
    check ((first.pcr, first.type, first.data) = (17, evSlaunch, skinit))
    checkLength b
    let slb := slbDigests hashlib available b
    check (slb.keys ≠ [])
    sklHashes.forM (checkSkinit hashlib available b first)
    -- the SKL logs a placeholder in the banks it cannot hash, where the launch measured the SLB
    let measured := { first with digests := slb } :: rest
    slb.keys.forM fun bank => launchPcrs.forM (checkRegister hashlib b measured bank)

end

/-! ## The check passes -/

theorem check_ok {p : Prop} [Decidable p] : check p = .ok () ↔ p := by
  unfold check
  split_ifs with h
  · exact iff_of_true rfl h
  · exact iff_of_false nofun h

theorem bind_ok {x : Except CheckError Unit} {y : Unit → Except CheckError Unit} :
    (x >>= y) = .ok () ↔ x = .ok () ∧ y () = .ok () := by
  cases x with
  | error e => exact iff_of_false nofun fun h => by cases h.1
  | ok u => exact ⟨fun h => ⟨rfl, h⟩, fun h => h.2⟩

theorem forM_ok {α : Type} {f : α → Except CheckError Unit} {l : List α} :
    l.forM f = .ok () ↔ ∀ a ∈ l, f a = .ok () := by
  induction l with
  | nil => exact iff_of_true rfl (List.forall_mem_nil _)
  | cons a l ih =>
    change (f a >>= fun _ => l.forM f) = .ok () ↔ _
    rw [bind_ok, ih, List.forall_mem_cons]

variable {hashlib : String → Hash} {available : List String} {b : Boot}

/-- the banks that are checked -/
def Checked (available : List String) (b : Boot) (bank : String) : Prop := bank ∈ b.bankPcrs.keys ∧ bank ∈ available

instance (bank : String) : Decidable (Checked available b bank) := inferInstanceAs (Decidable (_ ∧ _))

theorem slbDigests_keys : (slbDigests hashlib available b).keys = b.bankPcrs.keys.filter (· ∈ available) :=
  Dict.keys_ofKeys ((Dict.keys_nodup _).filter _) _

theorem mem_slbDigests {bank : String} : bank ∈ (slbDigests hashlib available b).keys ↔ Checked available b bank := by
  rw [slbDigests_keys, List.mem_filter, decide_eq_true_eq, Checked]

theorem slbDigests_get? {bank : String} (h : Checked available b bank) :
    (slbDigests hashlib available b).get? bank = some (toHex ((hashlib bank).digest b.slb)) := by
  rw [slbDigests, Dict.get?_ofKeys, if_pos]
  rw [List.mem_filter, decide_eq_true_eq]
  exact h

theorem checkSkinit_ok {first : Event} {bank : String} : checkSkinit hashlib available b first bank = .ok () ↔
    (Checked available b bank → first.digests.get? bank = some (toHex ((hashlib bank).digest b.slb))) := by
  by_cases h : Checked available b bank
  · rw [checkSkinit, slbDigests_get? h]
    cases hd : first.digests.get? bank with
    | none => exact iff_of_false nofun fun hall => by cases hall h
    | some logged =>
      rw [check_ok]
      exact ⟨fun heq _ => by rw [heq], fun hall => Option.some.inj (hall h)⟩
  · have hnone : (slbDigests hashlib available b).get? bank = none := Dict.get?_eq_none.2 fun hk => h (mem_slbDigests.1 hk)
    rw [checkSkinit, hnone]
    exact iff_of_true rfl fun hc => absurd hc h

theorem checkLength_ok : checkLength b = .ok () ↔ b.recordLength = some b.slbLength := by
  unfold checkLength
  cases b.recordLength with
  | none => exact iff_of_false nofun nofun
  | some length => rw [check_ok, Option.some.injEq]

theorem checkRegister_ok {measured : List Event} {bank : String} {pcr : ℕ} :
    checkRegister hashlib b measured bank pcr = .ok () ↔
      ∃ got, (b.bankPcrs.get? bank).bind (fun pcrs => pcrs.get? pcr) = some got ∧
        replay hashlib measured pcr bank = .ok got := by
  unfold checkRegister
  split
  · rename_i hnone
    rw [hnone]
    refine iff_of_false (fun h => by cases h) ?_
    rintro ⟨_, h, -⟩
    cases h
  · rename_i got hgot
    rw [hgot]
    split
    · rename_i e he
      rw [he]
      refine iff_of_false (fun h => by cases h) ?_
      rintro ⟨_, -, h⟩
      cases h
    · rename_i value hvalue
      rw [check_ok, hvalue]
      constructor
      · rintro rfl
        exact ⟨_, rfl, rfl⟩
      · rintro ⟨g, hg, h⟩
        cases hg
        cases h
        rfl

/-- what the check asks of the log's opening -/
structure Opens (hashlib : String → Hash) (available : List String) (b : Boot) (first : Event) : Prop where
  pcr : first.pcr = 17
  type : first.type = evSlaunch
  data : first.data = skinit
  length : b.recordLength = some b.slbLength
  bank : ∃ bank, Checked available b bank
  digests : ∀ bank ∈ sklHashes, Checked available b bank →
    first.digests.get? bank = some (toHex ((hashlib bank).digest b.slb))

/-- the events with the SLB's digest in every bank of the first -/
def measured (hashlib : String → Hash) (available : List String) (b : Boot) (first : Event) (rest : List Event) :
    List Event :=
  { first with digests := slbDigests hashlib available b } :: rest

theorem assertLogReplays_iff : assertLogReplays hashlib available b = .ok () ↔
    ∃ first rest, b.events = .ok (first :: rest) ∧ Opens hashlib available b first ∧
      ∀ bank, Checked available b bank → ∀ pcr ∈ launchPcrs,
        checkRegister hashlib b (measured hashlib available b first rest) bank pcr = .ok () := by
  rcases hevents : b.events with e | events
  · rw [assertLogReplays, hevents]
    exact iff_of_false nofun fun ⟨_, _, h, _⟩ => by cases h
  · cases events with
    | nil =>
      rw [assertLogReplays, hevents]
      exact iff_of_false nofun fun ⟨_, _, h, _⟩ => by cases h
    | cons first rest =>
      have hkeys : (slbDigests hashlib available b).keys ≠ [] ↔ ∃ bank, Checked available b bank :=
        ⟨fun hne => (List.exists_mem_of_ne_nil _ hne).imp fun _ => mem_slbDigests.1,
          fun ⟨_, hbank⟩ => List.ne_nil_of_mem (mem_slbDigests.2 hbank)⟩
      simp only [assertLogReplays, hevents, bind_ok, check_ok, checkLength_ok, hkeys, forM_ok, checkSkinit_ok,
        mem_slbDigests]
      constructor
      · rintro ⟨hhead, hlen, hbank, hskl, hregisters⟩
        obtain ⟨hpcr, htype, hdata⟩ : first.pcr = 17 ∧ first.type = evSlaunch ∧ first.data = skinit := by
          simpa only [Prod.mk.injEq] using hhead
        exact ⟨first, rest, rfl, ⟨hpcr, htype, hdata, hlen, hbank, hskl⟩, hregisters⟩
      · rintro ⟨first', rest', heq, hopens, hregisters⟩
        cases heq
        exact ⟨by rw [hopens.pcr, hopens.type, hopens.data], hopens.length, hopens.bank, hopens.digests, hregisters⟩

/-! ## What the TPM was given -/

/-- the digests the TPM was extended with, in one PCR of one bank -/
def given (pcr : ℕ) (bank : String) (ms : List Tpm.Measurement) : List Bytes :=
  ms.filterMap fun m => if m.noAction ∨ pcr ≠ m.pcr then none else m.digest bank

/-- a register is the hash chain of what it was given -/
theorem run_chain (hashlib : String → Hash) (s : Tpm.State) (ms : List Tpm.Measurement) (pcr : ℕ) (bank : String) :
    Tpm.run hashlib s ms pcr bank = chain (hashlib bank).digest (s pcr bank) (given pcr bank ms) := by
  induction ms generalizing s with
  | nil => rfl
  | cons m ms ih =>
    have hstep : Tpm.run hashlib s (m :: ms) = Tpm.run hashlib (Tpm.extend hashlib s m) ms := rfl
    rw [hstep, ih]
    unfold given
    rw [List.filterMap_cons, Tpm.extend]
    by_cases hskip : m.noAction ∨ pcr ≠ m.pcr
    · simp only [if_pos hskip]
    · simp only [if_neg hskip]
      cases m.digest bank <;> rfl

/-- the registers the check reads are those of a TPM reset by the launch and then extended -/
def Shows (hashlib : String → Hash) (b : Boot) (ms : List Tpm.Measurement) : Prop :=
  ∀ bank ∈ b.bankPcrs.keys, ∀ pcr ∈ launchPcrs, (b.bankPcrs.get? bank).bind (fun pcrs => pcrs.get? pcr) =
    some (toHex (Tpm.run hashlib (Tpm.start hashlib) ms pcr bank))

/-- what the log says a register was given: PCR 17 first the digest of the SLB -/
def logged (hashlib : String → Hash) (slb : Bytes) (rest : List Event) (pcr : ℕ) (bank : String) : List Bytes :=
  (if pcr = 17 then [(hashlib bank).digest slb] else []) ++ extended pcr bank rest

/-- two strings of one digest among those hashed, or one that hashes to the reset register -/
def Broken (hash : Hash) (inputs logged : List Bytes) : Prop :=
  Collision hash.digest (hashed hash.digest (ReplayCommits.start hash) inputs ++
      hashed hash.digest (ReplayCommits.start hash) logged) ∨
    Preimage hash.digest (ReplayCommits.start hash) (hashed hash.digest (ReplayCommits.start hash) inputs ++
      hashed hash.digest (ReplayCommits.start hash) logged)

theorem extended_measured {first : Event} {rest : List Event} (hopens : Opens hashlib available b first) {bank : String}
    (hbank : Checked available b bank) (pcr : ℕ) :
    extended pcr bank (measured hashlib available b first rest) = logged hashlib b.slb rest pcr bank := by
  have hfirst : extendOf pcr bank { first with digests := slbDigests hashlib available b } =
      if pcr = 17 then some ((hashlib bank).digest b.slb) else none := by
    have htype : first.type ≠ evNoAction := by rw [hopens.type]; decide
    simp only [extendOf, hopens.pcr, slbDigests_get? hbank, Option.bind_some, fromHex_toHex, ne_eq, htype,
      not_false_eq_true, and_true, eq_comm]
  rw [measured, logged, extended, List.filterMap_cons, hfirst]
  by_cases hpcr : pcr = 17
  · simp only [if_pos hpcr]
    rfl
  · simp only [if_neg hpcr]
    rfl

/-- the events of a boot have hex digests -/
theorem events_hex {events : List Event} (h : b.events = .ok events) : ∀ e ∈ events, Tpm.HexDigests e := by
  unfold Boot.events at h
  split_ifs at h
  · cases h
    exact List.forall_mem_nil _
  · exact Tpm.parse_hex h

/-- so the replay returns, and the chain of what is logged -/
theorem replay_measured {first : Event} {rest : List Event} (hevents : b.events = .ok (first :: rest))
    (hopens : Opens hashlib available b first) {bank : String} (hbank : Checked available b bank) (pcr : ℕ) :
    replay hashlib (measured hashlib available b first rest) pcr bank =
      .ok (toHex (chain (hashlib bank).digest (ReplayCommits.start (hashlib bank)) (logged hashlib b.slb rest pcr bank))) := by
  have hhex : ∀ e ∈ measured hashlib available b first rest, Tpm.HexDigests e := by
    intro e he
    rcases List.mem_cons.1 he with rfl | he
    · refine Tpm.hexDigests_of_get? fun alg digest hget => ?_
      have hchecked : Checked available b alg := mem_slbDigests.1 (Dict.mem_keys.2 ⟨_, hget⟩)
      simp only [slbDigests_get? hchecked, Option.some.injEq] at hget
      exact ⟨_, hget.symm⟩
    · exact events_hex hevents e (List.mem_cons_of_mem first he)
  have hreplay := Tpm.replay_register hashlib hhex pcr bank
  rw [hreplay, ← extended_measured hopens hbank, ← (replay_chain hreplay).1]

/-- the check of a register compares the two chains -/
theorem checkRegister_chain {ms : List Tpm.Measurement} (hshown : Shows hashlib b ms) {first : Event} {rest : List Event}
    (hevents : b.events = .ok (first :: rest)) (hopens : Opens hashlib available b first) {bank : String}
    (hbank : Checked available b bank) {pcr : ℕ} (hpcr : pcr ∈ launchPcrs) :
    checkRegister hashlib b (measured hashlib available b first rest) bank pcr = .ok () ↔
      chain (hashlib bank).digest (ReplayCommits.start (hashlib bank)) (given pcr bank ms) =
        chain (hashlib bank).digest (ReplayCommits.start (hashlib bank)) (logged hashlib b.slb rest pcr bank) := by
  have hread := hshown bank hbank.1 pcr hpcr
  rw [run_chain] at hread
  rw [checkRegister_ok, hread, replay_measured hevents hopens hbank]
  constructor
  · rintro ⟨got, hgot, hvalue⟩
    rw [← Option.some.inj hgot] at hvalue
    exact (toHex_injective _ _ (Except.ok.inj hvalue)).symm
  · intro heq
    exact ⟨_, rfl, by rw [← heq]; rfl⟩

/-- **A log that replays accounts for the launch.** Take any extends the TPM was given after the launch reset it, and any
bytes as the log. Where the check passes, the log opens with SKINIT's record, and in every bank checked PCR 17 was given the
digest of the SLB and then what the log's further records say, and PCR 18 what they say, each in the log's order and nothing
else, unless the hash is broken by strings at hand. And a log of which all this holds passes the check, whatever SKINIT's
record holds in a bank the SKL cannot hash. -/
theorem log_accounts (hashlib : String → Hash) (available : List String) (b : Boot) (ms : List Tpm.Measurement)
    (hshown : Shows hashlib b ms) :
    (assertLogReplays hashlib available b = .ok () →
        ∃ first rest, b.events = .ok (first :: rest) ∧ Opens hashlib available b first ∧
          ∀ bank, Checked available b bank → ∀ pcr ∈ launchPcrs,
            given pcr bank ms = logged hashlib b.slb rest pcr bank ∨
              Broken (hashlib bank) (given pcr bank ms) (logged hashlib b.slb rest pcr bank)) ∧
      ∀ first rest, b.events = .ok (first :: rest) → Opens hashlib available b first →
        (∀ bank, Checked available b bank → ∀ pcr ∈ launchPcrs, given pcr bank ms = logged hashlib b.slb rest pcr bank) →
        assertLogReplays hashlib available b = .ok () := by
  constructor
  · intro hpasses
    obtain ⟨first, rest, hevents, hopens, hregisters⟩ := assertLogReplays_iff.1 hpasses
    refine ⟨first, rest, hevents, hopens, fun bank hbank pcr hpcr => ?_⟩
    have heq := (checkRegister_chain hshown hevents hopens hbank hpcr).1 (hregisters bank hbank pcr hpcr)
    exact chain_commits (hashlib bank).digest_length List.length_replicate _ _ heq
  · intro first rest hevents hopens hgiven
    refine assertLogReplays_iff.2 ⟨first, rest, hevents, hopens, fun bank hbank pcr hpcr => ?_⟩
    rw [checkRegister_chain hshown hevents hopens hbank hpcr, hgiven bank hbank pcr hpcr]

/-! ## A launch of two banks, one of which the SKL cannot hash -/

def sampleHash : Hash := ⟨1, fun m => [m.foldl (fun a x => 3 * a + x + 1) 0], fun _ => rfl⟩

def sampleHeader : Tcg2Log.Header where
  pcr := 0
  digest := List.replicate 20 0
  platform := List.replicate 8 0
  banks := [(0x000B, 1), (0x000C, 1)]
  vendorInfo := [0]
  digest_length := rfl
  platform_length := rfl
  distinct := by decide
  fits := by decide

def sampleRecord (pcr : UInt32) (sha256 sha384 : UInt8) (data : Bytes) (h : data.length < 2 ^ 32) :
    Tcg2Log.Record sampleHeader where
  pcr := pcr
  type := 0x502
  digests := [(0x000B, [sha256]), (0x000C, [sha384])]
  data := data
  nonempty := List.cons_ne_nil _ _
  distinct := (by decide : ([0x000B, 0x000C] : List UInt16).Nodup)
  declared d hd := by
    simp only [List.mem_cons, List.not_mem_nil, or_false] at hd
    rcases hd with rfl | rfl
    · exact ⟨1, List.mem_cons_self, rfl⟩
    · exact ⟨1, List.mem_cons_of_mem _ List.mem_cons_self, rfl⟩
  small := h

/-- SKINIT's record with a placeholder for SHA-384, and one of the kernel -/
def sampleRecords : List (Tcg2Log.Record sampleHeader) :=
  [sampleRecord 17 0x1F 0 skinit (by decide), sampleRecord 18 0xB1 0xC1 [] (by decide)]

def sampleBoot : Boot where
  eventlog := LogDump.buffer sampleHeader sampleRecords 0
  recordLength := some 3
  slbLength := 3
  slb := [1, 2, 3]
  bankPcrs :=
    ⟨[("sha256", ⟨[(17, "23"), (18, "b5")], by decide⟩), ("sha384", ⟨[(17, "23"), (18, "c5")], by decide⟩)], by decide⟩

/-- the launch measures the SLB in every bank -/
def sampleGiven : List Tpm.Measurement :=
  [⟨17, false, fun _ => some [0x1F]⟩, ⟨18, false, fun bank => some (if bank = "sha256" then [0xB1] else [0xC1])⟩]

theorem log_accounts_placeholder :
    assertLogReplays (fun _ => sampleHash) ["sha1", "sha256", "sha384"] sampleBoot = .ok () := by
  have hbanks : sampleBoot.bankPcrs.keys = ["sha256", "sha384"] := rfl
  have hshown : Shows (fun _ => sampleHash) sampleBoot sampleGiven := by
    unfold Shows
    rw [hbanks]
    decide
  have hevents : sampleBoot.events = .ok (sampleRecords.map Tcg2Log.Record.toEvent) := by
    rw [Boot.events, if_neg (by decide +kernel)]
    exact (LogDump.parse_buffer (m := 16) (by decide +kernel)).1
  refine (log_accounts (fun _ => sampleHash) ["sha1", "sha256", "sha384"] sampleBoot sampleGiven hshown).2 _ _ hevents ?_ ?_
  · exact ⟨rfl, rfl, rfl, rfl, ⟨"sha256", by decide⟩, by decide⟩
  · have hgiven : ∀ bank ∈ ["sha256", "sha384"], ∀ pcr ∈ launchPcrs, given pcr bank sampleGiven =
        logged (fun _ => sampleHash) sampleBoot.slb ((sampleRecords.map Tcg2Log.Record.toEvent).drop 1) pcr bank := by decide
    exact fun bank hbank => hgiven bank (hbanks ▸ hbank.1)

end DrtmTest.LaunchLog
