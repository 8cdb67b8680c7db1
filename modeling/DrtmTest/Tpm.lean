/-
A TPM as the replay's specification: every PCR of every bank holds a value, an extend moves one PCR in the banks it
carries a digest for, and an EV_NO_ACTION event moves nothing.

`replay` folds one register of one bank over a filtered log. Here the whole TPM runs over the whole log.
- `extend_frame`: an event leaves every register alone that it does not extend.
- `replayStep_extend`, `replay_run`: one pass of the replay is one event's effect on the register, and the loop is the
  run's.
- `foldlM_touching`: the replay reads only the events that extend its register.
- `replay_eq_tpm`: the replay equals the TPM's register, and two logs that agree on the events extending it replay alike,
  whatever else stands between them.
- `replay_parse`: the digests of every log the parser reads are hex strings, so its replay is the TPM's register, of the
  bank's digest size.
-/
import DrtmTest.EventLog

namespace DrtmTest.Tpm

open DrtmTest.Bytes DrtmTest.EventLog

/-! ## The TPM -/

/-- what one event asks of the TPM: a digest per bank, for one PCR -/
structure Measurement where
  pcr : ℕ
  noAction : Bool
  digest : String → Option Bytes

/-- the value of every PCR in every bank -/
abbrev State := ℕ → String → Bytes

def start (hashlib : String → Hash) : State := fun _ bank => List.replicate (hashlib bank).digestSize 0

/-- value := H(value || digest), in the banks the event has a digest for -/
def extend (hashlib : String → Hash) (s : State) (m : Measurement) : State := fun pcr bank =>
  if m.noAction ∨ pcr ≠ m.pcr then s pcr bank
  else match m.digest bank with
    | some d => (hashlib bank).digest (s pcr bank ++ d)
    | none => s pcr bank

def run (hashlib : String → Hash) (s : State) (ms : List Measurement) : State := ms.foldl (extend hashlib) s

/-- **Frame.** An event that is not an action, is of another PCR or carries no digest of the bank leaves the register. -/
theorem extend_frame (hashlib : String → Hash) (s : State) (m : Measurement) (pcr : ℕ) (bank : String)
    (h : m.noAction ∨ pcr ≠ m.pcr ∨ m.digest bank = none) : extend hashlib s m pcr bank = s pcr bank := by
  unfold extend
  split_ifs with hc
  · rfl
  · rcases h with h | h | h
    · exact absurd (Or.inl h) hc
    · exact absurd (Or.inr h) hc
    · rw [h]

/-- every register keeps its bank's digest size -/
theorem run_length (hashlib : String → Hash) (s : State) (ms : List Measurement)
    (h : ∀ pcr bank, (s pcr bank).length = (hashlib bank).digestSize) (pcr : ℕ) (bank : String) :
    (run hashlib s ms pcr bank).length = (hashlib bank).digestSize := by
  induction ms generalizing s with
  | nil => exact h pcr bank
  | cons m ms ih =>
    apply ih (extend hashlib s m)
    intro p b
    unfold extend
    split_ifs
    · exact h p b
    · split
      · exact (hashlib b).digest_length _
      · exact h p b

/-! ## The replay is the TPM's register -/

/-- the digests of the event are hex strings -/
def HexDigests (e : Event) : Prop := ∀ d ∈ e.digests.entries, ∃ bytes, fromHex d.2 = some bytes

def measurement (e : Event) : Measurement where
  pcr := e.pcr
  noAction := e.type = evNoAction
  digest := fun bank => (e.digests.get? bank).bind fromHex

/-- the event extends the PCR in the bank -/
def Touches (pcr : ℕ) (bank : String) (e : Event) : Prop :=
  e.pcr = pcr ∧ e.type ≠ evNoAction ∧ bank ∈ e.digests.keys

instance (pcr : ℕ) (bank : String) (e : Event) : Decidable (Touches pcr bank e) := by
  unfold Touches; infer_instance

theorem replayStep_of_not_touches (hash : Hash) (pcr : ℕ) (bank : String) (value : Bytes) (e : Event)
    (h : ¬ Touches pcr bank e) : replayStep hash pcr bank value e = .ok value := by
  unfold replayStep
  split_ifs with hc
  · have hnone : e.digests.get? bank = none := Dict.get?_eq_none.2 fun hk => h ⟨hc.1, hc.2, hk⟩
    rw [hnone]
  · rfl

/-- one pass of the replay is the event's effect on the register -/
theorem replayStep_extend (hashlib : String → Hash) (s : State) (pcr : ℕ) (bank : String) (e : Event)
    (he : HexDigests e) :
    replayStep (hashlib bank) pcr bank (s pcr bank) e = .ok (extend hashlib s (measurement e) pcr bank) := by
  by_cases hc : e.pcr = pcr ∧ e.type ≠ evNoAction
  · have hact : ¬ ((measurement e).noAction = true ∨ pcr ≠ (measurement e).pcr) := by
      simp [measurement, hc.1, hc.2]
    rw [replayStep, if_pos hc, extend, if_neg hact]
    cases hd : e.digests.get? bank with
    | none => simp [measurement, hd]
    | some d =>
      obtain ⟨bytes, hb⟩ := he (bank, d) (Dict.mem_entries.2 hd)
      simp only at hb
      simp [measurement, hd, hb]
  · have hframe : (measurement e).noAction = true ∨ pcr ≠ (measurement e).pcr ∨ (measurement e).digest bank = none := by
      by_cases ht : e.type = evNoAction
      · exact Or.inl (by simp [measurement, ht])
      · exact Or.inr (Or.inl fun hp => hc ⟨hp.symm, ht⟩)
    rw [replayStep, if_neg hc, extend_frame hashlib s _ pcr bank hframe]

theorem replay_run (hashlib : String → Hash) (s : State) (pcr : ℕ) (bank : String) (events : List Event)
    (he : ∀ e ∈ events, HexDigests e) :
    events.foldlM (replayStep (hashlib bank) pcr bank) (s pcr bank) =
      .ok (run hashlib s (events.map measurement) pcr bank) := by
  induction events generalizing s with
  | nil => rfl
  | cons e events ih =>
    rw [List.foldlM_cons, replayStep_extend hashlib s pcr bank e (he e List.mem_cons_self)]
    exact ih (extend hashlib s (measurement e)) fun x hx => he x (List.mem_cons_of_mem e hx)

theorem replay_register (hashlib : String → Hash) {events : List Event} (he : ∀ e ∈ events, HexDigests e) (pcr : ℕ)
    (bank : String) :
    replay hashlib events pcr bank = .ok (toHex (run hashlib (start hashlib) (events.map measurement) pcr bank)) := by
  rw [replay, show List.replicate (hashlib bank).digestSize 0 = start hashlib pcr bank from rfl,
    replay_run hashlib (start hashlib) pcr bank events he]
  rfl

theorem foldlM_touching (hash : Hash) (pcr : ℕ) (bank : String) (value : Bytes) (events : List Event) :
    events.foldlM (replayStep hash pcr bank) value =
      (events.filter (Touches pcr bank)).foldlM (replayStep hash pcr bank) value := by
  induction events generalizing value with
  | nil => rfl
  | cons e events ih =>
    by_cases h : Touches pcr bank e
    · rw [List.filter_cons_of_pos (by simpa using h), List.foldlM_cons, List.foldlM_cons]
      cases replayStep hash pcr bank value e with
      | error _ => rfl
      | ok v => exact ih v
    · rw [List.filter_cons_of_neg (by simpa using h), List.foldlM_cons, replayStep_of_not_touches hash pcr bank value e h]
      exact ih value

/-- **Replay agrees with the whole TPM.** For every log whose digests are hex strings, every PCR and every bank, the
replay is the register the TPM reaches from all zeros by running every event in order. And every log with the same events
extending that register, in the same order, replays to the same result: events of other PCRs, EV_NO_ACTION events and
events without the bank can be inserted, deleted or moved anywhere. -/
theorem replay_eq_tpm (hashlib : String → Hash) (events : List Event) (he : ∀ e ∈ events, HexDigests e) (pcr : ℕ)
    (bank : String) :
    replay hashlib events pcr bank =
        .ok (toHex (run hashlib (start hashlib) (events.map measurement) pcr bank)) ∧
      ∀ events', events'.filter (Touches pcr bank) = events.filter (Touches pcr bank) →
        replay hashlib events' pcr bank = replay hashlib events pcr bank := by
  refine ⟨replay_register hashlib he pcr bank, fun events' hf => ?_⟩
  simp only [replay]
  rw [foldlM_touching, hf, ← foldlM_touching]

/-- a hash that can be run by hand -/
def checksum (size : ℕ) : Hash :=
  ⟨size, fun m => List.replicate size (m.foldl (fun sum b => 31 * sum + b) 7), fun _ => List.length_replicate⟩

def checksums (bank : String) : Hash := if bank = "sha1" then checksum 1 else checksum 2

/-- the launch of a kernel and its modules: an event that is no action, two banks, and a second PCR in between -/
def launchLog : List Event :=
  [⟨17, evNoAction, ⟨[("sha1", "ff"), ("sha256", "ffff")], by decide⟩, []⟩,
    ⟨17, 0x502, ⟨[("sha1", "a0"), ("sha256", "a0b1")], by decide⟩, [1]⟩,
    ⟨18, 0x502, ⟨[("sha1", "c2"), ("sha256", "c2d3")], by decide⟩, [2]⟩,
    ⟨17, 0x503, ⟨[("sha256", "0e1f")], by decide⟩, [3]⟩]

/-- each register by itself, and PCR 17 without what does not extend it -/
theorem replay_eq_tpm_two_banks :
    replay checksums launchLog 17 "sha256" = .ok "5858" ∧ replay checksums launchLog 17 "sha1" = .ok "e7" ∧
      replay checksums launchLog 18 "sha256" = .ok "d8d8" ∧
      replay checksums ((launchLog.drop 1).filter (·.pcr = 17)) 17 "sha256" = replay checksums launchLog 17 "sha256" := by
  have he : ∀ e ∈ launchLog, HexDigests e := by
    have hsome : ∀ e ∈ launchLog, ∀ d ∈ e.digests.entries, (fromHex d.2).isSome = true := by decide
    exact fun e he d hd => Option.isSome_iff_exists.1 (hsome e he d hd)
  have hsame : ((launchLog.drop 1).filter (·.pcr = 17)).filter (Touches 17 "sha256") =
      launchLog.filter (Touches 17 "sha256") := by decide
  refine ⟨(replay_eq_tpm checksums launchLog he 17 "sha256").1.trans ?_, (replay_eq_tpm checksums launchLog he 17 "sha1").1.trans ?_,
    (replay_eq_tpm checksums launchLog he 18 "sha256").1.trans ?_, (replay_eq_tpm checksums launchLog he 17 "sha256").2 _ hsame⟩
  · decide
  · decide
  · decide

/-! ## A parsed log -/

theorem hexDigests_of_get? {e : Event} (h : ∀ bank digest, e.digests.get? bank = some digest → ∃ b, digest = toHex b) :
    HexDigests e := by
  intro d hd
  obtain ⟨b, hb⟩ := h d.1 d.2 (Dict.mem_entries.1 hd)
  exact ⟨b, by rw [hb, fromHex_toHex]⟩

theorem readDigests_hex {algs : Dict ℕ ℕ} {raw : Bytes} {n off off' : ℕ} {d d' : Dict String String}
    (hd : ∀ bank digest, d.get? bank = some digest → ∃ b, digest = toHex b)
    (h : readDigests algs raw n off d = .ok (d', off')) :
    ∀ bank digest, d'.get? bank = some digest → ∃ b, digest = toHex b := by
  induction n generalizing off d with
  | zero =>
    cases h
    exact hd
  | succ n ih =>
    simp only [readDigests, bind, Except.bind] at h
    split at h
    · cases h
    · split at h
      · cases h
      · refine ih (fun bank digest hget => ?_) h
        rw [Dict.get?_set] at hget
        split_ifs at hget
        · exact ⟨_, (Option.some.inj hget).symm⟩
        · exact hd bank digest hget

theorem readRecord_hex {algs : Dict ℕ ℕ} {raw : Bytes} {off next : ℕ} {e : Event}
    (h : readRecord algs raw off = .ok (some (e, next))) : HexDigests e := by
  simp only [readRecord, bind, Except.bind, pure, Except.pure] at h
  repeat' split at h
  all_goals cases h
  rename_i hread _ _ _
  exact hexDigests_of_get? (readDigests_hex (fun _ _ h => by cases h) hread)

theorem parseFrom_hex {algs : Dict ℕ ℕ} {raw : Bytes} {off : ℕ} {events parsed : List Event}
    (he : ∀ e ∈ events, HexDigests e) (h : parseFrom algs raw off events = .ok parsed) :
    ∀ e ∈ parsed, HexDigests e := by
  induction off, events using parseFrom.induct algs raw with
  | case1 off events hlen err hread =>
    rw [parseFrom_eq events hlen, hread] at h
    cases h
  | case2 off events hlen hread =>
    rw [parseFrom_eq events hlen, hread] at h
    cases h
    exact he
  | case3 off events hlen e next hread ih =>
    rw [parseFrom_eq events hlen, hread] at h
    refine ih (fun x hx => ?_) h
    rcases List.mem_append.1 hx with hx | hx
    · exact he x hx
    · rw [List.mem_singleton.1 hx]
      exact readRecord_hex hread
  | case4 off events hlen =>
    rw [parseFrom, if_neg hlen] at h
    cases h
    exact he

/-- every digest the parser returns is a hex string -/
theorem parse_hex {raw : Bytes} {events : List Event} (h : parse raw = .ok events) : ∀ e ∈ events, HexDigests e := by
  simp only [parse, bind, Except.bind] at h
  repeat' split at h
  all_goals try cases h
  exact parseFrom_hex (List.forall_mem_nil _) h

/-- **A parsed log replays.** For every log the parser reads, whatever its bytes, the replay of every register is the
value the TPM reaches, of the bank's digest size. -/
theorem replay_parse (hashlib : String → Hash) {raw : Bytes} {events : List Event} (h : parse raw = .ok events) (pcr : ℕ)
    (bank : String) :
    ∃ value : Bytes, value.length = (hashlib bank).digestSize ∧
      value = run hashlib (start hashlib) (events.map measurement) pcr bank ∧
      replay hashlib events pcr bank = .ok (toHex value) :=
  ⟨_, run_length hashlib _ _ (fun _ _ => List.length_replicate) pcr bank, rfl,
    replay_register hashlib (parse_hex h) pcr bank⟩

end DrtmTest.Tpm
