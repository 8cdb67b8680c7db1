/-
What a matching replay says about a log: the value commits to the sequence of the extends.

`extended` are the digests a log extends into one PCR of one bank, as bytes, and `hashInputs` the strings the replay
hashes on the way, as it computes them.
- `replay_chain`: a replay that returns is the hash chain of `extended` over the zeros, and what it hashes is what the
  chain does.
- `replay_commits`: two logs that replay to one value extend the same digests, in the same order and as often, or what
  they hash holds a collision or a string that hashes to the zeros the replay starts from.
-/
import DrtmTest.Core.HashChain
import DrtmTest.EventLog

namespace DrtmTest.ReplayCommits

open DrtmTest.Bytes DrtmTest.EventLog DrtmTest.HashChain

/-! ## What a log extends and what its replay hashes -/

/-- the digest the event extends into the PCR of the bank -/
def extendOf (pcr : ℕ) (alg : String) (event : Event) : Option Bytes :=
  if event.pcr = pcr ∧ event.type ≠ evNoAction then (event.digests.get? alg).bind fromHex else none

/-- the digests a log extends into the PCR of the bank, in its order -/
def extended (pcr : ℕ) (alg : String) (events : List Event) : List Bytes := events.filterMap (extendOf pcr alg)

/-- the strings `replay` hashes from `value` on, up to where it raises -/
def hashInputs (hash : Hash) (pcr : ℕ) (alg : String) : Bytes → List Event → List Bytes
  | _, [] => []
  | value, event :: events =>
    match replayStep hash pcr alg value event with
    | .error _ => []
    | .ok next => ((extendOf pcr alg event).map (value ++ ·)).toList ++ hashInputs hash pcr alg next events

/-- the zeros a locality 4 start leaves -/
def start (hash : Hash) : Bytes := List.replicate hash.digestSize 0

/-! ## The replay is a hash chain -/

theorem replayStep_ok {hash : Hash} {pcr : ℕ} {alg : String} {value next : Bytes} {event : Event}
    (h : replayStep hash pcr alg value event = .ok next) :
    next = chain hash.digest value (extendOf pcr alg event).toList := by
  unfold replayStep at h
  unfold extendOf
  split_ifs at h ⊢
  · cases hd : event.digests.get? alg with
    | none =>
      rw [hd] at h
      cases h
      rfl
    | some digest =>
      rw [hd] at h
      cases hb : fromHex digest with
      | none => simp [hb] at h
      | some bytes =>
        simp only [hb] at h
        cases h
        simp [hb]
  · cases h
    rfl

theorem replayFrom_ok {hash : Hash} {pcr : ℕ} {alg : String} {value last : Bytes} {events : List Event}
    (h : events.foldlM (replayStep hash pcr alg) value = .ok last) :
    last = chain hash.digest value (extended pcr alg events) ∧
      hashInputs hash pcr alg value events = hashed hash.digest value (extended pcr alg events) := by
  induction events generalizing value with
  | nil =>
    cases h
    exact ⟨rfl, rfl⟩
  | cons event events ih =>
    rw [List.foldlM_cons] at h
    cases hstep : replayStep hash pcr alg value event with
    | error _ =>
      rw [hstep] at h
      cases h
    | ok next =>
      rw [hstep] at h
      obtain ⟨hlast, hinputs⟩ := ih h
      have hnext := replayStep_ok hstep
      have happ : extended pcr alg (event :: events) = (extendOf pcr alg event).toList ++ extended pcr alg events := by
        cases he : extendOf pcr alg event <;> simp [extended, he]
      have hfirst : ((extendOf pcr alg event).map (value ++ ·)).toList =
          hashed hash.digest value (extendOf pcr alg event).toList := by
        cases extendOf pcr alg event <;> rfl
      rw [happ, chain_append, hashed_append, ← hnext]
      refine ⟨hlast, ?_⟩
      rw [hashInputs, hstep]
      simp only [hinputs, hfirst]

/-- a replay that returns is the hash chain of the digests the log extends, and hashes what the chain does -/
theorem replay_chain {hashlib : String → Hash} {events : List Event} {pcr : ℕ} {alg value : String}
    (h : replay hashlib events pcr alg = .ok value) :
    value = toHex (chain (hashlib alg).digest (start (hashlib alg)) (extended pcr alg events)) ∧
      hashInputs (hashlib alg) pcr alg (start (hashlib alg)) events =
        hashed (hashlib alg).digest (start (hashlib alg)) (extended pcr alg events) := by
  unfold replay at h
  cases hfold : events.foldlM (replayStep (hashlib alg) pcr alg) (List.replicate (hashlib alg).digestSize 0) with
  | error _ =>
    rw [hfold] at h
    cases h
  | ok last =>
    rw [hfold] at h
    cases h
    obtain ⟨hlast, hinputs⟩ := replayFrom_ok hfold
    exact ⟨congrArg toHex hlast, hinputs⟩

/-! ## Two logs of one value -/

theorem toHex_injective (a b : Bytes) (h : toHex a = toHex b) : a = b := by
  have := congrArg fromHex h
  rw [fromHex_toHex, fromHex_toHex] at this
  exact Option.some.inj this

/-- **A replayed PCR commits to the whole sequence of extends.** For every hash of a fixed digest size, every two logs,
every PCR and bank: where both replay to one value, they extend the same digests in the same order and as often, or
among what the two replays hash two different strings have one digest, or one string has the all-zero start as its
digest. -/
theorem replay_commits (hashlib : String → Hash) (events events' : List Event) (pcr : ℕ) (alg value : String)
    (h : replay hashlib events pcr alg = .ok value) (h' : replay hashlib events' pcr alg = .ok value) :
    let inputs := hashInputs (hashlib alg) pcr alg (start (hashlib alg)) events ++
      hashInputs (hashlib alg) pcr alg (start (hashlib alg)) events'
    extended pcr alg events = extended pcr alg events' ∨
      (∃ x ∈ inputs, ∃ y ∈ inputs, x ≠ y ∧ (hashlib alg).digest x = (hashlib alg).digest y) ∨
      ∃ x ∈ inputs, (hashlib alg).digest x = start (hashlib alg) := by
  intro inputs
  obtain ⟨hvalue, hinputs⟩ := replay_chain h
  obtain ⟨hvalue', hinputs'⟩ := replay_chain h'
  have heq := toHex_injective _ _ (hvalue.symm.trans hvalue')
  have hstart : (start (hashlib alg)).length = (hashlib alg).digestSize := List.length_replicate
  have hall : inputs = hashed (hashlib alg).digest (start (hashlib alg)) (extended pcr alg events) ++
      hashed (hashlib alg).digest (start (hashlib alg)) (extended pcr alg events') := by
    rw [← hinputs, ← hinputs']
  rw [hall]
  exact chain_commits (hashlib alg).digest_length hstart _ _ heq

/-- two digests that differ, of a hash that only counts: the strings hashed collide -/
theorem replay_commits_counting_hash :
    let hash : Hash := ⟨1, fun m => [UInt8.ofNat m.length], fun _ => rfl⟩
    let a : Event := ⟨17, 0x502, ⟨[("sha256", "a0")], by decide⟩, []⟩
    let b : Event := ⟨17, 0x502, ⟨[("sha256", "b1")], by decide⟩, []⟩
    let inputs := hashInputs hash 17 "sha256" [0] [a] ++ hashInputs hash 17 "sha256" [0] [b]
    extended 17 "sha256" [a] = extended 17 "sha256" [b] ∨
      (∃ x ∈ inputs, ∃ y ∈ inputs, x ≠ y ∧ hash.digest x = hash.digest y) ∨ ∃ x ∈ inputs, hash.digest x = [0] := by
  intro hash a b
  exact replay_commits (fun _ => hash) [a] [b] 17 "sha256" "02" (by decide) (by decide)

end DrtmTest.ReplayCommits
