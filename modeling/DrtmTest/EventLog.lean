/-
Lean model of the DRTM event log (`drtmtest/eventlog.py`): the parser of the TCG2 log the SKL writes and the replay of
its extends.

A log is a byte string. `algorithms` reads the banks its header declares, `parse` the records after the header up to the
first record without digests, from a buffer 16 zero bytes longer than the log. `replay` folds the digests of one bank
into one PCR. What Python raises is an error value: `valueError` with the text, `structError` for a `struct` read past
the end of the buffer, `keyError` for an algorithm id the header does not declare.

The hash functions are a parameter: `Hash` carries a digest size and the proof that every digest has it.

`readRecord_lt`: a record that is read ends past its start, so the loop of `parse` terminates on every input.
-/
import DrtmTest.Core.Bytes
import DrtmTest.Core.Dict

namespace DrtmTest.EventLog

open DrtmTest.Bytes

def evNoAction : ℕ := 0x3

/-- `b"Spec ID Event03\0"` -/
def specIdSignature : Bytes := "Spec ID Event03".toList.map (fun c => UInt8.ofNat c.toNat) ++ [0]

def algNames : List (ℕ × String) := [(0x0004, "sha1"), (0x000B, "sha256"), (0x000C, "sha384"), (0x000D, "sha512")]

/-- `hex(n)` -/
def hex (n : ℕ) : String := String.ofList ('0' :: 'x' :: hexNat n)

/-- `_ALG_NAMES.get(alg, hex(alg))` -/
def algName (alg : ℕ) : String := (algNames.lookup alg).getD (hex alg)

structure Event where
  pcr : ℕ
  type : ℕ
  digests : Dict String String
  data : Bytes
deriving DecidableEq

inductive LogError where
  | valueError (msg : String)
  | structError
  | keyError (alg : ℕ)
deriving DecidableEq, Repr

/-- `struct.unpack_from`, with the `struct.error` of a buffer that is too short -/
def unpack (w : ℕ) (raw : Bytes) (off : ℕ) : Except LogError ℕ :=
  match unpackFrom w raw off with
  | some n => .ok n
  | none => .error .structError

/-! ## The header -/

/-- the `for i in range(count)` of `_algorithms`, `n` rounds from `i` on -/
def declared (spec : Bytes) : ℕ → ℕ → Dict ℕ ℕ → Except LogError (Dict ℕ ℕ)
  | 0, _, algs => .ok algs
  | n + 1, i, algs => do
    let alg ← unpack 2 spec (28 + 4 * i)
    let size ← unpack 2 spec (28 + 4 * i + 2)
    declared spec n (i + 1) (algs.set alg size)

/-- The banks the header declares, algorithm id to digest size. The header event is the PCR, the type, a SHA-1 sized
digest and the data size. -/
def algorithms (raw : Bytes) : Except LogError (Dict ℕ ℕ) := do
  if raw.length < 32 then throw (.valueError "no TCG2 header event at the start of the log")
  let type ← unpack 4 raw 4
  if type ≠ evNoAction then throw (.valueError "no TCG2 header event at the start of the log")
  let size ← unpack 4 raw 28
  let spec := slice raw 32 (32 + size)
  if ¬ specIdSignature <+: spec then throw (.valueError "the header event is not a Spec ID Event03")
  let count ← unpack 4 spec 24
  declared spec count 0 ∅

/-- `bytes(16)` -/
def padding : Bytes := List.replicate 16 0

/-- the banks the header declares, by name, in its order -/
def banks (raw : Bytes) : Except LogError (List String) := do
  let algs ← algorithms (raw ++ padding)
  return algs.keys.map algName

/-! ## The records -/

/-- the `for _ in range(count)` over the digests of one record: the digests and the offset behind them -/
def readDigests (algs : Dict ℕ ℕ) (raw : Bytes) :
    ℕ → ℕ → Dict String String → Except LogError (Dict String String × ℕ)
  | 0, offset, digests => .ok (digests, offset)
  | n + 1, offset, digests => do
    let alg ← unpack 2 raw offset
    match algs.get? alg with
    | none => throw (.keyError alg)
    | some size =>
      readDigests algs raw n (offset + 2 + size)
        (digests.set (algName alg) (toHex (slice raw (offset + 2) (offset + 2 + size))))

/-- one pass of the `while` of `parse`: `none` where it breaks, else the event and the next offset -/
def readRecord (algs : Dict ℕ ℕ) (raw : Bytes) (offset : ℕ) : Except LogError (Option (Event × ℕ)) := do
  let pcr ← unpack 4 raw offset
  let type ← unpack 4 raw (offset + 4)
  let count ← unpack 4 raw (offset + 8)
  if count = 0 then return none
  let (digests, offset) ← readDigests algs raw count (offset + 12) ∅
  let size ← unpack 4 raw offset
  let data := slice raw (offset + 4) (offset + 4 + size)
  return some (⟨pcr, type, digests, data⟩, offset + 4 + size)

theorem readDigests_le (algs : Dict ℕ ℕ) (raw : Bytes) (n off off' : ℕ) (d d' : Dict String String)
    (h : readDigests algs raw n off d = .ok (d', off')) : off ≤ off' := by
  induction n generalizing off d with
  | zero => cases h; exact le_rfl
  | succ n ih =>
    simp only [readDigests, bind, Except.bind] at h
    split at h
    · cases h
    · split at h
      · cases h
      · exact (by omega : off ≤ _).trans (ih _ _ h)

theorem readRecord_lt (algs : Dict ℕ ℕ) (raw : Bytes) (off next : ℕ) (e : Event)
    (h : readRecord algs raw off = .ok (some (e, next))) : off < next := by
  simp only [readRecord, bind, Except.bind, pure, Except.pure] at h
  repeat' split at h
  all_goals cases h
  rename_i v hv _ _ _
  have := readDigests_le algs raw _ _ _ _ _ hv
  omega

/-- the `while` of `parse` from `offset` on -/
def parseFrom (algs : Dict ℕ ℕ) (raw : Bytes) (offset : ℕ) (events : List Event) : Except LogError (List Event) :=
  if offset + 12 ≤ raw.length then
    match _h : readRecord algs raw offset with
    | .error e => .error e
    | .ok none => .ok events
    | .ok (some (event, next)) => parseFrom algs raw next (events ++ [event])
  else .ok events
termination_by raw.length - offset
decreasing_by have := readRecord_lt algs raw offset next event _h; omega

/-- the loop by what one pass reads -/
theorem parseFrom_eq {algs : Dict ℕ ℕ} {raw : Bytes} {offset : ℕ} (events : List Event)
    (h : offset + 12 ≤ raw.length) :
    parseFrom algs raw offset events =
      match readRecord algs raw offset with
      | .error e => .error e
      | .ok none => .ok events
      | .ok (some (event, next)) => parseFrom algs raw next (events ++ [event]) := by
  rw [parseFrom, if_pos h]
  split <;> rename_i hread <;> rw [hread]

/-- The events after the header, up to the zeros that end them. A dump that dropped trailing zero bytes reads as if they
were there. -/
def parse (raw : Bytes) : Except LogError (List Event) := do
  let raw := raw ++ padding
  let algs ← algorithms raw
  let size ← unpack 4 raw 28
  parseFrom algs raw (32 + size) []

/-! ## The replay -/

/-- a hash function of a fixed digest size -/
structure Hash where
  digestSize : ℕ
  digest : Bytes → Bytes
  digest_length : ∀ m, (digest m).length = digestSize

/-- one pass of the loop of `replay` -/
def replayStep (hash : Hash) (pcr : ℕ) (alg : String) (value : Bytes) (event : Event) : Except LogError Bytes :=
  if event.pcr = pcr ∧ event.type ≠ evNoAction then
    match event.digests.get? alg with
    | none => .ok value
    | some digest =>
      match fromHex digest with
      | some bytes => .ok (hash.digest (value ++ bytes))
      | none => .error (.valueError "non-hexadecimal number found in fromhex() arg")
  else .ok value

/-- What `pcr` reads after the extends the log records, from the zero a locality 4 start leaves. `hashlib` opens the hash
of a bank's name. -/
def replay (hashlib : String → Hash) (events : List Event) (pcr : ℕ) (alg : String := "sha256") :
    Except LogError String := do
  let value ← events.foldlM (replayStep (hashlib alg) pcr alg) (List.replicate (hashlib alg).digestSize 0)
  return toHex value

end DrtmTest.EventLog
