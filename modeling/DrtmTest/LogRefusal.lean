/-
How a log is refused: which errors leave the parser, and on which bytes.

The header is read off the buffer by position alone: `HeaderForeign` are its explicit checks, `HeaderWhole` that the bank
list it counts is there, `bankTable` what it declares.
- `algorithms_foreign`, `algorithms_cut`, `algorithms_whole`: the header in closed form, a `ValueError`, a failed read or
  the bank table.
- `parseFrom_error`: the record loop raises no `ValueError`.
- `refused_iff`: no other error leaves `parse` and `banks` exactly when the header is foreign, or its bank list is there and
  every record up to the end of the log is complete, of declared banks.
-/
import DrtmTest.LogFrames

namespace DrtmTest.LogRefusal

open DrtmTest.Bytes DrtmTest.EventLog DrtmTest.LogFrames

/-! ## The header by position -/

/-- the `w`-byte integer at an offset -/
def field (w : ℕ) (raw : Bytes) (off : ℕ) : ℕ := ofLe (slice raw off (off + w))

theorem unpack_field (w : ℕ) (raw : Bytes) (off : ℕ) (h : off + w ≤ raw.length) :
    unpack w raw off = .ok (field w raw off) := by
  rw [unpack_ok, unpackFrom, if_pos h, field]

/-- the data of the header event -/
def spec (raw : Bytes) : Bytes := slice raw 32 (32 + field 4 raw 28)

def bankCount (raw : Bytes) : ℕ := field 4 (spec raw) 24

def addBank (s : Bytes) (d : Dict ℕ ℕ) (i : ℕ) : Dict ℕ ℕ := d.set (field 2 s (28 + 4 * i)) (field 2 s (28 + 4 * i + 2))

/-- the banks the header declares, a later entry of an id in place of the earlier -/
def bankTable (raw : Bytes) : Dict ℕ ℕ := (List.range (bankCount raw)).foldl (addBank (spec raw)) ∅

/-- no TCG2 header event, by the checks `_algorithms` makes -/
def HeaderForeign (raw : Bytes) : Prop :=
  raw.length < 32 ∨ field 4 raw 4 ≠ evNoAction ∨ ¬ specIdSignature <+: spec raw

/-- the bank list the header counts ends inside its data -/
def HeaderWhole (raw : Bytes) : Prop := 28 ≤ (spec raw).length ∧ 28 + 4 * bankCount raw ≤ (spec raw).length

theorem declared_whole {s : Bytes} (n i : ℕ) (d : Dict ℕ ℕ) (h : 28 + 4 * (i + n) ≤ s.length) :
    declared s n i d = .ok ((List.range' i n).foldl (addBank s) d) := by
  induction n generalizing i d with
  | zero => rfl
  | succ n ih =>
    have halg := unpack_field 2 s (28 + 4 * i) (by omega)
    have hsize := unpack_field 2 s (28 + 4 * i + 2) (by omega)
    simp only [declared, halg, hsize, bind, Except.bind]
    rw [ih (i + 1) _ (by omega), List.range'_succ, List.foldl_cons, addBank]

theorem declared_cut {s : Bytes} (n i : ℕ) (d : Dict ℕ ℕ) (h : s.length < 28 + 4 * (i + n))
    (hi : 28 + 4 * i ≤ s.length) : declared s n i d = .error .structError := by
  induction n generalizing i d with
  | zero => omega
  | succ n ih =>
    rw [declared]
    rcases unpack_cases 2 s (28 + 4 * i) with ⟨_, he⟩ | ⟨_, alg, halg⟩
    · rw [he]
      rfl
    · rcases unpack_cases 2 s (28 + 4 * i + 2) with ⟨_, he⟩ | ⟨hle, size, hsize⟩
      · rw [halg, he]
        rfl
      · simp only [halg, hsize, bind, Except.bind]
        exact ih (i + 1) _ (by omega) (by omega)

theorem algorithms_foreign {raw : Bytes} (h : HeaderForeign raw) : ∃ msg, algorithms raw = .error (.valueError msg) := by
  unfold algorithms
  by_cases hlen : raw.length < 32
  · exact ⟨_, by rw [if_pos hlen]; rfl⟩
  have htype := unpack_field 4 raw 4 (by omega)
  have hsize := unpack_field 4 raw 28 (by omega)
  by_cases hact : field 4 raw 4 = evNoAction
  · have hsig : ¬ specIdSignature <+: slice raw 32 (32 + field 4 raw 28) := by
      rcases h with h | h | h
      · exact absurd h hlen
      · exact absurd hact h
      · exact h
    exact ⟨_, by simp only [hlen, htype, hact, hsize, hsig, bind, Except.bind, if_false, ne_eq, not_true_eq_false,
      not_false_eq_true, if_true]; rfl⟩
  · exact ⟨_, by simp only [hlen, htype, hact, bind, Except.bind, if_false, ne_eq, not_false_eq_true, if_true]; rfl⟩

/-- behind the checks: the bank list is read from the header's data -/
theorem algorithms_checked {raw : Bytes} (h : ¬ HeaderForeign raw) :
    algorithms raw = (unpack 4 (spec raw) 24 >>= fun count => declared (spec raw) count 0 ∅) := by
  simp only [HeaderForeign, not_or, not_not] at h
  obtain ⟨hlen, hact, hsig⟩ := h
  have htype := unpack_field 4 raw 4 (by omega)
  have hsize := unpack_field 4 raw 28 (by omega)
  rw [spec] at hsig
  simp only [algorithms, hlen, htype, hact, hsize, hsig, bind, Except.bind, if_false, ne_eq, not_true_eq_false, spec]

theorem algorithms_whole {raw : Bytes} (h : ¬ HeaderForeign raw) (hw : HeaderWhole raw) :
    algorithms raw = .ok (bankTable raw) := by
  have hcount := unpack_field 4 (spec raw) 24 (by have := hw.1; omega)
  have hlist := declared_whole (bankCount raw) 0 ∅ (by rw [Nat.zero_add]; exact hw.2)
  rw [algorithms_checked h, hcount, bankTable, List.range_eq_range']
  exact hlist

theorem algorithms_cut {raw : Bytes} (h : ¬ HeaderForeign raw) (hw : ¬ HeaderWhole raw) :
    algorithms raw = .error .structError := by
  rw [algorithms_checked h]
  rcases unpack_cases 4 (spec raw) 24 with ⟨_, he⟩ | ⟨hle, _⟩
  · rw [he]
    rfl
  · have hcount := unpack_field 4 (spec raw) 24 hle
    have hlt : (spec raw).length < 28 + 4 * (0 + bankCount raw) := by
      rw [Nat.zero_add, ← Nat.not_le]
      exact fun hfit => hw ⟨hle, hfit⟩
    rw [hcount]
    exact declared_cut _ 0 ∅ hlt hle

/-! ## The errors of the record loop -/

/-- an error that is no `ValueError` -/
def Escapes (e : LogError) : Prop := ∀ msg, e ≠ .valueError msg

theorem escapes_structError : Escapes .structError := fun _ => by simp

theorem escapes_keyError (alg : ℕ) : Escapes (.keyError alg) := fun _ => by simp

theorem unpack_error {w : ℕ} {raw : Bytes} {off : ℕ} {e : LogError} (h : unpack w raw off = .error e) : Escapes e := by
  rcases unpack_cases w raw off with ⟨_, he⟩ | ⟨_, n, hn⟩
  · rw [he] at h
    cases h
    exact escapes_structError
  · rw [hn] at h
    cases h

theorem bind_error {α β : Type} {x : Except LogError α} {f : α → Except LogError β} {e : LogError} :
    (x >>= f) = .error e ↔ x = .error e ∨ ∃ a, x = .ok a ∧ f a = .error e := by
  cases x with
  | error e' => simp [bind, Except.bind]
  | ok a => simp [bind, Except.bind]

theorem readDigests_error {algs : Dict ℕ ℕ} {raw : Bytes} {n off : ℕ} {d : Dict String String} {e : LogError}
    (h : readDigests algs raw n off d = .error e) : Escapes e := by
  induction n generalizing off d with
  | zero => cases h
  | succ n ih =>
    rw [readDigests] at h
    rcases bind_error.1 h with hid | ⟨alg, -, h⟩
    · exact unpack_error hid
    · cases hknown : algs.get? alg with
      | none =>
        rw [hknown] at h
        cases h
        exact escapes_keyError alg
      | some size =>
        rw [hknown] at h
        exact ih h

theorem readRecord_error {algs : Dict ℕ ℕ} {raw : Bytes} {off : ℕ} {e : LogError}
    (h : readRecord algs raw off = .error e) : Escapes e := by
  rw [readRecord] at h
  rcases bind_error.1 h with h | ⟨pcr, -, h⟩
  · exact unpack_error h
  rcases bind_error.1 h with h | ⟨type, -, h⟩
  · exact unpack_error h
  rcases bind_error.1 h with h | ⟨count, -, h⟩
  · exact unpack_error h
  split_ifs at h
  · cases h
  rcases bind_error.1 h with h | ⟨⟨digests, stop⟩, -, h⟩
  · exact readDigests_error h
  rcases bind_error.1 h with h | ⟨size, -, h⟩
  · exact unpack_error h
  · cases h

theorem parseFrom_error {algs : Dict ℕ ℕ} {raw : Bytes} {off : ℕ} {events : List Event} {e : LogError}
    (h : parseFrom algs raw off events = .error e) : Escapes e := by
  induction off, events using parseFrom.induct algs raw with
  | case1 off events hlen err hread =>
    rw [parseFrom_eq events hlen, hread] at h
    cases h
    exact readRecord_error hread
  | case2 off events hlen hread =>
    rw [parseFrom_eq events hlen, hread] at h
    cases h
  | case3 off events hlen event next hread ih =>
    rw [parseFrom_eq events hlen, hread] at h
    exact ih h
  | case4 off events hlen =>
    rw [parseFrom, if_neg hlen] at h
    cases h

/-! ## One way to refuse -/

/-- it returns or raises `ValueError` -/
def OneWay {α : Type} (r : Except LogError α) : Prop := ∀ e, r = .error e → ∃ msg, e = .valueError msg

theorem OneWay.ok {α : Type} (a : α) : OneWay (.ok a : Except LogError α) := by
  intro e h
  cases h

theorem OneWay.valueError {α : Type} (msg : String) : OneWay (.error (.valueError msg) : Except LogError α) := by
  intro e h
  cases h
  exact ⟨msg, rfl⟩

theorem not_oneWay {α : Type} {e : LogError} (h : Escapes e) : ¬ OneWay (.error e : Except LogError α) := by
  intro hone
  obtain ⟨msg, hmsg⟩ := hone e rfl
  exact h msg hmsg

theorem parseFrom_oneWay {algs : Dict ℕ ℕ} {raw : Bytes} {off : ℕ} :
    OneWay (parseFrom algs raw off []) ↔ ∃ frames stop, FramesAt algs raw off frames stop ∧ Ends raw stop := by
  constructor
  · intro h
    cases hp : parseFrom algs raw off [] with
    | error e =>
      rw [hp] at h
      exact absurd h (not_oneWay (parseFrom_error hp))
    | ok parsed =>
      obtain ⟨frames, stop, hframes, hends, -⟩ := parseFrom_ok hp
      exact ⟨frames, stop, hframes, hends⟩
  · intro h
    obtain ⟨frames, stop, hframes, hends⟩ := h
    rw [parseFrom_frames hframes, parseFrom_ends hends]
    exact OneWay.ok _

/-- **Where a log is refused in one way.** For every byte string: `parse` and `banks` both return or raise `ValueError` if
and only if the log, with its padding, has no TCG2 header, or the bank list its header counts is there and its records
reach the end of the log, each of them complete and of declared banks. -/
theorem refused_iff (raw : Bytes) :
    OneWay (parse raw) ∧ OneWay (banks raw) ↔
      HeaderForeign (raw ++ padding) ∨ HeaderWhole (raw ++ padding) ∧ ∃ frames stop,
        FramesAt (bankTable (raw ++ padding)) (raw ++ padding) (32 + field 4 (raw ++ padding) 28) frames stop ∧
          Ends (raw ++ padding) stop := by
  by_cases hforeign : HeaderForeign (raw ++ padding)
  · obtain ⟨msg, halgs⟩ := algorithms_foreign hforeign
    have hparse : parse raw = .error (.valueError msg) := by
      rw [parse, halgs]
      rfl
    have hbanks : banks raw = .error (.valueError msg) := by
      rw [banks, halgs]
      rfl
    rw [hparse, hbanks]
    exact ⟨fun _ => Or.inl hforeign, fun _ => ⟨OneWay.valueError msg, OneWay.valueError msg⟩⟩
  · by_cases hwhole : HeaderWhole (raw ++ padding)
    · have halgs := algorithms_whole hforeign hwhole
      have hlen : ¬ (raw ++ padding).length < 32 := fun h => hforeign (Or.inl h)
      have hsize := unpack_field 4 (raw ++ padding) 28 (by omega)
      have hparse : parse raw =
          parseFrom (bankTable (raw ++ padding)) (raw ++ padding) (32 + field 4 (raw ++ padding) 28) [] := by
        simp only [parse, halgs, hsize, bind, Except.bind]
      have hbanks : banks raw = .ok ((bankTable (raw ++ padding)).keys.map algName) := by
        rw [banks, halgs]
        rfl
      rw [hparse, hbanks, parseFrom_oneWay]
      constructor
      · intro h
        exact Or.inr ⟨hwhole, h.1⟩
      · intro h
        exact ⟨(h.resolve_left hforeign).2, OneWay.ok _⟩
    · have hparse : parse raw = .error .structError := by
        rw [parse, algorithms_cut hforeign hwhole]
        rfl
      rw [hparse]
      constructor
      · intro h
        exact absurd h.1 (not_oneWay escapes_structError)
      · intro h
        exact absurd (h.resolve_left hforeign).1 hwhole

/-- A Spec ID event without a bank list is a failed read, a digest of an undeclared bank a failed lookup. -/
theorem other_errors :
    let header := le 4 0 ++ le 4 evNoAction ++ List.replicate 20 0 ++ le 4 16 ++ specIdSignature
    let record := sha1Header 1 ++ le 4 17 ++ le 4 0x502 ++ le 4 1 ++ le 2 0xB ++ [0xa0] ++ le 4 0
    parse header = .error .structError ∧ banks header = .error .structError ∧ parse record = .error (.keyError 0xB) := by
  intro header record
  have hreads : Reads record ⟨[(4, 1)], by decide⟩ [] 64 := ⟨by decide, 32, by decide, .nil 64⟩
  have hread : readRecord ⟨[(4, 1)], by decide⟩ (record ++ padding) 64 = .error (.keyError 0xB) := by decide
  have hheader : algorithms (header ++ padding) = .error .structError := by decide
  refine ⟨?_, ?_, ?_⟩
  · rw [parse, hheader]
    rfl
  · rw [banks, hheader]
    rfl
  · rw [parse_reads hreads, parseFrom_eq _ (by decide), hread]

end DrtmTest.LogRefusal
