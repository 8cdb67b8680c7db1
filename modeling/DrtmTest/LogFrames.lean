/-
Where the records of a log stand: a description of the walk over a buffer by its fields alone, and the parser against it.

A `Slot` is one digest entry, a `Frame` one record: what its fixed fields say and where its parts stand. `FramesAt` is a
chain of frames from an offset on, each beginning where the one before says it ends, whether or not its data is there.
Nothing of it is computed by the parser.
- `readDigests_ok`, `readRecord_ok`: what one pass reads is the frame that stands there.
- `parseFrom_frames`, `parseFrom_ok`: the loop goes along the frames, and returns exactly where a chain of them ends at
  the zeros or the end of the buffer.
- `parse_ok`: the same of `parse`, by what it `Reads` of a log. `reads_unique`: the bytes determine it.
- `parsed_digests`: no digest of a parsed log is foreign or short.
- `parsed_whole_iff`: a parsed log is whole exactly when no record names a bank twice or ends past the buffer.
-/
import DrtmTest.Tcg2Log

namespace DrtmTest.LogFrames

open DrtmTest.Bytes DrtmTest.EventLog

/-! ## Reads -/

theorem unpack_ok {w : ℕ} {raw : Bytes} {off n : ℕ} : unpack w raw off = .ok n ↔ unpackFrom w raw off = some n := by
  unfold unpack
  cases unpackFrom w raw off with
  | none => simp
  | some m => simp

theorem unpack_le {w : ℕ} {raw : Bytes} {off n : ℕ} (h : unpack w raw off = .ok n) : off + w ≤ raw.length := by
  rw [unpack_ok, unpackFrom] at h
  split_ifs at h with hlen
  exact hlen

/-- a read fails past the end alone -/
theorem unpack_cases (w : ℕ) (raw : Bytes) (off : ℕ) :
    (raw.length < off + w ∧ unpack w raw off = .error .structError) ∨
      off + w ≤ raw.length ∧ ∃ n, unpack w raw off = .ok n := by
  unfold unpack unpackFrom
  by_cases h : off + w ≤ raw.length
  · right
    rw [if_pos h]
    exact ⟨h, _, rfl⟩
  · left
    rw [if_neg h]
    exact ⟨by omega, rfl⟩

theorem unpack_past {w : ℕ} {raw : Bytes} {off : ℕ} (h : raw.length < off + w) :
    unpack w raw off = .error .structError := by
  rcases unpack_cases w raw off with ⟨_, he⟩ | ⟨hle, _⟩
  · exact he
  · omega

theorem unpack_extend {raw whole : Bytes} (h : raw <+: whole) {w off n : ℕ} (hr : unpack w raw off = .ok n) :
    unpack w whole off = .ok n :=
  unpack_ok.2 (unpackFrom_extend h (unpack_ok.1 hr))

/-! ## Frames -/

/-- one digest entry of a record: the algorithm id, where the digest starts and its declared size -/
structure Slot where
  alg : ℕ
  start : ℕ
  size : ℕ

/-- one record: its fields, its digest entries, where its size field stands and what it says -/
structure Frame where
  pcr : ℕ
  type : ℕ
  slots : List Slot
  sizeAt : ℕ
  size : ℕ

/-- where the record says it ends -/
def Frame.next (f : Frame) : ℕ := f.sizeAt + 4 + f.size

variable (algs : Dict ℕ ℕ) (raw : Bytes)

/-- `slots` are the digest entries from an offset to another, all of declared ids -/
inductive SlotsAt : ℕ → List Slot → ℕ → Prop where
  | nil (off : ℕ) : SlotsAt off [] off
  | cons {off alg size stop : ℕ} {slots : List Slot} (id : unpack 2 raw off = .ok alg)
      (known : algs.get? alg = some size) (rest : SlotsAt (off + 2 + size) slots stop) :
      SlotsAt off (⟨alg, off + 2, size⟩ :: slots) stop

/-- `f` is the record at an offset, its data aside -/
structure FrameAt (off : ℕ) (f : Frame) : Prop where
  pcr : unpack 4 raw off = .ok f.pcr
  type : unpack 4 raw (off + 4) = .ok f.type
  count : unpack 4 raw (off + 8) = .ok f.slots.length
  nonempty : f.slots ≠ []
  slots : SlotsAt algs raw (off + 12) f.slots f.sizeAt
  size : unpack 4 raw f.sizeAt = .ok f.size

/-- `frames` are the records from an offset to another -/
inductive FramesAt : ℕ → List Frame → ℕ → Prop where
  | nil (off : ℕ) : FramesAt off [] off
  | cons {off stop : ℕ} {f : Frame} {frames : List Frame} (head : FrameAt algs raw off f)
      (rest : FramesAt f.next frames stop) : FramesAt off (f :: frames) stop

/-- the log ends at the offset: no room for a record, or a record without digests -/
def Ends (off : ℕ) : Prop := raw.length < off + 12 ∨ unpack 4 raw (off + 8) = .ok 0

variable {algs raw}

def Slot.digest (raw : Bytes) (s : Slot) : Bytes := slice raw s.start (s.start + s.size)

/-- the event a record is read as -/
def Frame.event (raw : Bytes) (f : Frame) : Event where
  pcr := f.pcr
  type := f.type
  digests := f.slots.foldl (fun d s => d.set (algName s.alg) (toHex (s.digest raw))) ∅
  data := slice raw (f.sizeAt + 4) f.next

theorem SlotsAt.unique {off stop stop' : ℕ} {slots slots' : List Slot} (h : SlotsAt algs raw off slots stop)
    (h' : SlotsAt algs raw off slots' stop') (hlen : slots.length = slots'.length) : slots = slots' ∧ stop = stop' := by
  induction h generalizing slots' with
  | nil off =>
    have hnil := List.length_eq_zero_iff.1 hlen.symm
    subst hnil
    cases h'
    exact ⟨rfl, rfl⟩
  | cons id known rest ih =>
    cases h' with
    | nil => simp at hlen
    | cons id' known' rest' =>
      rw [id] at id'
      cases id'
      rw [known] at known'
      cases known'
      obtain ⟨hslots, hstop⟩ := ih rest' (by simpa using hlen)
      exact ⟨by rw [hslots], hstop⟩

theorem FrameAt.unique {off : ℕ} {f f' : Frame} (h : FrameAt algs raw off f) (h' : FrameAt algs raw off f') : f = f' := by
  have hcount : f.slots.length = f'.slots.length := by
    have := h.count.symm.trans h'.count
    exact Except.ok.inj this
  obtain ⟨hslots, hat⟩ := h.slots.unique h'.slots hcount
  have hpcr := Except.ok.inj (h.pcr.symm.trans h'.pcr)
  have htype := Except.ok.inj (h.type.symm.trans h'.type)
  have hsize := h.size.symm.trans (hat ▸ h'.size)
  cases f
  cases f'
  simp_all

theorem FrameAt.not_ends {off : ℕ} {f : Frame} (h : FrameAt algs raw off f) : ¬ Ends raw off := by
  intro he
  rcases he with hlen | hzero
  · have := unpack_le h.count
    omega
  · have := h.count.symm.trans hzero
    exact h.nonempty (List.length_eq_zero_iff.1 (Except.ok.inj this))

/-- two chains from one offset go together, as far as both go -/
theorem FramesAt.comparable {off stop stop' : ℕ} {frames frames' : List Frame} (h : FramesAt algs raw off frames stop)
    (h' : FramesAt algs raw off frames' stop') :
    (∃ more, frames' = frames ++ more ∧ FramesAt algs raw stop more stop') ∨
      ∃ more, frames = frames' ++ more ∧ FramesAt algs raw stop' more stop := by
  induction h generalizing frames' with
  | nil off => exact Or.inl ⟨frames', rfl, h'⟩
  | cons head rest ih =>
    cases h' with
    | nil => exact Or.inr ⟨_, rfl, .cons head rest⟩
    | cons head' rest' =>
      have hf := head.unique head'
      subst hf
      rcases ih rest' with ⟨more, hmore, hat⟩ | ⟨more, hmore, hat⟩
      · exact Or.inl ⟨more, by rw [hmore, List.cons_append], hat⟩
      · exact Or.inr ⟨more, by rw [hmore, List.cons_append], hat⟩

/-- two chains of as many records are one -/
theorem FramesAt.eq_of_length {off stop stop' : ℕ} {frames frames' : List Frame}
    (h : FramesAt algs raw off frames stop) (h' : FramesAt algs raw off frames' stop')
    (hlen : frames.length = frames'.length) : frames = frames' ∧ stop = stop' := by
  have hnil {l more : List Frame} (hl : l.length = (l ++ more).length) : more = [] := by
    rw [List.length_append] at hl
    exact List.length_eq_zero_iff.1 (by omega)
  rcases h.comparable h' with ⟨more, hmore, hat⟩ | ⟨more, hmore, hat⟩
  · have hempty := hnil (hmore ▸ hlen)
    subst hempty
    cases hat
    exact ⟨by simpa using hmore.symm, rfl⟩
  · have hempty := hnil (hmore ▸ hlen.symm)
    subst hempty
    cases hat
    exact ⟨by simpa using hmore, rfl⟩

/-- a chain that ends the log is the only one -/
theorem FramesAt.unique {off stop stop' : ℕ} {frames frames' : List Frame} (h : FramesAt algs raw off frames stop)
    (he : Ends raw stop) (h' : FramesAt algs raw off frames' stop') (he' : Ends raw stop') :
    frames = frames' ∧ stop = stop' := by
  rcases h.comparable h' with ⟨more, hmore, hat⟩ | ⟨more, hmore, hat⟩
  · cases hat with
    | nil => exact ⟨by simpa using hmore.symm, rfl⟩
    | cons head _ => exact absurd he head.not_ends
  · cases hat with
    | nil => exact ⟨by simpa using hmore, rfl⟩
    | cons head _ => exact absurd he' head.not_ends

/-! ## The parser goes along the frames -/

theorem bind_ok {α β : Type} {x : Except LogError α} {f : α → Except LogError β} {b : β} :
    (x >>= f) = .ok b ↔ ∃ a, x = .ok a ∧ f a = .ok b := by
  cases x with
  | error e => simp [bind, Except.bind]
  | ok a => simp [bind, Except.bind]

def addSlot (raw : Bytes) (d : Dict String String) (s : Slot) : Dict String String :=
  d.set (algName s.alg) (toHex (s.digest raw))

/-- the digests of the first entries are read, the loop stands behind them -/
theorem readDigests_slots {off stop : ℕ} {slots : List Slot} (h : SlotsAt algs raw off slots stop) (n : ℕ)
    (d : Dict String String) :
    readDigests algs raw (slots.length + n) off d = readDigests algs raw n stop (slots.foldl (addSlot raw) d) := by
  induction h generalizing d with
  | nil off => rw [List.length_nil, Nat.zero_add, List.foldl_nil]
  | cons id known rest ih =>
    rw [List.length_cons, Nat.add_right_comm, readDigests, id]
    simp only [bind, Except.bind, known]
    rw [ih, List.foldl_cons, addSlot, Slot.digest]

theorem readDigests_ok {n off stop : ℕ} {d d' : Dict String String}
    (h : readDigests algs raw n off d = .ok (d', stop)) :
    ∃ slots, slots.length = n ∧ SlotsAt algs raw off slots stop ∧ d' = slots.foldl (addSlot raw) d := by
  induction n generalizing off d with
  | zero =>
    cases h
    exact ⟨[], rfl, .nil _, rfl⟩
  | succ n ih =>
    rw [readDigests] at h
    obtain ⟨alg, hid, h⟩ := bind_ok.1 h
    cases hknown : algs.get? alg with
    | none =>
      rw [hknown] at h
      cases h
    | some size =>
      rw [hknown] at h
      obtain ⟨slots, hlen, hslots, hd⟩ := ih h
      exact ⟨⟨alg, off + 2, size⟩ :: slots, by rw [List.length_cons, hlen], .cons hid hknown hslots, hd⟩

theorem readRecord_frame {off : ℕ} {f : Frame} (h : FrameAt algs raw off f) :
    readRecord algs raw off = .ok (some (f.event raw, f.next)) := by
  have hcount : f.slots.length ≠ 0 := fun h0 => h.nonempty (List.length_eq_zero_iff.1 h0)
  have hread := readDigests_slots h.slots 0 ∅
  rw [Nat.add_zero, readDigests] at hread
  simp only [readRecord, h.pcr, h.type, h.count, hcount, hread, h.size, bind, Except.bind, pure, Except.pure, if_false]
  rfl

theorem readRecord_ok {off next : ℕ} {e : Event} (h : readRecord algs raw off = .ok (some (e, next))) :
    ∃ f, FrameAt algs raw off f ∧ e = f.event raw ∧ next = f.next := by
  rw [readRecord] at h
  obtain ⟨pcr, hpcr, h⟩ := bind_ok.1 h
  obtain ⟨type, htype, h⟩ := bind_ok.1 h
  obtain ⟨count, hcount, h⟩ := bind_ok.1 h
  split_ifs at h with h0
  · cases h
  · obtain ⟨⟨digests, stop⟩, hdigests, h⟩ := bind_ok.1 h
    obtain ⟨size, hsize, h⟩ := bind_ok.1 h
    obtain ⟨slots, hlen, hslots, hd⟩ := readDigests_ok hdigests
    cases h
    subst hlen hd
    exact ⟨⟨pcr, type, slots, stop, size⟩,
      ⟨hpcr, htype, hcount, fun hnil => h0 (List.length_eq_zero_iff.2 hnil), hslots, hsize⟩, rfl, rfl⟩

theorem readRecord_none {off : ℕ} (h : readRecord algs raw off = .ok none) : unpack 4 raw (off + 8) = .ok 0 := by
  rw [readRecord] at h
  obtain ⟨pcr, -, h⟩ := bind_ok.1 h
  obtain ⟨type, -, h⟩ := bind_ok.1 h
  obtain ⟨count, hcount, h⟩ := bind_ok.1 h
  split_ifs at h with h0
  · rw [hcount, h0]
  · obtain ⟨⟨digests, stop⟩, -, h⟩ := bind_ok.1 h
    obtain ⟨size, -, h⟩ := bind_ok.1 h
    cases h

theorem readRecord_zero {off : ℕ} (hlen : off + 12 ≤ raw.length) (h : unpack 4 raw (off + 8) = .ok 0) :
    readRecord algs raw off = .ok none := by
  rcases unpack_cases 4 raw off with ⟨hlt, _⟩ | ⟨_, pcr, hpcr⟩
  · omega
  rcases unpack_cases 4 raw (off + 4) with ⟨hlt, _⟩ | ⟨_, type, htype⟩
  · omega
  simp only [readRecord, hpcr, htype, h, bind, Except.bind, pure, Except.pure, if_true]

theorem parseFrom_ends {off : ℕ} (h : Ends raw off) (events : List Event) :
    parseFrom algs raw off events = .ok events := by
  by_cases hlen : off + 12 ≤ raw.length
  · rcases h with h | h
    · omega
    · rw [parseFrom_eq events hlen, readRecord_zero hlen h]
  · rw [parseFrom, if_neg hlen]

/-- the loop stands behind the frames it has read -/
theorem parseFrom_frames {off stop : ℕ} {frames : List Frame} (h : FramesAt algs raw off frames stop)
    (events : List Event) :
    parseFrom algs raw off events = parseFrom algs raw stop (events ++ frames.map (Frame.event raw)) := by
  induction h generalizing events with
  | nil off => rw [List.map_nil, List.append_nil]
  | cons head rest ih =>
    have hlen := unpack_le head.count
    rw [parseFrom_eq events (by omega), readRecord_frame head]
    simp only
    rw [ih, List.map_cons, List.append_assoc, List.singleton_append]

theorem parseFrom_ok {off : ℕ} {events parsed : List Event} (h : parseFrom algs raw off events = .ok parsed) :
    ∃ frames stop, FramesAt algs raw off frames stop ∧ Ends raw stop ∧
      parsed = events ++ frames.map (Frame.event raw) := by
  induction off, events using parseFrom.induct algs raw with
  | case1 off events hlen err hread =>
    rw [parseFrom_eq events hlen, hread] at h
    cases h
  | case2 off events hlen hread =>
    rw [parseFrom_eq events hlen, hread] at h
    cases h
    exact ⟨[], off, .nil off, Or.inr (readRecord_none hread), by simp⟩
  | case3 off events hlen e next hread ih =>
    rw [parseFrom_eq events hlen, hread] at h
    obtain ⟨frames, stop, hframes, hends, hparsed⟩ := ih h
    obtain ⟨f, hf, he, hnext⟩ := readRecord_ok hread
    subst he hnext
    exact ⟨f :: frames, stop, .cons hf hframes, hends, by simpa using hparsed⟩
  | case4 off events hlen =>
    rw [parseFrom, if_neg hlen] at h
    cases h
    exact ⟨[], off, .nil off, Or.inl (by omega), by simp⟩

/-! ## A log -/

/-- the records of a log up to an offset of the buffer `parse` reads -/
structure Reads (raw : Bytes) (algs : Dict ℕ ℕ) (frames : List Frame) (stop : ℕ) : Prop where
  header : algorithms (raw ++ padding) = .ok algs
  frames : ∃ size, unpack 4 (raw ++ padding) 28 = .ok size ∧ FramesAt algs (raw ++ padding) (32 + size) frames stop

/-- `parse` stands behind the records it has read -/
theorem parse_reads {raw : Bytes} {algs : Dict ℕ ℕ} {frames : List Frame} {stop : ℕ} (h : Reads raw algs frames stop) :
    parse raw = parseFrom algs (raw ++ padding) stop (frames.map (Frame.event (raw ++ padding))) := by
  obtain ⟨size, hsize, hframes⟩ := h.frames
  simp only [parse, h.header, hsize, bind, Except.bind]
  rw [parseFrom_frames hframes, List.nil_append]

/-- **What the parser returns.** It returns exactly where the records reach an end of the log, and then their events. -/
theorem parse_ok {raw : Bytes} {events : List Event} :
    parse raw = .ok events ↔ ∃ algs frames stop, Reads raw algs frames stop ∧ Ends (raw ++ padding) stop ∧
      events = frames.map (Frame.event (raw ++ padding)) := by
  constructor
  · intro h
    rw [parse] at h
    obtain ⟨algs, halgs, h⟩ := bind_ok.1 h
    obtain ⟨size, hsize, h⟩ := bind_ok.1 h
    obtain ⟨frames, stop, hframes, hends, hevents⟩ := parseFrom_ok h
    exact ⟨algs, frames, stop, ⟨halgs, size, hsize, hframes⟩, hends, hevents⟩
  · intro h
    obtain ⟨algs, frames, stop, hreads, hends, hevents⟩ := h
    rw [parse_reads hreads, parseFrom_ends hends, hevents]

/-- the bytes determine the records that stand in them -/
theorem reads_unique {raw : Bytes} {algs algs' : Dict ℕ ℕ} {frames frames' : List Frame} {stop stop' : ℕ}
    (h : Reads raw algs frames stop) (he : Ends (raw ++ padding) stop) (h' : Reads raw algs' frames' stop')
    (he' : Ends (raw ++ padding) stop') : frames = frames' := by
  have halgs := Except.ok.inj (h.header.symm.trans h'.header)
  subst halgs
  obtain ⟨size, hsize, hframes⟩ := h.frames
  obtain ⟨size', hsize', hframes'⟩ := h'.frames
  rw [hsize] at hsize'
  cases hsize'
  exact (hframes.unique he hframes' he').1

theorem FramesAt.mem {off stop : ℕ} {frames : List Frame} (h : FramesAt algs raw off frames stop) {f : Frame}
    (hf : f ∈ frames) : ∃ at_, FrameAt algs raw at_ f := by
  induction h with
  | nil off => cases hf
  | cons head rest ih =>
    rcases List.mem_cons.1 hf with heq | hmem
    · subst heq
      exact ⟨_, head⟩
    · exact ih hmem

/-! ## No digest is foreign or short -/

/-- an entry is of a declared bank and ends before the next field -/
theorem SlotsAt.mem {off stop : ℕ} {slots : List Slot} (h : SlotsAt algs raw off slots stop) :
    off ≤ stop ∧ ∀ s ∈ slots, algs.get? s.alg = some s.size ∧ s.start + s.size ≤ stop := by
  induction h with
  | nil off => exact ⟨le_rfl, fun s hs => absurd hs List.not_mem_nil⟩
  | cons id known rest ih =>
    refine ⟨by omega, fun s hs => ?_⟩
    rcases List.mem_cons.1 hs with heq | hmem
    · subst heq
      exact ⟨known, ih.1⟩
    · exact ih.2 s hmem

/-- the digests of a record are whole, as its size field is read behind them -/
theorem FrameAt.digest_length {off : ℕ} {f : Frame} (h : FrameAt algs raw off f) {s : Slot} (hs : s ∈ f.slots) :
    (s.digest raw).length = s.size := by
  have hend := (h.slots.mem.2 s hs).2
  have hsize := unpack_le h.size
  rw [Slot.digest, slice_length]
  omega

theorem mem_addSlot {d : Dict String String} {slots : List Slot} {x : String × String}
    (hx : x ∈ (slots.foldl (addSlot raw) d).entries) :
    x ∈ d.entries ∨ ∃ s ∈ slots, x = (algName s.alg, toHex (s.digest raw)) := by
  induction slots generalizing d with
  | nil => exact Or.inl hx
  | cons s slots ih =>
    rcases ih hx with h | ⟨s', hs', h⟩
    · have hget : (addSlot raw d s).get? x.1 = some x.2 := Dict.mem_entries.1 h
      rw [addSlot, Dict.get?_set] at hget
      split_ifs at hget with hk
      · exact Or.inr ⟨s, List.mem_cons_self, Prod.ext hk (Option.some.inj hget).symm⟩
      · exact Or.inl (Dict.mem_entries.2 hget)
    · exact Or.inr ⟨s', List.mem_cons_of_mem s hs', h⟩

/-- the read behind a digest that runs past the buffer fails, whether it is the next id or the data size -/
theorem readRecord_past {off count stop alg size : ℕ} {slots : List Slot}
    (hcount : unpack 4 raw (off + 8) = .ok count) (hslots : SlotsAt algs raw (off + 12) slots stop)
    (hlt : slots.length < count) (hid : unpack 2 raw stop = .ok alg) (hknown : algs.get? alg = some size)
    (hpast : raw.length < stop + 2 + size) : readRecord algs raw off = .error .structError := by
  have hlen := unpack_le hcount
  rcases unpack_cases 4 raw off with ⟨hlt, _⟩ | ⟨_, pcr, hpcr⟩
  · omega
  rcases unpack_cases 4 raw (off + 4) with ⟨hlt, _⟩ | ⟨_, type, htype⟩
  · omega
  have hcount0 : count ≠ 0 := by omega
  obtain ⟨n, hn⟩ : ∃ n, count = slots.length + (n + 1) := ⟨count - slots.length - 1, by omega⟩
  have hread := readDigests_slots hslots (n + 1) ∅
  rw [← hn, readDigests, hid] at hread
  simp only [bind, Except.bind, hknown] at hread
  cases n with
  | zero =>
    rw [readDigests] at hread
    simp only [readRecord, hpcr, htype, hcount, hcount0, hread, bind, Except.bind, if_false,
      unpack_past (show raw.length < stop + 2 + size + 4 by omega)]
  | succ n =>
    rw [readDigests, unpack_past (show raw.length < stop + 2 + size + 2 by omega)] at hread
    simp only [readRecord, hpcr, htype, hcount, hcount0, hread, bind, Except.bind, if_false]

/-- **No short or foreign digest.** For every byte string: every digest of every event `parse` returns is of a bank that
`banks` lists and spells exactly as many bytes as the header declares for it. And where the records lead to a digest that
would run past the log and its padding, `parse` raises. -/
theorem parsed_digests (raw : Bytes) :
    (∀ events, parse raw = .ok events → ∃ algs names, algorithms (raw ++ padding) = .ok algs ∧ banks raw = .ok names ∧
      ∀ e ∈ events, ∀ d ∈ e.digests.entries, d.1 ∈ names ∧ ∃ digest, d.2 = toHex digest ∧
        ∀ alg size, algs.get? alg = some size → algName alg = d.1 → digest.length = size ∧ d.2.length = 2 * size) ∧
      ∀ algs frames off count slots stop alg size, Reads raw algs frames off →
        unpack 4 (raw ++ padding) (off + 8) = .ok count → SlotsAt algs (raw ++ padding) (off + 12) slots stop →
        slots.length < count → unpack 2 (raw ++ padding) stop = .ok alg → algs.get? alg = some size →
        (raw ++ padding).length < stop + 2 + size → parse raw = .error .structError := by
  constructor
  · intro events h
    obtain ⟨algs, frames, stop, hreads, -, hevents⟩ := parse_ok.1 h
    subst hevents
    refine ⟨algs, _, hreads.header, by rw [banks, hreads.header]; rfl, ?_⟩
    intro e he d hd
    obtain ⟨f, hf, hfe⟩ := List.mem_map.1 he
    subst hfe
    obtain ⟨size, -, hframes⟩ := hreads.frames
    obtain ⟨off, hframe⟩ := hframes.mem hf
    rcases mem_addSlot hd with hempty | ⟨s, hs, hds⟩
    · exact absurd hempty List.not_mem_nil
    · subst hds
      have hknown := (hframe.slots.mem.2 s hs).1
      refine ⟨List.mem_map.2 ⟨s.alg, Dict.mem_keys.2 ⟨s.size, hknown⟩, rfl⟩, s.digest _, rfl, ?_⟩
      intro alg size halg hname
      have hid := Tcg2Log.algName_injective hname
      rw [hid, hknown] at halg
      cases halg
      rw [toHex_length, hframe.digest_length hs]
      exact ⟨rfl, rfl⟩
  · intro algs frames off count slots stop alg size hreads hcount hslots hlt hid hknown hpast
    have hlen := unpack_le hcount
    rw [parse_reads hreads, parseFrom_eq _ (by omega), readRecord_past hcount hslots hlt hid hknown hpast]

/-- a header that declares SHA-1 of `size` bytes -/
def sha1Header (size : ℕ) : Bytes :=
  le 4 0 ++ le 4 evNoAction ++ List.replicate 20 0 ++ le 4 32 ++ specIdSignature ++ List.replicate 8 0 ++ le 4 1 ++
    le 2 4 ++ le 2 size

/-- a digest of 40 bytes cut off behind its id -/
theorem parsed_digests_cut : parse (sha1Header 40 ++ le 4 17 ++ le 4 0x502 ++ le 4 1 ++ le 2 4) = .error .structError :=
  (parsed_digests _).2 ⟨[(4, 40)], by decide⟩ [] 64 1 [] 76 4 40 ⟨by decide, 32, by decide, .nil 64⟩ (by decide)
    (.nil 76) (by decide) (by decide) (by decide) (by decide)

/-! ## Where a parsed log is whole -/

/-- the event carries as many digests as the record counts and as many data bytes as it says -/
structure Exact (f : Frame) (e : Event) : Prop where
  digests : e.digests.entries.length = f.slots.length
  data : e.data.length = f.size

/-- the record names no bank twice and ends inside the buffer -/
structure Whole (raw : Bytes) (f : Frame) : Prop where
  distinct : (f.slots.map Slot.alg).Nodup
  fits : f.next ≤ raw.length

/-- a repeated id takes the place of its first digest -/
theorem addSlot_length (slots : List Slot) :
    (slots.foldl (addSlot raw) ∅).entries.length = slots.length ↔ (slots.map Slot.alg).Nodup := by
  have hkeys : (slots.foldl (addSlot raw) ∅).keys = (slots.map fun s => algName s.alg).eraseDups :=
    Dict.keys_accumulate (fun s : Slot => algName s.alg) (fun _ => "") (fun _ s => toHex (s.digest raw)) slots
  have hlen : (slots.foldl (addSlot raw) ∅).entries.length = (slots.map fun s => algName s.alg).eraseDups.length := by
    rw [← hkeys, Dict.keys, List.length_map]
  have hnames : (slots.map fun s => algName s.alg).Nodup ↔ (slots.map Slot.alg).Nodup := by
    have hinj : Function.Injective algName := fun _ _ => Tcg2Log.algName_injective
    rw [← List.nodup_map_iff hinj, List.map_map]
    rfl
  have hall := (Dict.eraseDups_length (slots.map fun s => algName s.alg)).2
  rw [List.length_map] at hall
  rw [hlen, hall, hnames]

theorem FrameAt.exact_iff {off : ℕ} {f : Frame} (h : FrameAt algs raw off f) : Exact f (f.event raw) ↔ Whole raw f := by
  have hdigests : (f.event raw).digests.entries.length = f.slots.length ↔ (f.slots.map Slot.alg).Nodup :=
    addSlot_length f.slots
  have hdata : (f.event raw).data.length = f.size ↔ f.next ≤ raw.length := by
    have hsize := unpack_le h.size
    rw [Frame.event, slice_length, Frame.next]
    omega
  exact ⟨fun hx => ⟨hdigests.1 hx.digests, hdata.1 hx.data⟩, fun hw => ⟨hdigests.2 hw.distinct, hdata.2 hw.fits⟩⟩

/-- **Where no measurement is lost.** For every byte string: every event `parse` returns carries as many digests as its
record counts and exactly the data its record says, if and only if no record of the log gives two digests for one bank or
has data running past the log and its padding. -/
theorem parsed_whole_iff (raw : Bytes) :
    (∀ events algs frames stop, parse raw = .ok events → Reads raw algs frames stop → Ends (raw ++ padding) stop →
        List.Forall₂ Exact frames events) ↔
      ∀ algs frames stop, Reads raw algs frames stop → Ends (raw ++ padding) stop →
        ∀ f ∈ frames, Whole (raw ++ padding) f := by
  have hexact (algs : Dict ℕ ℕ) (frames : List Frame) (stop : ℕ) (hreads : Reads raw algs frames stop) :
      List.Forall₂ Exact frames (frames.map (Frame.event (raw ++ padding))) ↔
        ∀ f ∈ frames, Whole (raw ++ padding) f := by
    obtain ⟨size, -, hframes⟩ := hreads.frames
    rw [List.forall₂_map_right_iff, List.forall₂_same]
    refine forall₂_congr fun f hf => ?_
    obtain ⟨off, hframe⟩ := hframes.mem hf
    exact hframe.exact_iff
  constructor
  · intro h algs frames stop hreads hends
    exact (hexact algs frames stop hreads).1
      (h _ algs frames stop (parse_ok.2 ⟨algs, frames, stop, hreads, hends, rfl⟩) hreads hends)
  · intro h events algs frames stop hparse hreads hends
    rw [parse_reads hreads, parseFrom_ends hends] at hparse
    cases hparse
    exact (hexact algs frames stop hreads).2 (h algs frames stop hreads hends)

/-- a record that counts two digests of one bank comes out with one, a record of 100 data bytes with the 16 of the
padding -/
theorem altered_records :
    let twice := sha1Header 1 ++ le 4 17 ++ le 4 0x502 ++ le 4 2 ++ le 2 4 ++ [0xa0] ++ le 2 4 ++ [0xb1] ++ le 4 0
    let past := sha1Header 1 ++ le 4 17 ++ le 4 0x502 ++ le 4 1 ++ le 2 4 ++ [0xa0] ++ le 4 100
    (∃ e, parse twice = .ok [e] ∧ unpack 4 (twice ++ padding) 72 = .ok 2 ∧ e.digests.entries = [("sha1", "b1")]) ∧
      ∃ e, parse past = .ok [e] ∧ unpack 4 (past ++ padding) 79 = .ok 100 ∧ e.data.length = 16 := by
  intro twice past
  have hslot {raw : Bytes} {off : ℕ} (h : unpack 2 raw off = .ok 4) {slots : List Slot} {stop : ℕ}
      (hrest : SlotsAt ⟨[(4, 1)], by decide⟩ raw (off + 2 + 1) slots stop) :
      SlotsAt ⟨[(4, 1)], by decide⟩ raw off (⟨4, off + 2, 1⟩ :: slots) stop := .cons h (by decide) hrest
  constructor
  · have hframe : FrameAt ⟨[(4, 1)], by decide⟩ (twice ++ padding) 64 ⟨17, 0x502, [⟨4, 78, 1⟩, ⟨4, 81, 1⟩], 82, 0⟩ :=
      ⟨by decide, by decide, by decide, by simp, hslot (by decide) (hslot (by decide) (.nil 82)), by decide⟩
    have hreads : Reads twice ⟨[(4, 1)], by decide⟩ [_] 86 := ⟨by decide, 32, by decide, .cons hframe (.nil 86)⟩
    exact ⟨_, parse_ok.2 ⟨_, _, _, hreads, Or.inr (by decide), rfl⟩, by decide, by decide⟩
  · have hframe : FrameAt ⟨[(4, 1)], by decide⟩ (past ++ padding) 64 ⟨17, 0x502, [⟨4, 78, 1⟩], 79, 100⟩ :=
      ⟨by decide, by decide, by decide, by simp, hslot (by decide) (.nil 79), by decide⟩
    have hreads : Reads past ⟨[(4, 1)], by decide⟩ [_] 183 := ⟨by decide, 32, by decide, .cons hframe (.nil 183)⟩
    exact ⟨_, parse_ok.2 ⟨_, _, _, hreads, Or.inl (by decide), rfl⟩, by decide, by decide⟩

end DrtmTest.LogFrames
