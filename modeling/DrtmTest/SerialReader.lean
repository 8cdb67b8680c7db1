/-
The reader thread of the serial console beside the thread of the `with` block, one statement a step (`_read_serial`, `capture`
and `__exit__` of `drtmtest/qemu_vm.py`).

Both take `_serial_lock`: the reader around the log and the buffer, the block to look at the buffer and, at its end, to close
the log. `join` gives up after five seconds, so the reader may still be there when the log is closed. What the file object
holds back until a flush is not in the file yet.

- `advance_inv`: what each place of the two threads relies on, kept by every step of either.
- `log_follows_console`: in every interleaving nothing is written to the closed log, every look at the buffer is in the file
  and in every later look, and nothing is lost but one chunk that came after the stop.
- `advance_simulates`: a step is one of the atomic reader of `DrtmTest.QemuVm`, or none that it shows.
- `interleaving_atomic`: so whatever the interleaving, the block sees a console some atomic run could show.
-/
import DrtmTest.QemuVm

namespace DrtmTest.SerialReader

open DrtmTest.QemuVm

/-! ## The two threads -/

inductive Thread where
  | reader
  | block
  deriving DecidableEq

/-- the reader's next statement, with the chunk it got -/
inductive ReaderPc where
  | check
  | recv
  | acquire (chunk : Bytes)
  | recheck (chunk : Bytes)
  | write (chunk : Bytes)
  | flush (chunk : Bytes)
  | extend (chunk : Bytes)
  | release (again : Bool)
  | ended

/-- where the block is; behind `leaving` it has set the stop event -/
inductive BlockPc where
  | body
  | looking
  | leaving
  | acquire
  | close
  | release
  | left

structure State where
  reader : ReaderPc
  block : BlockPc
  lock : Option Thread
  stop : Bool
  closed : Bool
  /-- what the log's file object was given -/
  written : Bytes
  /-- how much of it is in the file -/
  flushed : ℕ
  buf : Bytes
  /-- the chunks `recv` returned -/
  received : List Bytes
  /-- what the block saw of the buffer, look by look -/
  looks : List Bytes
  /-- a write to a closed file -/
  raised : Bool

/-- what is in `serial.log` -/
def State.onDisk (s : State) : Bytes := s.written.take s.flushed

def start : State := ⟨.check, .body, none, false, false, [], 0, [], [], [], false⟩

/-- what moves a thread. `recv` answers the reader's call, `spilled` is how far the file object is written out without a
flush. -/
inductive Move where
  | reader (recv : Recv) (spilled : ℕ)
  | look
  | leave
  /-- the block's next statement -/
  | go
  /-- the end of a process raises, and `__exit__` with it -/
  | fail

/-- one statement of the reader -/
def readerStep (s : State) (recv : Recv) (spilled : ℕ) : State :=
  match s.reader with
  | .check => { s with reader := if s.stop then .ended else .recv }
  | .recv =>
    match recv with
    | .timedOut => { s with reader := .check }
    | .failed => { s with reader := .ended }
    | .chunk [] => { s with reader := .ended }
    | .chunk (b :: bs) => { s with reader := .acquire (b :: bs), received := s.received ++ [b :: bs] }
  | .acquire chunk => if s.lock = none then { s with lock := some .reader, reader := .recheck chunk } else s
  | .recheck chunk => { s with reader := if s.stop then .release false else .write chunk }
  | .write chunk =>
    if s.closed then { s with raised := true, reader := .release false }
    else { s with written := s.written ++ chunk, flushed := max s.flushed spilled, reader := .flush chunk }
  | .flush chunk =>
    if s.closed then { s with raised := true, reader := .release false }
    else { s with flushed := s.written.length, reader := .extend chunk }
  | .extend chunk => { s with buf := s.buf ++ chunk, reader := .release true }
  | .release again => { s with lock := none, reader := if again then .check else .ended }
  | .ended => s

/-- one statement of the block; a move that does not fit does nothing -/
def blockStep (s : State) (move : Move) : State :=
  match s.block, move with
  | .body, .look => if s.lock = none then { s with lock := some .block, block := .looking } else s
  | .looking, .go => { s with lock := none, looks := s.looks ++ [s.buf], block := .body }
  | .body, .leave => { s with stop := true, block := .leaving }
  | .leaving, .go => { s with block := .acquire }
  | .leaving, .fail => { s with block := .left }
  | .acquire, .go => if s.lock = none then { s with lock := some .block, block := .close } else s
  | .close, .go => { s with flushed := s.written.length, closed := true, block := .release }
  | .release, .go => { s with lock := none, block := .left }
  | _, _ => s

def advance (s : State) (move : Move) : State :=
  match move with
  | .reader recv spilled => readerStep s recv spilled
  | move => blockStep s move

def after (s : State) (moves : List Move) : State := moves.foldl advance s

/-! ## What each place relies on -/

/-- the reader holds the lock -/
def ReaderPc.holds : ReaderPc → Bool
  | .recheck _ | .write _ | .flush _ | .extend _ | .release _ => true
  | _ => false

def BlockPc.holds : BlockPc → Bool
  | .looking | .close | .release => true
  | _ => false

/-- the reader is about to use the log, or to put in the buffer what is in it -/
def ReaderPc.logging : ReaderPc → Bool
  | .write _ | .flush _ | .extend _ => true
  | _ => false

/-- what the log has and the buffer lacks -/
def ReaderPc.logged : ReaderPc → Bytes
  | .flush chunk | .extend chunk => chunk
  | _ => []

def ReaderPc.flushes : ReaderPc → Bool
  | .flush _ => true
  | _ => false

/-- the chunk the reader has and the buffer lacks -/
def ReaderPc.chunk? : ReaderPc → Option Bytes
  | .acquire chunk | .recheck chunk | .write chunk | .flush chunk | .extend chunk => some chunk
  | _ => none

def ReaderPc.chunk (pc : ReaderPc) : Bytes := pc.chunk?.getD []

def ReaderPc.gone : ReaderPc → Bool
  | .release again => !again
  | .ended => true
  | _ => false

/-- the stop event is set -/
def BlockPc.stopped : BlockPc → Bool
  | .body | .looking => false
  | _ => true

theorem logging_holds {pc : ReaderPc} (h : pc.logging = true) : pc.holds = true := by
  cases pc <;> first | rfl | cases h

structure Inv (s : State) : Prop where
  reader : s.lock = some .reader ↔ s.reader.holds = true
  block : s.lock = some .block ↔ s.block.holds = true
  stop : s.stop = s.block.stopped
  closed : s.closed = true → s.stop = true
  /-- the reader looked at the stop event under the lock -/
  opened : s.reader.logging = true → s.closed = false
  safe : s.raised = false
  written : s.written = s.buf ++ s.reader.logged
  flushed : s.buf.length ≤ s.flushed
  /-- nothing is held back but between the write and its flush -/
  all : s.reader.flushes = false → s.written.length ≤ s.flushed
  /-- what is lost is one chunk that came after the stop -/
  whole : ∃ lost, s.received.flatten = s.buf ++ s.reader.chunk ++ lost ∧
    (lost ≠ [] → s.stop = true ∧ s.reader.gone = true ∧ s.received.getLast? = some lost)
  last : ∀ chunk, s.reader.chunk? = some chunk → chunk ≠ [] ∧ s.received.getLast? = some chunk
  looks : s.looks.Pairwise (· <+: ·)
  seen : ∀ l ∈ s.looks, l <+: s.buf

theorem start_inv : Inv start where
  reader := by simp [start, ReaderPc.holds]
  block := by simp [start, BlockPc.holds]
  stop := rfl
  closed h := by cases h
  opened h := by cases h
  safe := rfl
  written := rfl
  flushed := le_rfl
  all _ := le_rfl
  whole := ⟨[], rfl, fun h => absurd rfl h⟩
  last chunk h := by cases h
  looks := List.Pairwise.nil
  seen l hl := by cases hl

/-! ## The reader's steps -/

/-- nothing was lost before the reader left its loop -/
theorem Inv.received {s : State} (h : Inv s) (hr : s.reader.gone = false) :
    s.received.flatten = s.buf ++ s.reader.chunk := by
  obtain ⟨lost, heq, hlost⟩ := h.whole
  have hnil : lost = [] := by
    by_contra hne
    rw [(hlost hne).2.1] at hr
    cases hr
  rw [heq, hnil, List.append_nil]

/-- a step of the reader outside the log: its place, the lock, and what it has received -/
theorem Inv.readerMoves {s : State} (h : Inv s) (pc : ReaderPc) {lock : Option Thread} {received : List Bytes}
    (hreader : lock = some .reader ↔ pc.holds = true) (hblock : lock = some .block ↔ s.block.holds = true)
    (hopened : pc.logging = true → s.closed = false) (hlogged : pc.logged = s.reader.logged)
    (hflushed : s.reader.flushes = false)
    (hwhole : ∃ lost, received.flatten = s.buf ++ pc.chunk ++ lost ∧
      (lost ≠ [] → s.stop = true ∧ pc.gone = true ∧ received.getLast? = some lost))
    (hlast : ∀ chunk, pc.chunk? = some chunk → chunk ≠ [] ∧ received.getLast? = some chunk) :
    Inv { s with reader := pc, lock := lock, received := received } where
  reader := hreader
  block := hblock
  stop := h.stop
  closed := h.closed
  opened := hopened
  safe := h.safe
  written := h.written.trans (congrArg (s.buf ++ ·) hlogged.symm)
  flushed := h.flushed
  all _ := h.all hflushed
  whole := hwhole
  last := hlast
  looks := h.looks
  seen := h.seen

theorem whole_of_eq {received : List Bytes} {buf chunk : Bytes} {P : Bytes → Prop} (h : received.flatten = buf ++ chunk) :
    ∃ lost, received.flatten = buf ++ chunk ++ lost ∧ (lost ≠ [] → P lost) :=
  ⟨[], by rw [h, List.append_nil], fun hne => absurd rfl hne⟩

/-- the lock of a reader that holds it is not the block's -/
theorem Inv.not_block {s : State} (h : Inv s) (hr : s.reader.holds = true) : ¬ s.block.holds = true := by
  intro hb
  have hlock := h.reader.2 hr
  rw [h.block.2 hb] at hlock
  cases hlock

theorem reader_inv {s : State} (h : Inv s) (recv : Recv) (spilled : ℕ) : Inv (readerStep s recv spilled) := by
  have hlock := h.reader
  have hopened := h.opened
  have hwritten := h.written
  have hreceived := h.received
  have hlast := h.last
  have hfree := h.not_block
  -- a place without a chunk
  have hmove (pc : ReaderPc) (hholds : pc.holds = s.reader.holds) (hlogging : pc.logging = false)
      (hlogged : pc.logged = s.reader.logged) (hflushes : s.reader.flushes = false) (hchunk : pc.chunk? = none)
      (hwhole : s.received.flatten = s.buf ++ []) : Inv { s with reader := pc } := by
    have hnil : pc.chunk = [] := by simp [ReaderPc.chunk, hchunk]
    exact h.readerMoves pc (by rw [hlock, hholds]) h.block (by rw [hlogging]; exact nofun) hlogged hflushes
      (whole_of_eq (by rw [hwhole, hnil])) (by rw [hchunk]; exact nofun)
  cases hr : s.reader with
  | check =>
    rw [hr] at hreceived hmove
    simp only [readerStep, hr]
    split_ifs
    · exact hmove .ended rfl rfl rfl rfl rfl (hreceived rfl)
    · exact hmove .recv rfl rfl rfl rfl rfl (hreceived rfl)
  | recv =>
    rw [hr] at hlock hreceived hmove
    simp only [readerStep, hr]
    rcases recv with (_ | ⟨b, bs⟩) | _ | _
    · exact hmove .ended rfl rfl rfl rfl rfl (hreceived rfl)
    · refine h.readerMoves (.acquire (b :: bs)) hlock h.block nofun (by rw [hr]; rfl) (by rw [hr]; rfl) (whole_of_eq ?_) ?_
      · rw [List.flatten_append, hreceived rfl]
        simp [ReaderPc.chunk, ReaderPc.chunk?]
      · simp [ReaderPc.chunk?]
    · exact hmove .check rfl rfl rfl rfl rfl (hreceived rfl)
    · exact hmove .ended rfl rfl rfl rfl rfl (hreceived rfl)
  | acquire chunk =>
    rw [hr] at hreceived hlast
    simp only [readerStep, hr]
    split_ifs with hnone
    · refine h.readerMoves (.recheck chunk) (by simp [ReaderPc.holds]) ?_ nofun (by rw [hr]; rfl) (by rw [hr]; rfl)
        (whole_of_eq (hreceived rfl)) hlast
      rw [← h.block, hnone]
      simp
    · exact h
  | recheck chunk =>
    rw [hr] at hlock hreceived hlast
    simp only [readerStep, hr]
    split_ifs with hstop
    · -- the chunk came too late
      refine h.readerMoves (.release false) hlock h.block nofun (by rw [hr]; rfl) (by rw [hr]; rfl)
        ⟨chunk, ?_, fun _ => ⟨hstop, rfl, (hlast chunk rfl).2⟩⟩ nofun
      rw [hreceived rfl]
      simp [ReaderPc.chunk, ReaderPc.chunk?]
    · refine h.readerMoves (.write chunk) hlock h.block (fun _ => ?_) (by rw [hr]; rfl) (by rw [hr]; rfl)
        (whole_of_eq (hreceived rfl)) hlast
      exact Bool.eq_false_iff.2 fun hclosed => hstop (h.closed hclosed)
  | write chunk =>
    rw [hr] at hlock hopened hwritten hreceived hlast
    simp only [readerStep, hr]
    rw [if_neg (Bool.eq_false_iff.1 (hopened rfl))]
    have hbuf : s.written = s.buf := hwritten.trans (List.append_nil _)
    exact { h with
      reader := hlock
      opened := fun _ => hopened rfl
      written := congrArg (· ++ chunk) hbuf
      flushed := h.flushed.trans (le_max_left _ _)
      all := nofun
      whole := whole_of_eq (hreceived rfl)
      last := hlast }
  | flush chunk =>
    rw [hr] at hlock hopened hwritten hreceived hlast
    simp only [readerStep, hr]
    rw [if_neg (Bool.eq_false_iff.1 (hopened rfl))]
    exact { h with
      reader := hlock
      opened := fun _ => hopened rfl
      written := hwritten
      flushed := by rw [hwritten, List.length_append]; exact Nat.le_add_right _ _
      all := fun _ => le_rfl
      whole := whole_of_eq (hreceived rfl)
      last := hlast }
  | extend chunk =>
    rw [hr] at hlock hwritten hreceived
    simp only [readerStep, hr]
    have hall : s.written.length ≤ s.flushed := h.all (by rw [hr]; rfl)
    exact { h with
      reader := hlock
      opened := nofun
      written := hwritten.trans (List.append_nil _).symm
      flushed := by rwa [hwritten] at hall
      all := fun _ => hall
      whole := whole_of_eq ((hreceived rfl).trans (List.append_nil _).symm)
      last := nofun
      seen := fun l hl => (h.seen l hl).trans (List.prefix_append _ _) }
  | release again =>
    have hwhole := h.whole
    rw [hr] at hfree hwhole
    simp only [readerStep, hr]
    refine h.readerMoves (if again then .check else .ended) ?_ ?_ ?_ ?_ (by rw [hr]; rfl) ?_ ?_
    · cases again <;> simp [ReaderPc.holds]
    · simp [hfree rfl]
    · cases again <;> exact nofun
    · rw [hr]
      cases again <;> rfl
    · cases again <;> exact hwhole
    · cases again <;> exact nofun
  | ended =>
    simp only [readerStep, hr]
    exact h

/-! ## The block's steps -/

/-- a step of the block that only takes it elsewhere, the lock taken or given back -/
theorem Inv.blockMoves {s : State} (h : Inv s) (pc : BlockPc) {lock : Option Thread}
    (hreader : lock = some .reader ↔ s.reader.holds = true) (hblock : lock = some .block ↔ pc.holds = true)
    (hstop : s.stop = pc.stopped) : Inv { s with block := pc, lock := lock } :=
  { h with reader := hreader, block := hblock, stop := hstop }

theorem Inv.not_reader {s : State} (h : Inv s) (hb : s.block.holds = true) : ¬ s.reader.holds = true :=
  fun hr => h.not_block hr hb

/-- the lock is free for the block -/
theorem Inv.takes {s : State} (h : Inv s) (pc : BlockPc) (hfree : s.lock = none) (hholds : pc.holds = true)
    (hstop : s.stop = pc.stopped) : Inv { s with block := pc, lock := some .block } := by
  refine h.blockMoves pc ?_ (by simp [hholds]) hstop
  rw [← h.reader, hfree]
  simp

theorem Inv.gives {s : State} (h : Inv s) (pc : BlockPc) (hheld : s.block.holds = true) (hholds : pc.holds = false)
    (hstop : s.stop = pc.stopped) : Inv { s with block := pc, lock := none } :=
  h.blockMoves pc (by simp [h.not_reader hheld]) (by simp [hholds]) hstop

theorem block_inv {s : State} (h : Inv s) (move : Move) : Inv (blockStep s move) := by
  have hlock := h.block
  have hstop := h.stop
  unfold blockStep
  split
  · rename_i hb
    rw [hb] at hstop
    split_ifs with hfree
    · exact h.takes .looking hfree rfl hstop
    · exact h
  · rename_i hb
    rw [hb] at hstop
    have hgiven := h.gives .body (by rw [hb]; rfl) rfl hstop
    exact { hgiven with
      looks := List.pairwise_append.2 ⟨h.looks, List.pairwise_singleton _ _, by simpa using h.seen⟩
      seen := List.forall_mem_append.2 ⟨h.seen, List.forall_mem_singleton.2 List.prefix_rfl⟩ }
  · rename_i hb
    rw [hb] at hlock
    obtain ⟨lost, heq, hlost⟩ := h.whole
    exact { h with
      block := hlock
      stop := rfl
      closed := fun _ => rfl
      whole := ⟨lost, heq, fun hne => ⟨rfl, (hlost hne).2⟩⟩ }
  · rename_i hb
    rw [hb] at hlock hstop
    exact h.blockMoves .acquire h.reader hlock hstop
  · rename_i hb
    rw [hb] at hlock hstop
    exact h.blockMoves .left h.reader hlock hstop
  · rename_i hb
    rw [hb] at hstop
    split_ifs with hfree
    · exact h.takes .close hfree rfl hstop
    · exact h
  · rename_i hb
    have hidle := h.not_reader (by rw [hb]; rfl)
    rw [hb] at hlock hstop
    exact { h with
      block := hlock
      stop := hstop
      closed := fun _ => hstop
      opened := fun hlogging => absurd (logging_holds hlogging) hidle
      flushed := by rw [h.written, List.length_append]; exact Nat.le_add_right _ _
      all := fun _ => le_rfl }
  · rename_i hb
    rw [hb] at hstop
    exact h.gives .left (by rw [hb]; rfl) rfl hstop
  · exact h

theorem advance_inv {s : State} (h : Inv s) (move : Move) : Inv (advance s move) := by
  cases move with
  | reader recv spilled => exact reader_inv h recv spilled
  | _ => exact block_inv h _

theorem after_inv {s : State} (h : Inv s) (moves : List Move) : Inv (after s moves) := by
  induction moves generalizing s with
  | nil => exact h
  | cons move moves ih => exact ih (advance_inv h move)

/-! ## Every interleaving -/

/-- outside the reader's turn with the lock the log's file holds the buffer -/
theorem Inv.onDisk {s : State} (h : Inv s) (hlock : s.lock ≠ some .reader) : s.onDisk = s.buf := by
  have hidle : ¬ s.reader.holds = true := fun hr => hlock (h.reader.2 hr)
  have hlogged : s.reader.logged = [] ∧ s.reader.flushes = false := by
    cases hr : s.reader <;> simp_all [ReaderPc.holds, ReaderPc.logged, ReaderPc.flushes]
  rw [State.onDisk, List.take_of_length_le (h.all hlogged.2), h.written, hlogged.1, List.append_nil]

/-- a reader with the lock is so many of its statements from giving it back -/
def ReaderPc.left : ReaderPc → ℕ
  | .recheck _ => 5
  | .write _ => 4
  | .flush _ => 3
  | .extend _ => 2
  | .release _ => 1
  | _ => 0

/-- what a state shows of the console -/
structure Follows (s : State) : Prop where
  safe : s.raised = false
  /-- whenever the reader is not at it, `serial.log` holds the buffer -/
  log : s.lock ≠ some .reader → s.onDisk = s.buf
  /-- what was looked at stays, in later looks, in the buffer and in `serial.log` -/
  kept : s.looks.Pairwise (· <+: ·) ∧ ∀ l ∈ s.looks, l <+: s.buf ∧ l <+: s.onDisk
  /-- the buffer is what was received, but for the last chunk, which the reader still has or dropped behind the stop -/
  whole : ∃ late, s.received.flatten = s.buf ++ late ∧ (late ≠ [] → s.received.getLast? = some late ∧
    (s.reader.chunk? = some late ∨ s.stop = true ∧ s.reader.gone = true))

/-- A reader that `join` gave up on finds the log closed, and drops what it got. -/
example :
    let s := after start [.reader .timedOut 0, .reader (.chunk [65]) 0, .leave, .go, .go, .go, .go, .reader .timedOut 0,
      .reader .timedOut 0, .reader .timedOut 0]
    (s.closed, s.received, s.buf, s.raised) = (true, [[65]], [], false) := rfl

/-! ## The atomic reader -/

inductive Event where
  | recv (r : Recv)
  | stop

/-- one step of the atomic reader, or the stop -/
def observe (r : Reader) : Event → Reader
  | .recv recv => readSerial r recv
  | .stop => { r with stop := true }

def observed (events : List Event) : Reader := events.foldl observe ⟨[], [], false, true⟩

/-- the chunk the reader will put in the log and in the buffer, whatever happens -/
def ReaderPc.committed : ReaderPc → Bytes
  | .write chunk | .flush chunk | .extend chunk => chunk
  | _ => []

/-- the state as the atomic reader has it -/
def State.atomic (s : State) : Reader :=
  ⟨s.buf ++ s.reader.committed, s.buf ++ s.reader.committed, s.stop, !s.reader.gone⟩

/-- the chunk an event brings -/
def Event.chunk? : Event → Option Bytes
  | .recv (.chunk chunk) => some chunk
  | _ => none

def Event.isStop : Event → Bool
  | .stop => true
  | _ => false

/-- the chunk the reader has and has not yet looked at the stop event with -/
def ReaderPc.waiting : ReaderPc → List Bytes
  | .acquire chunk | .recheck chunk => [chunk]
  | _ => []

/-- the events of the atomic reader that show what a step does: they bring the chunks it puts behind it, in order, and stop
where it stops -/
structure Simulates (s s' : State) (events : List Event) : Prop where
  atomic : s'.atomic = events.foldl observe s.atomic
  chunks : ∃ got, s'.received = s.received ++ got ∧
    s.reader.waiting ++ got = events.filterMap Event.chunk? ++ s'.reader.waiting
  stops : s'.stop.toNat = s.stop.toNat + events.countP Event.isStop

/-- a step that is not to be seen -/
theorem simulates_none {s s' : State} (hatomic : s'.atomic = s.atomic) (got : List Bytes)
    (hreceived : s'.received = s.received ++ got) (hwaiting : s.reader.waiting ++ got = s'.reader.waiting)
    (hstop : s'.stop = s.stop) : ∃ events, Simulates s s' events :=
  ⟨[], hatomic, ⟨got, hreceived, hwaiting⟩, by rw [hstop]; rfl⟩

theorem simulates_refl (s : State) : ∃ events, Simulates s s events :=
  simulates_none rfl [] (List.append_nil _).symm (List.append_nil _) rfl

/-- the end of the reader's loop is a `recv` without bytes -/
theorem simulates_end {s s' : State} (recv : Recv) (hrecv : (Event.recv recv).chunk? = none)
    (hatomic : s'.atomic = readSerial s.atomic recv) (hreceived : s'.received = s.received)
    (hwaiting : s.reader.waiting = s'.reader.waiting) (hstop : s'.stop = s.stop) : ∃ events, Simulates s s' events :=
  ⟨[.recv recv], hatomic, ⟨[], by rw [hreceived, List.append_nil], by simp [hrecv, hwaiting]⟩, by rw [hstop]; rfl⟩

/-- a step is one of the atomic reader's, the stop, or not to be seen -/
theorem advance_simulates {s : State} (h : Inv s) (move : Move) : ∃ events, Simulates s (advance s move) events := by
  have hstop := h.stop
  cases move with
  | reader recv spilled =>
    cases hr : s.reader with
    | check =>
      simp only [advance, readerStep, hr]
      split_ifs with hs
      · exact simulates_end .timedOut rfl (by simp [State.atomic, ReaderPc.committed, ReaderPc.gone, readSerial, hr, hs])
          rfl (by rw [hr]; rfl) rfl
      · exact simulates_none (by simp [State.atomic, ReaderPc.committed, ReaderPc.gone, hr]) [] (List.append_nil _).symm
          (by rw [hr]; rfl) rfl
    | recv =>
      simp only [advance, readerStep, hr]
      rcases recv with (_ | ⟨b, bs⟩) | _ | _
      · exact simulates_end .failed rfl (by simp [State.atomic, ReaderPc.committed, ReaderPc.gone, readSerial, hr])
          rfl (by rw [hr]; rfl) rfl
      · exact simulates_none (by simp [State.atomic, ReaderPc.committed, ReaderPc.gone, hr]) [b :: bs] rfl
          (by rw [hr]; rfl) rfl
      · exact simulates_none (by simp [State.atomic, ReaderPc.committed, ReaderPc.gone, hr]) [] (List.append_nil _).symm
          (by rw [hr]; rfl) rfl
      · exact simulates_end .failed rfl (by simp [State.atomic, ReaderPc.committed, ReaderPc.gone, readSerial, hr])
          rfl (by rw [hr]; rfl) rfl
    | acquire chunk =>
      simp only [advance, readerStep, hr]
      split_ifs
      · exact simulates_none (by simp [State.atomic, ReaderPc.committed, ReaderPc.gone, hr]) [] (List.append_nil _).symm
          (by rw [hr]; rfl) rfl
      · exact simulates_refl s
    | recheck chunk =>
      -- the stop is looked at here for good
      have hne : chunk ≠ [] := (h.last chunk (by rw [hr]; rfl)).1
      obtain ⟨b, bs, rfl⟩ := List.exists_cons_of_ne_nil hne
      simp only [advance, readerStep, hr]
      refine ⟨[.recv (.chunk (b :: bs))], ?_, ⟨[], (List.append_nil _).symm, ?_⟩, rfl⟩
      · split_ifs with hs <;>
          simp [State.atomic, ReaderPc.committed, ReaderPc.gone, observe, readSerial, hr, hs]
      · split_ifs <;> simp [hr, ReaderPc.waiting, Event.chunk?]
    | write chunk =>
      simp only [advance, readerStep, hr, h.opened (by rw [hr]; rfl), Bool.false_eq_true, if_false]
      exact simulates_none (by simp [State.atomic, ReaderPc.committed, ReaderPc.gone, hr]) [] (List.append_nil _).symm
        (by rw [hr]; rfl) rfl
    | flush chunk =>
      simp only [advance, readerStep, hr, h.opened (by rw [hr]; rfl), Bool.false_eq_true, if_false]
      exact simulates_none (by simp [State.atomic, ReaderPc.committed, ReaderPc.gone, hr]) [] (List.append_nil _).symm
        (by rw [hr]; rfl) rfl
    | extend chunk =>
      exact simulates_none (by simp [advance, readerStep, State.atomic, ReaderPc.committed, ReaderPc.gone, hr]) []
        (by simp [advance, readerStep, hr]) (by simp [advance, readerStep, hr, ReaderPc.waiting])
        (by simp [advance, readerStep, hr])
    | release again =>
      simp only [advance, readerStep, hr]
      refine simulates_none ?_ [] (List.append_nil _).symm ?_ rfl
      · cases again <;> simp [State.atomic, ReaderPc.committed, ReaderPc.gone, hr]
      · cases again <;> simp [hr, ReaderPc.waiting]
    | ended =>
      simp only [advance, readerStep, hr]
      exact simulates_refl s
  | leave =>
    cases hb : s.block with
    | body =>
      rw [hb] at hstop
      exact ⟨[.stop], by simp [advance, blockStep, State.atomic, observe, hb],
        ⟨[], by simp [advance, blockStep, hb], by simp [advance, blockStep, hb, Event.chunk?]⟩,
        by simp [advance, blockStep, hb, hstop, BlockPc.stopped, Event.isStop]⟩
    | _ =>
      simp only [advance, blockStep, hb]
      exact simulates_refl s
  | _ =>
    simp only [advance, blockStep]
    split <;> try split_ifs
    all_goals first
      | exact simulates_refl s
      | exact simulates_none rfl [] (List.append_nil _).symm (List.append_nil _) rfl
      | contradiction

/-- only a look in progress puts something in `looks`, and it is the atomic reader's buffer -/
theorem advance_looks {s : State} (h : Inv s) (move : Move) :
    (advance s move).looks = s.looks ∨ (advance s move).looks = s.looks ++ [s.atomic.serialBuf] := by
  cases move with
  | reader recv spilled =>
    left
    simp only [advance, readerStep]
    split <;> try split <;> try split_ifs
    all_goals rfl
  | go =>
    cases hb : s.block with
    | looking =>
      right
      have hidle : ¬ s.reader.holds = true := h.not_reader (by rw [hb]; rfl)
      have hnone : s.reader.committed = [] := by
        cases hr : s.reader <;> simp_all [ReaderPc.holds, ReaderPc.committed]
      simp [advance, blockStep, hb, State.atomic, hnone]
    | acquire =>
      left
      simp only [advance, blockStep, hb]
      split_ifs <;> rfl
    | _ => exact Or.inl (by simp [advance, blockStep, hb])
  | _ =>
    left
    simp only [advance, blockStep]
    split <;> try split_ifs
    all_goals first | rfl | contradiction

/-- **Every interleaving is one of an atomic reader.** Whatever the two threads do, there is a run of `readSerial` over the
chunks the reader received, in order, but for one it has not looked at the stop event with, with the stop in it exactly
where the block set it: it ends in what the threads end in, and the buffers the block looked at are some it passes through,
one after the other. -/
theorem interleaving_atomic (moves : List Move) :
    ∃ events : List Event, (after start moves).atomic = observed events ∧
      (after start moves).received = events.filterMap Event.chunk? ++ (after start moves).reader.waiting ∧
      (after start moves).stop.toNat = events.countP Event.isStop ∧
      ∃ places : List ℕ, places.Pairwise (· ≤ ·) ∧ (∀ n ∈ places, n ≤ events.length) ∧
        (after start moves).looks = places.map fun n => (observed (events.take n)).serialBuf := by
  induction moves using List.reverseRecOn with
  | nil => exact ⟨[], rfl, rfl, rfl, [], List.Pairwise.nil, List.forall_mem_nil _, rfl⟩
  | append_singleton moves move ih =>
    obtain ⟨events, hatomic, hchunks, hstops, places, hsorted, hplaces, hlooks⟩ := ih
    have h := after_inv start_inv moves
    have hsnoc : after start (moves ++ [move]) = advance (after start moves) move := by
      simp [after, List.foldl_append]
    obtain ⟨more, hmore⟩ := advance_simulates h move
    obtain ⟨got, hgot, hwaiting⟩ := hmore.chunks
    have hlength : events.length ≤ (events ++ more).length := by
      rw [List.length_append]
      exact Nat.le_add_right _ _
    have hold : ∀ n ≤ events.length, (events ++ more).take n = events.take n := fun n hn =>
      List.take_append_of_le_length hn
    have hlooks' : (after start moves).looks = places.map fun n => (observed ((events ++ more).take n)).serialBuf := by
      rw [hlooks]
      exact List.map_congr_left fun n hn => by rw [hold n (hplaces n hn)]
    rw [hsnoc]
    refine ⟨events ++ more, ?_, ?_, ?_, ?_⟩
    · rw [hmore.atomic, hatomic, observed, observed, List.foldl_append]
    · rw [hgot, hchunks, List.append_assoc, hwaiting, List.filterMap_append, List.append_assoc]
    · rw [hmore.stops, hstops, List.countP_append]
    · rcases advance_looks h move with heq | heq
      · exact ⟨places, hsorted, fun n hn => (hplaces n hn).trans hlength, by rw [heq, hlooks']⟩
      · refine ⟨places ++ [events.length], List.pairwise_append.2 ⟨hsorted, List.pairwise_singleton _ _, ?_⟩, ?_, ?_⟩
        · intro n hn m hm
          rw [List.mem_singleton.1 hm]
          exact hplaces n hn
        · refine List.forall_mem_append.2 ⟨fun n hn => (hplaces n hn).trans hlength, ?_⟩
          exact List.forall_mem_singleton.2 hlength
        · rw [heq, hlooks', List.map_append, List.map_singleton, hold _ le_rfl, List.take_length, hatomic]

end DrtmTest.SerialReader
