/-
Lean model of the console of `drtmtest/qemu_vm.py`: the reader thread that fills the serial buffer and the polling loop
of `expect`.

`readSerial` is one `recv` of the reader thread. A `Poll` is what the world shows one pass of the loop: what the reader
received since the last look, the clock where the loop reads it, the registers, the process and the answer to
`query-status`. `pass` is one pass, `expect` a whole wait over the polls it gets, `runCalls` a sequence of waits. A wait
whose polls run out is still `waiting`.

- `pass_reader`, `expectFrom_grows`: only the reader thread moves the buffer, and the buffer only grows.
- `pass_cases`: what one pass can end in, with everything a return says.
- `expectFrom_spec`, `expect_spec`: a return is the text up to the leftmost occurrence of the needle behind the cursor, in
  the buffer as it then is, and moves the cursor behind it. Every other end leaves the cursor.
- `pass_missed`, `expect_missed`: a wait that does not return has no needle in the unread text.

The text a wait returns is bytes here. The source decodes them at the end.
-/
import DrtmTest.Qmp
import Mathlib.Data.Rat.Defs

namespace DrtmTest.QemuVm

open DrtmTest.Find DrtmTest.Text DrtmTest.Qmp

/-- seconds -/
abbrev Time := ℚ

def idleTimeout : Time := 90

def stuckAfter : Time := 30

def stuckFor : Time := 20

def stuckSample : Time := 2

/-! ## The reader thread -/

inductive Recv where
  | chunk (b : Bytes)
  | timedOut
  | failed

structure Reader where
  serialBuf : Bytes
  serialLog : Bytes
  /-- the stop event -/
  stop : Bool
  /-- the thread is in its loop -/
  running : Bool

/-- one pass of the loop of `_read_serial` -/
def readSerial (r : Reader) (recv : Recv) : Reader :=
  if ¬ r.running then r
  else if r.stop then { r with running := false }
  else match recv with
    | .timedOut => r
    | .failed => { r with running := false }
    | .chunk [] => { r with running := false }
    | .chunk b => { r with serialBuf := r.serialBuf ++ b, serialLog := r.serialLog ++ b }

/-! ## The wait -/

inductive ExpectError where
  /-- `GuestHung`: silent for `idle` -/
  | hungIdle (needle : String) (idle : Time) (read : Bytes)
  /-- `GuestHung`: silent, every running CPU at one address -/
  | hungStuck (needle : String) (silence : Time) (stuck : Dict ℕ String) (read : Bytes)
  /-- `GuestPanicked`: a failure on the console -/
  | failureSeen (failure needle : String)
  /-- `GuestPanicked`: the VM stopped as panicked -/
  | vmPanicked
  | qemuExited (returncode : ℤ)
  /-- what `query-status` raised -/
  | qmp (e : QmpError)
  /-- `query-status` returned no object -/
  | attributeError
  | timedOut (needle : String) (timeout : Time) (read : Bytes)

structure Vm where
  reader : Reader
  cursor : ℕ
  lastStatusCheck : Time
  /-- what `send` wrote, in order -/
  sent : List Bytes

/-- the arguments of one `expect` -/
structure Call where
  needle : String
  timeout : Time
  failures : List String
  answers : Dict String Bytes
  idle : Time

/-- what the world shows one pass -/
structure Poll where
  /-- what the reader thread got since the last look -/
  received : List Recv
  /-- the clock at the look -/
  now : Time
  /-- `_running_addresses()`, where it is asked for -/
  addresses : Dict ℕ String
  /-- `process.poll()` -/
  returncode : Option ℤ
  /-- the clock in `_check_alive` -/
  checked : Time
  /-- `execute("query-status")`, where it is asked for -/
  status : Except QmpError Json
  /-- the clock at the deadline -/
  after : Time

/-- a prompt, what it is answered with, and the position behind its last answered appearance -/
structure Answer where
  prompt : Bytes
  reply : Bytes
  after : ℕ

/-- the local variables of `expect` -/
structure Wait where
  deadline : Time
  lastSeen : Time
  seen : ℕ
  stuck : Dict ℕ String
  stuckSince : Time
  sampled : Time
  answered : List Answer

inductive Outcome where
  | returned (slice : Bytes)
  | raised (e : ExpectError)
  | waiting (w : Wait)

def begin (call : Call) (cursor : ℕ) (now : Time) : Wait where
  deadline := now + call.timeout
  lastSeen := now
  seen := 0
  stuck := ∅
  stuckSince := now
  sampled := now
  answered := call.answers.entries.map fun e => ⟨encode e.1, e.2, cursor⟩

/-- two dictionaries with the same items, in whatever order -/
def sameItems (d e : Dict ℕ String) : Bool :=
  d.entries.length = e.entries.length && d.entries.all fun x => e.get? x.1 = some x.2

/-- the silence of the console: what the pass notes of it, or the hang it reports -/
def checkSilence (call : Call) (p : Poll) (buf : Bytes) (w : Wait) : Except ExpectError Wait :=
  if buf.length ≠ w.seen then .ok { w with seen := buf.length, lastSeen := p.now, stuck := ∅ }
  else if p.now - w.lastSeen ≥ call.idle then .error (.hungIdle call.needle call.idle buf)
  else if p.now - w.lastSeen ≥ stuckAfter ∧ p.now - w.sampled ≥ stuckSample then
    if p.addresses.entries = [] ∨ ¬ sameItems p.addresses w.stuck then
      .ok { w with sampled := p.now, stuck := p.addresses, stuckSince := p.now }
    else if p.now - w.stuckSince ≥ stuckFor then
      .error (.hungStuck call.needle (p.now - w.lastSeen) w.stuck buf)
    else .ok { w with sampled := p.now }
  else .ok w

/-- `buf.find(pat, start)` -/
def findFrom (pat buf : Bytes) (start : ℕ) : Option ℕ := (find pat (buf.drop start)).map (· + start)

/-- the loop over the answers: what is sent, and the positions after it -/
def answer (cursor : ℕ) (buf : Bytes) : List Answer → List Bytes × List Answer
  | [] => ([], [])
  | a :: as =>
    let (sent, rest) := answer cursor buf as
    match findFrom a.prompt buf (a.after - cursor) with
    | some i => (a.reply :: sent, { a with after := cursor + i + a.prompt.length } :: rest)
    | none => (sent, a :: rest)

/-- `_check_alive` -/
def checkAlive (vm : Vm) (p : Poll) : Vm × Option ExpectError :=
  match p.returncode with
  | some rc => (vm, some (.qemuExited rc))
  | none =>
    if p.checked - vm.lastStatusCheck < 1 then (vm, none)
    else
      ({ vm with lastStatusCheck := p.checked },
        match p.status with
        | .error .osError => none
        | .error e => some (.qmp e)
        | .ok (.obj fields) =>
          match fields.lookup "status" with
          | some (.str s) => if s = "guest-panicked" then some .vmPanicked else none
          | _ => none
        | .ok _ => some .attributeError)

/-- what the buffer holds behind the cursor -/
def Vm.unread (vm : Vm) : Bytes := vm.reader.serialBuf.drop vm.cursor

/-- what `recv` gave the reader thread -/
def Vm.receive (vm : Vm) (rs : List Recv) : Vm := { vm with reader := rs.foldl readSerial vm.reader }

/-- one pass of the loop of `expect` -/
def pass (call : Call) (vm : Vm) (w : Wait) (p : Poll) : Vm × Outcome :=
  let vm := vm.receive p.received
  let buf := vm.unread
  match checkSilence call p buf w with
  | .error e => (vm, .raised e)
  | .ok w =>
    match find (encode call.needle) buf with
    | some i =>
      let stop := i + (encode call.needle).length
      ({ vm with cursor := vm.cursor + stop }, .returned (buf.take stop))
    | none =>
      match call.failures.find? fun f => contains (encode f) buf with
      | some f => (vm, .raised (.failureSeen f call.needle))
      | none =>
        let (sent, answered) := answer vm.cursor buf w.answered
        match checkAlive { vm with sent := vm.sent ++ sent } p with
        | (vm, some e) => (vm, .raised e)
        | (vm, none) =>
          if p.after ≥ w.deadline then (vm, .raised (.timedOut call.needle call.timeout buf))
          else (vm, .waiting { w with answered := answered })

/-- the loop over the polls it gets -/
def expectFrom (call : Call) : Vm → Wait → List Poll → Vm × Outcome
  | vm, w, [] => (vm, .waiting w)
  | vm, w, p :: ps =>
    match pass call vm w p with
    | (vm, .waiting w) => expectFrom call vm w ps
    | (vm, end_) => (vm, end_)

/-- one call of `expect`, with the clock at its start and the polls it gets: the loop looks at least once -/
structure Scripted where
  call : Call
  started : Time
  first : Poll
  later : List Poll

def expect (vm : Vm) (s : Scripted) : Vm × Outcome :=
  expectFrom s.call vm (begin s.call vm.cursor s.started) (s.first :: s.later)

/-- the calls in order; behind one that never ended comes none -/
def runCalls : Vm → List Scripted → Vm × List Outcome
  | vm, [] => (vm, [])
  | vm, s :: ss =>
    match expect vm s with
    | (vm, .waiting w) => (vm, [.waiting w])
    | (vm, end_) => ((runCalls vm ss).1, end_ :: (runCalls vm ss).2)

/-- a VM before its first byte -/
def fresh : Vm where
  reader := ⟨[], [], false, true⟩
  cursor := 0
  lastStatusCheck := 0
  sent := []

/-- a poll that shows one chunk, of a QEMU whose monitor is busy -/
def showing (chunk : Bytes) (now : Time) : Poll where
  received := [.chunk chunk]
  now := now
  addresses := ∅
  returncode := none
  checked := now
  status := .error .osError
  after := now

theorem fresh_receive (chunk : Bytes) : (fresh.receive [.chunk chunk]).unread = chunk := by
  cases chunk <;> rfl

theorem showing_alive (chunk : Bytes) (now : Time) (vm : Vm) : (checkAlive vm (showing chunk now)).2 = none := by
  by_cases h : now - vm.lastStatusCheck < 1 <;> simp [checkAlive, showing, h]

/-! ## The buffer only grows -/

theorem readSerial_grows (r : Reader) (recv : Recv) : r.serialBuf <+: (readSerial r recv).serialBuf := by
  unfold readSerial
  split
  · exact List.prefix_rfl
  · split
    · exact List.prefix_rfl
    · cases recv with
      | timedOut => exact List.prefix_rfl
      | failed => exact List.prefix_rfl
      | chunk b =>
        cases b with
        | nil => exact List.prefix_rfl
        | cons c b => exact List.prefix_append _ _

theorem reader_grows (r : Reader) (rs : List Recv) : r.serialBuf <+: (rs.foldl readSerial r).serialBuf := by
  induction rs generalizing r with
  | nil => exact List.prefix_rfl
  | cons recv rs ih => exact (readSerial_grows r recv).trans (ih _)

theorem checkAlive_frame {vm vm' : Vm} {p : Poll} {e : Option ExpectError} (h : checkAlive vm p = (vm', e)) :
    vm'.reader = vm.reader ∧ vm'.cursor = vm.cursor := by
  unfold checkAlive at h
  split at h
  · cases h; exact ⟨rfl, rfl⟩
  · split_ifs at h <;> cases h <;> exact ⟨rfl, rfl⟩

/-! ## What one pass does -/

/-- the ends of one pass: an exit of `pass` each, with the guards on the way to it -/
inductive Passed (call : Call) (vm : Vm) (w : Wait) (p : Poll) : Vm × Outcome → Prop where
  | silence (e : ExpectError) (hsil : checkSilence call p (vm.receive p.received).unread w = .error e) :
      Passed call vm w p (vm.receive p.received, .raised e)
  | found (w₁ : Wait) (i : ℕ) (hsil : checkSilence call p (vm.receive p.received).unread w = .ok w₁)
      (hfind : find (encode call.needle) (vm.receive p.received).unread = some i) :
      Passed call vm w p ({ vm.receive p.received with cursor := vm.cursor + (i + (encode call.needle).length) },
        .returned ((vm.receive p.received).unread.take (i + (encode call.needle).length)))
  | failed (w₁ : Wait) (f : String) (hsil : checkSilence call p (vm.receive p.received).unread w = .ok w₁)
      (hnone : find (encode call.needle) (vm.receive p.received).unread = none)
      (hfail : (call.failures.find? fun f => contains (encode f) (vm.receive p.received).unread) = some f) :
      Passed call vm w p (vm.receive p.received, .raised (.failureSeen f call.needle))
  | dead (w₁ : Wait) (vm' : Vm) (e : ExpectError)
      (hsil : checkSilence call p (vm.receive p.received).unread w = .ok w₁)
      (hnone : find (encode call.needle) (vm.receive p.received).unread = none)
      (hfail : (call.failures.find? fun f => contains (encode f) (vm.receive p.received).unread) = none)
      (halive : checkAlive { vm.receive p.received with
        sent := vm.sent ++ (answer vm.cursor (vm.receive p.received).unread w₁.answered).1 } p = (vm', some e)) :
      Passed call vm w p (vm', .raised e)
  | timedOut (w₁ : Wait) (vm' : Vm) (hsil : checkSilence call p (vm.receive p.received).unread w = .ok w₁)
      (hnone : find (encode call.needle) (vm.receive p.received).unread = none)
      (hfail : (call.failures.find? fun f => contains (encode f) (vm.receive p.received).unread) = none)
      (halive : checkAlive { vm.receive p.received with
        sent := vm.sent ++ (answer vm.cursor (vm.receive p.received).unread w₁.answered).1 } p = (vm', none))
      (hdeadline : w₁.deadline ≤ p.after) :
      Passed call vm w p (vm', .raised (.timedOut call.needle call.timeout (vm.receive p.received).unread))
  | waiting (w₁ : Wait) (vm' : Vm) (hsil : checkSilence call p (vm.receive p.received).unread w = .ok w₁)
      (hnone : find (encode call.needle) (vm.receive p.received).unread = none)
      (hfail : (call.failures.find? fun f => contains (encode f) (vm.receive p.received).unread) = none)
      (halive : checkAlive { vm.receive p.received with
        sent := vm.sent ++ (answer vm.cursor (vm.receive p.received).unread w₁.answered).1 } p = (vm', none))
      (hdeadline : p.after < w₁.deadline) :
      Passed call vm w p
        (vm', .waiting { w₁ with answered := (answer vm.cursor (vm.receive p.received).unread w₁.answered).2 })

/-- What is proved of a pass below is by cases on how it ended. -/
theorem pass_passed (call : Call) (vm : Vm) (w : Wait) (p : Poll) : Passed call vm w p (pass call vm w p) := by
  unfold pass
  simp only
  split
  · rename_i e hsil
    exact .silence e hsil
  · rename_i w₁ hsil
    split
    · rename_i i hfind
      exact .found w₁ i hsil hfind
    · rename_i hnone
      split
      · rename_i f hfail
        exact .failed w₁ f hsil hnone hfail
      · rename_i hfail
        split
        · rename_i vm' e halive
          exact .dead w₁ vm' e hsil hnone hfail halive
        · rename_i vm' halive
          split_ifs with hdeadline
          · exact .timedOut w₁ vm' hsil hnone hfail halive hdeadline
          · exact .waiting w₁ vm' hsil hnone hfail halive (not_le.1 hdeadline)

/-- Only the reader thread moves the buffer. -/
theorem pass_reader (call : Call) (vm : Vm) (w : Wait) (p : Poll) :
    (pass call vm w p).1.reader = (vm.receive p.received).reader := by
  have h := pass_passed call vm w p
  generalize pass call vm w p = r at h ⊢
  cases h with
  | silence => rfl
  | found => rfl
  | failed => rfl
  | dead _ _ _ _ _ _ halive => exact (checkAlive_frame halive).1
  | timedOut _ _ _ _ _ halive => exact (checkAlive_frame halive).1
  | waiting _ _ _ _ _ halive => exact (checkAlive_frame halive).1

/-- a pass that goes on leaves the timers as `checkSilence` has set them -/
theorem pass_waiting {call : Call} {vm vm' : Vm} {w w' : Wait} {p : Poll}
    (h : pass call vm w p = (vm', .waiting w')) :
    ∃ w₁ answered, checkSilence call p (vm.receive p.received).unread w = .ok w₁ ∧
      w' = { w₁ with answered := answered } := by
  have hpassed := pass_passed call vm w p
  rw [h] at hpassed
  cases hpassed with
  | waiting w₁ _ hsil => exact ⟨w₁, _, hsil, rfl⟩

theorem no_failure {failures : List String} {buf : Bytes}
    (h : (failures.find? fun f => contains (encode f) buf) = none) : ∀ f ∈ failures, contains (encode f) buf = false := by
  intro f hm
  simpa using List.find?_eq_none.1 h f hm

/-- **One pass.** A return is the unread text up to the leftmost occurrence of the needle, and moves the cursor behind it.
Any other end leaves the cursor, and goes on only where neither the needle nor a failure is in the unread text. -/
theorem pass_cases (call : Call) (vm : Vm) (w : Wait) (p : Poll) :
    (∃ i, find (encode call.needle) (vm.receive p.received).unread = some i ∧
        pass call vm w p = ({ vm.receive p.received with cursor := vm.cursor + (i + (encode call.needle).length) },
          .returned ((vm.receive p.received).unread.take (i + (encode call.needle).length)))) ∨
      (pass call vm w p).1.cursor = vm.cursor ∧ ((∃ e, (pass call vm w p).2 = .raised e) ∨
        (∃ w', (pass call vm w p).2 = .waiting w') ∧
          find (encode call.needle) (vm.receive p.received).unread = none ∧
          ∀ f ∈ call.failures, contains (encode f) (vm.receive p.received).unread = false) := by
  have h := pass_passed call vm w p
  generalize pass call vm w p = r at h ⊢
  cases h with
  | silence => exact Or.inr ⟨rfl, Or.inl ⟨_, rfl⟩⟩
  | found _ i _ hfind => exact Or.inl ⟨i, hfind, rfl⟩
  | failed => exact Or.inr ⟨rfl, Or.inl ⟨_, rfl⟩⟩
  | dead _ _ _ _ _ _ halive => exact Or.inr ⟨(checkAlive_frame halive).2, Or.inl ⟨_, rfl⟩⟩
  | timedOut _ _ _ _ _ halive => exact Or.inr ⟨(checkAlive_frame halive).2, Or.inl ⟨_, rfl⟩⟩
  | waiting _ _ _ hnone hfail halive =>
    exact Or.inr ⟨(checkAlive_frame halive).2, Or.inr ⟨⟨_, rfl⟩, hnone, no_failure hfail⟩⟩

/-- needle and read position agree: what a pass has looked through without growth holds no needle -/
def Clean (call : Call) (vm : Vm) (w : Wait) : Prop :=
  ∀ buf, vm.unread <+: buf → buf.length = w.seen → find (encode call.needle) buf = none

theorem begin_clean (call : Call) (vm : Vm) (now : Time) (hn : call.needle ≠ "") :
    Clean call vm (begin call vm.cursor now) := by
  intro buf _ hlen
  rw [List.eq_nil_of_length_eq_zero hlen, find, if_neg]
  exact fun h => hn (encode_eq_nil.1 h)

theorem checkSilence_ok {call : Call} {p : Poll} {buf : Bytes} {w w' : Wait} (h : checkSilence call p buf w = .ok w') :
    w'.seen = buf.length ∧ w'.deadline = w.deadline := by
  unfold checkSilence at h
  split_ifs at h with hlen <;> cases h
  all_goals first
    | exact ⟨rfl, rfl⟩
    | exact ⟨(not_not.1 hlen).symm, rfl⟩

theorem checkSilence_error {call : Call} {p : Poll} {buf : Bytes} {w : Wait} {e : ExpectError}
    (h : checkSilence call p buf w = .error e) : buf.length = w.seen := by
  by_contra hne
  rw [checkSilence, if_pos hne] at h
  cases h

theorem unread_grows (vm : Vm) (rs : List Recv) : vm.unread <+: (vm.receive rs).unread :=
  (reader_grows vm.reader rs).drop vm.cursor

/-- **A pass that does not return has no needle.** Neither a failure, nor a hang, nor the end of QEMU, nor the deadline is
reported while the needle stands in the unread text. -/
theorem pass_missed {call : Call} {vm : Vm} {w : Wait} {p : Poll} (hw : Clean call vm w)
    (hret : ∀ slice, (pass call vm w p).2 ≠ .returned slice) :
    find (encode call.needle) (pass call vm w p).1.unread = none ∧
      ∀ w', (pass call vm w p).2 = .waiting w' → Clean call (pass call vm w p).1 w' := by
  have hunread : (pass call vm w p).1.unread = (vm.receive p.received).unread := by
    rcases pass_cases call vm w p with ⟨i, -, heq⟩ | ⟨hcur, -⟩
    · rw [heq] at hret
      exact absurd rfl (hret _)
    · rw [Vm.unread, Vm.unread, pass_reader, hcur]
      rfl
  have hseen : ∀ w', (pass call vm w p).2 = .waiting w' → w'.seen = (vm.receive p.received).unread.length := by
    intro w' hwait
    obtain ⟨w₁, answered, hsil, rfl⟩ := pass_waiting (Prod.ext rfl hwait : pass call vm w p = (_, .waiting w'))
    exact (checkSilence_ok hsil).1
  have hnone : find (encode call.needle) (vm.receive p.received).unread = none := by
    have h := pass_passed call vm w p
    generalize pass call vm w p = r at h hret
    cases h with
    | silence e hsil => exact hw _ (unread_grows vm p.received) (checkSilence_error hsil)
    | found => exact absurd rfl (hret _)
    | failed _ _ _ hnone => exact hnone
    | dead _ _ _ _ hnone => exact hnone
    | timedOut _ _ _ hnone => exact hnone
    | waiting _ _ _ hnone => exact hnone
  rw [hunread]
  refine ⟨hnone, fun w' h buf hp hlen => ?_⟩
  rw [hunread] at hp
  rw [← hp.eq_of_length (by rw [hlen, hseen w' h]), hnone]

/-! ## A whole wait -/

theorem expectFrom_grows (call : Call) (vm : Vm) (w : Wait) (ps : List Poll) :
    vm.reader.serialBuf <+: (expectFrom call vm w ps).1.reader.serialBuf := by
  induction ps generalizing vm w with
  | nil => exact List.prefix_rfl
  | cons p ps ih =>
    have hp : vm.reader.serialBuf <+: (pass call vm w p).1.reader.serialBuf := by
      rw [pass_reader]
      exact reader_grows vm.reader p.received
    simp only [expectFrom]
    split
    · rename_i vm' w' h
      rw [h] at hp
      exact hp.trans (ih vm' w')
    · rename_i h
      rw [h] at hp
      exact hp

/-- **A wait returns a cut.** A return is the text up to the leftmost occurrence of the needle behind the cursor, in the
buffer as it then is, and moves the cursor behind it. Every other end leaves the cursor. -/
theorem expectFrom_spec (call : Call) (vm : Vm) (w : Wait) (ps : List Poll) :
    match expectFrom call vm w ps with
    | (vm', .returned slice) => vm'.cursor = vm.cursor + slice.length ∧
        cut (encode call.needle) (vm'.reader.serialBuf.drop vm.cursor) = some (slice, vm'.unread)
    | (vm', _) => vm'.cursor = vm.cursor := by
  induction ps generalizing vm w with
  | nil => rfl
  | cons p ps ih =>
    rcases pass_cases call vm w p with ⟨i, hi, heq⟩ | ⟨hcur, hend⟩
    · have hle : i + (encode call.needle).length ≤ (vm.receive p.received).unread.length := (find_eq_some.1 hi).1.le
      simp only [expectFrom, heq]
      refine ⟨by rw [List.length_take, Nat.min_eq_left hle], ?_⟩
      change cut _ (vm.receive p.received).unread = _
      rw [cut_found hi, Vm.unread, Vm.unread, List.drop_drop]
      rfl
    · simp only [expectFrom]
      rcases hp : pass call vm w p with ⟨vm', out⟩
      rw [hp] at hcur hend
      cases out with
      | waiting w' =>
        have h := ih vm' w'
        rw [show vm'.cursor = vm.cursor from hcur] at h
        exact h
      | raised e => exact hcur
      | returned slice => rcases hend with ⟨e, he⟩ | ⟨⟨w', hw'⟩, -⟩ <;> contradiction

theorem expect_spec (vm : Vm) (s : Scripted) :
    match expect vm s with
    | (vm', .returned slice) => vm'.cursor = vm.cursor + slice.length ∧
        cut (encode s.call.needle) (vm'.reader.serialBuf.drop vm.cursor) = some (slice, vm'.unread)
    | (vm', _) => vm'.cursor = vm.cursor :=
  expectFrom_spec s.call vm (begin s.call vm.cursor s.started) (s.first :: s.later)

theorem expectFrom_missed {call : Call} {vm : Vm} {w : Wait} {p : Poll} {ps : List Poll} (hw : Clean call vm w)
    (h : ∀ slice, (expectFrom call vm w (p :: ps)).2 ≠ .returned slice) :
    find (encode call.needle) (expectFrom call vm w (p :: ps)).1.unread = none := by
  induction ps generalizing vm w p with
  | nil =>
    have hm := pass_missed (p := p) hw
    rcases hp : pass call vm w p with ⟨vm', out⟩
    rw [hp] at hm
    simp only [expectFrom, hp] at h ⊢
    cases out with
    | returned slice => exact absurd rfl (h slice)
    | _ => exact (hm (by simp)).1
  | cons q ps ih =>
    have hm := pass_missed (p := p) hw
    rcases hp : pass call vm w p with ⟨vm', out⟩
    rw [hp] at hm
    rw [expectFrom, hp] at h ⊢
    cases out with
    | waiting w' => exact ih ((hm (by simp)).2 w' rfl) h
    | raised e => exact (hm (by simp)).1
    | returned slice => exact absurd rfl (h slice)

/-- **No wait misses its needle.** A wait that does not return has no needle in the unread text at its last look. -/
theorem expect_missed {vm : Vm} {s : Scripted} (hn : s.call.needle ≠ "")
    (h : ∀ slice, (expect vm s).2 ≠ .returned slice) : find (encode s.call.needle) (expect vm s).1.unread = none :=
  expectFrom_missed (begin_clean s.call vm s.started hn) h

end DrtmTest.QemuVm
