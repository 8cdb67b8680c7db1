/-
What a boot leaves behind: `QemuVm.__enter__` and `__exit__` (`drtmtest/qemu_vm.py`) with any of their calls failing.

`live` is what a boot made and did not remove; `Vm` are the fields that `__exit__` goes by. The calls fail as the `Boot`
says, at any step of `__enter__`, in the body or in `__exit__`.
- `Stable`: what every call but the making and the removal of the work directory keeps; so a call that fails between the
  two leaves the directory.
- `enterWorkdir_does`, `stopAll_does`: exactly when each half raises nothing, and what stands then.
- `boot_leaves_nothing_iff`: so exactly the boots with no such call leave nothing of their own.
- `session_leaves_nothing_iff`: nor does a sequence of them.
-/
import DrtmTest.Core.Code

namespace DrtmTest.BootLeaks

open DrtmTest.Code

/-! ## The boot -/

inductive Child where
  | swtpm
  | qemu
  deriving DecidableEq

inductive Log where
  | serial
  | qemu
  | swtpm
  deriving DecidableEq

/-- what a boot makes -/
inductive Resource where
  | workdir
  | log (log : Log)
  | process (child : Child)
  | socketPath (child : Child)
  | serialSocket
  deriving DecidableEq

/-- the calls that may raise -/
inductive Call where
  | makeLogDir
  | makeWorkdir
  | openLog (log : Log)
  | copyFirmware
  | makeTemp (child : Child)
  | closeTemp (child : Child)
  | unlinkTemp (child : Child)
  | makeStateDir
  | setUpState
  | start (child : Child)
  | waitForSocket
  | freeTcpPort
  | writeArgs
  | connectSerial
  | setTimeout
  | startReader
  | closeSerial
  | joinReader
  | terminate (child : Child)
  | wait (child : Child)
  | kill (child : Child)
  | waitKilled (child : Child)
  | unlinkSocket (child : Child)
  | saveFirmware
  | removeWorkdir
  | closeLog (log : Log)
  deriving DecidableEq

/-- how a wait for a process to listen fails -/
inductive Failure where
  | exited
  | timedOut
  | interrupted
  deriving DecidableEq

/-- the options of a boot, and what happens in it -/
structure Boot where
  firmware : Bool
  tpm : Bool
  savesFirmware : Bool
  fails : Call → Bool
  failure : Failure
  /-- the process makes its socket path, whether or not the wait for it succeeds -/
  listens : Child → Bool
  bodyRaises : Bool
  /-- the process is gone when the body ends -/
  dies : Child → Bool
  /-- the process is still there 5 s after `terminate` -/
  outlives : Child → Bool

/-- the fields of the object: which of them are set, and `_files` -/
structure Vm where
  workdir : Bool
  files : List Log
  firmwareCopy : Bool
  swtpmSock : Bool
  swtpm : Bool
  qmpSock : Bool
  process : Bool
  serialSock : Bool
  reader : Bool

/-- the fields that `__init__` leaves -/
def newVm : Vm := ⟨false, [], false, false, false, false, false, false, false⟩

/-- what boots made that is still there, the number of this boot, and its object -/
structure State where
  live : ℕ → Resource → Bool
  number : ℕ
  vm : Vm

/-- this boot's resource is there -/
def State.has (s : State) (r : Resource) : Bool := s.live s.number r

/-- no two boots make the same process, path or file -/
def State.set (s : State) (r : Resource) (there : Bool) : State :=
  { s with live := Function.update s.live s.number (Function.update (s.live s.number) r there) }

def State.assign (s : State) (f : Vm → Vm) : State := { s with vm := f s.vm }

def make (r : Resource) : Code State Unit := change fun s => s.set r true

def remove (r : Resource) : Code State Unit := change fun s => s.set r false

def assign (f : Vm → Vm) : Code State Unit := change fun s => s.assign f

/-- a call that does nothing where it raises -/
def attempt (b : Boot) (c : Call) (m : Code State Unit) : Code State Unit := if b.fails c then raise else m

/-- a call that makes and removes nothing -/
def call (b : Boot) (c : Call) : Code State Unit := attempt b c (pure ())

/-! ## `__enter__` -/

/-- `_short_socket_path` -/
def shortSocketPath (b : Boot) (child : Child) : Code State Unit := do
  attempt b (.makeTemp child) (make (.socketPath child))
  call b (.closeTemp child)
  attempt b (.unlinkTemp child) (remove (.socketPath child))

/-- `_wait_for_socket`: one that exited is gone, and so is one killed for making no socket in time -/
def waitForSocket (b : Boot) : Code State Unit :=
  if b.fails .waitForSocket then do
    when (b.listens .swtpm) (make (.socketPath .swtpm))
    when (b.failure ≠ .interrupted) (remove (.process .swtpm))
    raise
  else make (.socketPath .swtpm)

def startSwtpm (b : Boot) : Code State Unit := do
  call b .makeStateDir
  call b .setUpState
  attempt b (.start .swtpm) (make (.process .swtpm))
  waitForSocket b

/-- `_connect_serial` -/
def connectSerial (b : Boot) : Code State Unit :=
  if b.fails .connectSerial then do
    when (b.failure = .exited) (remove (.process .qemu))
    raise
  else make .serialSocket

/-! The work of `__enter__` behind the making of the work directory, in its order. -/

def openLogs (b : Boot) : Code State Unit := do
  attempt b (.openLog .serial) (make (.log .serial))
  attempt b (.openLog .qemu) (make (.log .qemu))
  assign fun vm => { vm with files := [.serial, .qemu] }

def attachFirmware (b : Boot) : Code State Unit :=
  when b.firmware do
    call b .copyFirmware
    assign fun vm => { vm with firmwareCopy := true }

def attachTpm (b : Boot) : Code State Unit :=
  when b.tpm do
    attempt b (.openLog .swtpm) (make (.log .swtpm))
    assign fun vm => { vm with files := vm.files ++ [.swtpm] }
    shortSocketPath b .swtpm
    assign fun vm => { vm with swtpmSock := true }
    startSwtpm b
    assign fun vm => { vm with swtpm := true }

def attachQmp (b : Boot) : Code State Unit := do
  shortSocketPath b .qemu
  assign fun vm => { vm with qmpSock := true }

def startQemu (b : Boot) : Code State Unit := do
  call b .freeTcpPort
  call b .writeArgs
  attempt b (.start .qemu) (make (.process .qemu))
  when (b.listens .qemu) (make (.socketPath .qemu))
  assign fun vm => { vm with process := true }

def attachSerial (b : Boot) : Code State Unit := do
  connectSerial b
  assign fun vm => { vm with serialSock := true }
  call b .setTimeout
  assign fun vm => { vm with reader := true }
  call b .startReader

def enterWorkdir (b : Boot) : Code State Unit := do
  assign fun vm => { vm with workdir := true }
  openLogs b
  attachFirmware b
  attachTpm b
  attachQmp b
  startQemu b
  attachSerial b

def enter (b : Boot) : Code State Unit := do
  call b .makeLogDir
  attempt b .makeWorkdir (make .workdir)
  enterWorkdir b

/-! ## The body and `__exit__` -/

def body (b : Boot) : Code State Unit := do
  when (b.dies .swtpm) (remove (.process .swtpm))
  when (b.dies .qemu) (remove (.process .qemu))
  when b.bodyRaises raise

/-- stops one process: `terminate`, and `kill` where the wait times out -/
def stop (b : Boot) (child : Child) : Code State Unit := do
  call b (.terminate child)
  call b (.wait child)
  when (b.outlives child) do
    call b (.kill child)
    call b (.waitKilled child)
  remove (.process child)

/-- `__exit__` up to the removal of the work directory; the socket is closed also where its `close` raises -/
def stopAll (b : Boot) (vm : Vm) (raised : Bool) : Code State Unit := do
  when vm.serialSock do
    remove .serialSocket
    call b .closeSerial
  when vm.reader (call b .joinReader)
  when vm.process (stop b .qemu)
  when vm.swtpm (stop b .swtpm)
  when vm.swtpmSock (attempt b (.unlinkSocket .swtpm) (remove (.socketPath .swtpm)))
  when vm.qmpSock (attempt b (.unlinkSocket .qemu) (remove (.socketPath .qemu)))
  when (b.savesFirmware && !raised && vm.firmwareCopy) (call b .saveFirmware)

/-- a log is closed also where its `close` raises, which a last flush may -/
def closeLog (b : Boot) (log : Log) : Code State Unit := do
  remove (.log log)
  call b (.closeLog log)

/-- the rest of `__exit__`; errors in the removal of the directory are ignored, and leave it -/
def removeAll (b : Boot) (vm : Vm) : Code State Unit := do
  when (vm.workdir && !b.fails .removeWorkdir) (remove .workdir)
  each (closeLog b) vm.files

def exit (b : Boot) (raised : Bool) : Code State Unit := do
  let vm ← read State.vm
  stopAll b vm raised
  removeAll b vm

/-- `with QemuVm(...)` -/
def boot (b : Boot) : Code State Unit := withStatement (enter b) (body b) (exit b)

abbrev World := ℕ → Resource → Bool

/-- what is left when the `with` statement of the boot has ended -/
def afterBoot (left : World) (number : ℕ) (b : Boot) : World := (boot b ⟨left, number, newVm⟩).2.live

/-- and those of a sequence of boots, the first with the number -/
def afterBoots (left : World) (number : ℕ) : List Boot → World
  | [] => left
  | b :: boots => afterBoots (afterBoot left number b) (number + 1) boots

/-- what a session leaves -/
def session (boots : List Boot) : World := afterBoots (fun _ _ => false) 0 boots

/-! ## The calls that run -/

def optional (c : Bool) (calls : List Call) : List Call := if c then calls else []

def tempCalls (child : Child) : List Call := [.makeTemp child, .closeTemp child, .unlinkTemp child]

def swtpmCalls : List Call := [.makeStateDir, .setUpState, .start .swtpm, .waitForSocket]

def tpmCalls : List Call := .openLog .swtpm :: (tempCalls .swtpm).append swtpmCalls

def qemuCalls : List Call := [.freeTcpPort, .writeArgs, .start .qemu]

def serialCalls : List Call := [.connectSerial, .setTimeout, .startReader]

/-- those of `__enter__` behind the making of the work directory -/
def enterCalls (b : Boot) : List Call :=
  [[.openLog .serial, .openLog .qemu], optional b.firmware [.copyFirmware], optional b.tpm tpmCalls, tempCalls .qemu,
    qemuCalls, serialCalls].flatten

def stopCalls (b : Boot) (child : Child) : List Call :=
  .terminate child :: .wait child :: optional (b.outlives child) [.kill child, .waitKilled child]

/-- those of `__exit__` up to the removal of the work directory -/
def stopAllCalls (b : Boot) : List Call :=
  [[.closeSerial, .joinReader], stopCalls b .qemu, optional b.tpm (stopCalls b .swtpm),
    optional b.tpm [.unlinkSocket .swtpm], [.unlinkSocket .qemu],
    optional (b.savesFirmware && !b.bodyRaises && b.firmware) [.saveFirmware]].flatten

/-- the logs a boot opens -/
def logs (b : Boot) : List Log := .serial :: .qemu :: if b.tpm then [.swtpm] else []

/-- the rest of them but for the closing of the last log, behind which nothing is left to do -/
def removeCalls (b : Boot) : List Call := .removeWorkdir :: (logs b).dropLast.map .closeLog

def Succeed (b : Boot) (calls : List Call) : Prop := ∀ c ∈ calls, b.fails c = false

/-- `__enter__` raises before it made anything, or neither it nor `__exit__` has a call fail -/
def Clean (b : Boot) : Prop :=
  b.fails .makeLogDir ∨ b.fails .makeWorkdir ∨
    Succeed b (enterCalls b) ∧ Succeed b (stopAllCalls b) ∧ Succeed b (removeCalls b)

/-! ## One resource against another -/

@[simp] theorem set_number (s : State) (r : Resource) (there : Bool) : (s.set r there).number = s.number := rfl

@[simp] theorem set_vm (s : State) (r : Resource) (there : Bool) : (s.set r there).vm = s.vm := rfl

@[simp] theorem assign_number (s : State) (f : Vm → Vm) : (s.assign f).number = s.number := rfl

@[simp] theorem assign_vm (s : State) (f : Vm → Vm) : (s.assign f).vm = f s.vm := rfl

@[simp] theorem has_assign (s : State) (f : Vm → Vm) (r : Resource) : (s.assign f).has r = s.has r := rfl

@[simp] theorem has_set (s : State) (r other : Resource) (there : Bool) :
    (s.set r there).has other = if other = r then there else s.has other := by
  simp [State.has, State.set, Function.update_apply]

theorem live_set {s : State} {n : ℕ} (hn : n ≠ s.number) (r : Resource) (there : Bool) :
    (s.set r there).live n = s.live n := Function.update_of_ne hn _ _

/-! ## What no call changes -/

/-- kept by whatever a boot does but the making and the removal of its work directory -/
structure Stable (P : State → Prop) : Prop where
  set : ∀ s r there, r ≠ .workdir → P s → P (s.set r there)
  assign : ∀ s f, P s → P (s.assign f)

variable {P : State → Prop} {b : Boot}

theorem Stable.make (h : Stable P) {r : Resource} (hr : r ≠ .workdir) : Keeps P (BootLeaks.make r) :=
  keeps_change fun s => h.set s r true hr

theorem Stable.remove (h : Stable P) {r : Resource} (hr : r ≠ .workdir) : Keeps P (BootLeaks.remove r) :=
  keeps_change fun s => h.set s r false hr

theorem Stable.assigns (h : Stable P) (f : Vm → Vm) : Keeps P (BootLeaks.assign f) := keeps_change fun s => h.assign s f

theorem keeps_attempt {c : Call} {m : Code State Unit} (h : Keeps P m) : Keeps P (attempt b c m) := by
  unfold attempt
  split
  · exact keeps_raise
  · exact h

theorem keeps_call {c : Call} : Keeps P (call b c) := keeps_attempt (keeps_pure ())

theorem keeps_shortSocketPath (h : Stable P) (child : Child) : Keeps P (shortSocketPath b child) := by
  refine keeps_bind (keeps_attempt (h.make (by simp))) fun _ => ?_
  refine keeps_bind keeps_call fun _ => ?_
  exact keeps_attempt (h.remove (by simp))

theorem keeps_waitForSocket (h : Stable P) : Keeps P (waitForSocket b) := by
  unfold waitForSocket
  split
  · apply keeps_bind (keeps_when (h.make (by simp)))
    intro _
    refine keeps_bind (keeps_when (h.remove (by simp))) fun _ => ?_
    exact keeps_raise
  · exact h.make (by simp)

theorem keeps_startSwtpm (h : Stable P) : Keeps P (startSwtpm b) := by
  refine keeps_bind keeps_call fun _ => ?_
  refine keeps_bind keeps_call fun _ => ?_
  refine keeps_bind (keeps_attempt (h.make (by simp))) fun _ => ?_
  exact keeps_waitForSocket h

theorem keeps_connectSerial (h : Stable P) : Keeps P (connectSerial b) := by
  unfold connectSerial
  split
  · apply keeps_bind (keeps_when (h.remove (by simp)))
    intro _
    exact keeps_raise
  · exact h.make (by simp)

theorem keeps_openLogs (h : Stable P) : Keeps P (openLogs b) := by
  refine keeps_bind (keeps_attempt (h.make (by simp))) fun _ => ?_
  refine keeps_bind (keeps_attempt (h.make (by simp))) fun _ => ?_
  exact h.assigns _

theorem keeps_attachFirmware (h : Stable P) : Keeps P (attachFirmware b) :=
  keeps_when (keeps_bind keeps_call fun _ => h.assigns _)

theorem keeps_attachTpm (h : Stable P) : Keeps P (attachTpm b) := by
  apply keeps_when
  refine keeps_bind (keeps_attempt (h.make (by simp))) fun _ => ?_
  refine keeps_bind (h.assigns _) fun _ => ?_
  refine keeps_bind (keeps_shortSocketPath h .swtpm) fun _ => ?_
  refine keeps_bind (h.assigns _) fun _ => ?_
  refine keeps_bind (keeps_startSwtpm h) fun _ => ?_
  exact h.assigns _

theorem keeps_startQemu (h : Stable P) : Keeps P (startQemu b) := by
  refine keeps_bind keeps_call fun _ => ?_
  refine keeps_bind keeps_call fun _ => ?_
  refine keeps_bind (keeps_attempt (h.make (by simp))) fun _ => ?_
  refine keeps_bind (keeps_when (h.make (by simp))) fun _ => ?_
  exact h.assigns _

theorem keeps_attachSerial (h : Stable P) : Keeps P (attachSerial b) := by
  refine keeps_bind (keeps_connectSerial h) fun _ => ?_
  refine keeps_bind (h.assigns _) fun _ => ?_
  refine keeps_bind keeps_call fun _ => ?_
  refine keeps_bind (h.assigns _) fun _ => ?_
  exact keeps_call

theorem keeps_enterWorkdir (h : Stable P) : Keeps P (enterWorkdir b) := by
  refine keeps_bind (h.assigns _) fun _ => ?_
  refine keeps_bind (keeps_openLogs h) fun _ => ?_
  refine keeps_bind (keeps_attachFirmware h) fun _ => ?_
  refine keeps_bind (keeps_attachTpm h) fun _ => ?_
  refine keeps_bind (keeps_bind (keeps_shortSocketPath h .qemu) fun _ => h.assigns _) fun _ => ?_
  refine keeps_bind (keeps_startQemu h) fun _ => ?_
  exact keeps_attachSerial h

theorem keeps_body (h : Stable P) : Keeps P (body b) := by
  refine keeps_bind (keeps_when (h.remove (by simp))) fun _ => ?_
  refine keeps_bind (keeps_when (h.remove (by simp))) fun _ => ?_
  exact keeps_when keeps_raise

theorem keeps_stop (h : Stable P) (child : Child) : Keeps P (stop b child) := by
  refine keeps_bind keeps_call fun _ => ?_
  refine keeps_bind keeps_call fun _ => ?_
  refine keeps_bind (keeps_when (keeps_bind keeps_call fun _ => keeps_call)) fun _ => ?_
  exact h.remove (by simp)

theorem keeps_stopAll (h : Stable P) (vm : Vm) (raised : Bool) : Keeps P (stopAll b vm raised) := by
  refine keeps_bind (keeps_when (keeps_bind (h.remove (by simp)) fun _ => keeps_call)) fun _ => ?_
  refine keeps_bind (keeps_when keeps_call) fun _ => ?_
  refine keeps_bind (keeps_when (keeps_stop h .qemu)) fun _ => ?_
  refine keeps_bind (keeps_when (keeps_stop h .swtpm)) fun _ => ?_
  refine keeps_bind (keeps_when (keeps_attempt (h.remove (by simp)))) fun _ => ?_
  refine keeps_bind (keeps_when (keeps_attempt (h.remove (by simp)))) fun _ => ?_
  exact keeps_when keeps_call

theorem keeps_closeLogs (h : Stable P) (logs : List Log) : Keeps P (each (closeLog b) logs) :=
  keeps_each (fun _ => keeps_bind (h.remove (by simp)) fun _ => keeps_call) logs

/-! ## What each piece does -/

@[simp] theorem succeed_append (xs ys : List Call) : Succeed b (xs ++ ys) ↔ Succeed b xs ∧ Succeed b ys :=
  List.forall_mem_append

@[simp] theorem succeed_cons (c : Call) (cs : List Call) : Succeed b (c :: cs) ↔ b.fails c = false ∧ Succeed b cs :=
  List.forall_mem_cons

@[simp] theorem succeed_nil : Succeed b [] ↔ True := by simp [Succeed]

@[simp] theorem succeed_optional {c : Bool} {cs : List Call} : Succeed b (optional c cs) ↔ (c = true → Succeed b cs) := by
  cases c <;> simp [optional]

theorem does_attempt {c : Call} {m : Code State Unit} {Q : Prop} {g : State → State} (h : Does m Q g) :
    Does (attempt b c m) (b.fails c = false ∧ Q) g := by
  unfold attempt
  split
  · rename_i hc
    exact (does_raise.never id).congr (by simp [hc]) fun _ => rfl
  · rename_i hc
    exact h.congr (by simp [Bool.eq_false_of_not_eq_true hc]) fun _ => rfl

theorem does_call {c : Call} : Does (call b c) (b.fails c = false ∧ True) id := does_attempt does_pure

theorem shortSocketPath_does (child : Child) :
    Does (shortSocketPath b child) (Succeed b (tempCalls child)) fun s =>
      (s.set (.socketPath child) true).set (.socketPath child) false := by
  refine Does.congr (does_bind (does_attempt (does_change _)) (does_bind does_call (does_attempt (does_change _))))
    ?_ fun _ => rfl
  simp [tempCalls]

theorem waitForSocket_does :
    Does (waitForSocket b) (b.fails .waitForSocket = false) fun s => s.set (.socketPath .swtpm) true := by
  unfold waitForSocket
  split
  · rename_i h
    have hraises : Does (do
        when (b.listens .swtpm) (make (.socketPath .swtpm))
        when (b.failure ≠ .interrupted) (remove (.process .swtpm))
        raise) _ _ :=
      does_bind (does_when (does_change _)) (does_bind (does_when (does_change _)) does_raise)
    exact (hraises.never (by simp)).congr (by simp [h]) fun _ => rfl
  · rename_i h
    exact (does_change _).congr (by simpa using h) fun _ => rfl

theorem startSwtpm_does :
    Does (startSwtpm b) (Succeed b swtpmCalls) fun s =>
      (s.set (.process .swtpm) true).set (.socketPath .swtpm) true := by
  refine Does.congr (does_bind does_call (does_bind does_call
    (does_bind (does_attempt (does_change _)) waitForSocket_does))) ?_ fun _ => rfl
  simp [swtpmCalls]

theorem connectSerial_does :
    Does (connectSerial b) (b.fails .connectSerial = false) fun s => s.set .serialSocket true := by
  unfold connectSerial
  split
  · rename_i h
    have hraises : Does (do
        when (b.failure = .exited) (remove (.process .qemu))
        raise) _ _ := does_bind (does_when (does_change _)) does_raise
    exact (hraises.never (by simp)).congr (by simp [h]) fun _ => rfl
  · rename_i h
    exact (does_change _).congr (by simpa using h) fun _ => rfl

theorem openLogs_does :
    Does (openLogs b) (Succeed b [.openLog .serial, .openLog .qemu]) fun s =>
      ((s.set (.log .serial) true).set (.log .qemu) true).assign fun vm => { vm with files := [.serial, .qemu] } := by
  refine Does.congr (does_bind (does_attempt (does_change _))
    (does_bind (does_attempt (does_change _)) (does_change _))) ?_ fun _ => rfl
  simp

theorem attachFirmware_does :
    Does (attachFirmware b) (Succeed b (optional b.firmware [.copyFirmware])) fun s =>
      if b.firmware then s.assign fun vm => { vm with firmwareCopy := true } else s := by
  refine Does.congr (does_when (does_bind does_call (does_change _))) ?_ fun _ => rfl
  simp

/-- the state with swtpm started, and its log and socket -/
def State.withSwtpm (s : State) : State :=
  ((((((s.set (.log .swtpm) true).assign fun vm => { vm with files := vm.files ++ [.swtpm] }).set
    (.socketPath .swtpm) true).set (.socketPath .swtpm) false).assign fun vm => { vm with swtpmSock := true }).set
    (.process .swtpm) true).set (.socketPath .swtpm) true |>.assign fun vm => { vm with swtpm := true }

theorem attachTpm_does :
    Does (attachTpm b) (Succeed b (optional b.tpm tpmCalls)) fun s => if b.tpm then s.withSwtpm else s := by
  refine Does.congr (does_when (does_bind (does_attempt (does_change _)) (does_bind (does_change _)
    (does_bind (shortSocketPath_does .swtpm) (does_bind (does_change _)
      (does_bind startSwtpm_does (does_change _))))))) ?_ fun _ => rfl
  simp [tpmCalls]

theorem attachQmp_does :
    Does (attachQmp b) (Succeed b (tempCalls .qemu)) fun s =>
      ((s.set (.socketPath .qemu) true).set (.socketPath .qemu) false).assign fun vm =>
        { vm with qmpSock := true } := by
  refine Does.congr (does_bind (shortSocketPath_does .qemu) (does_change _)) ?_ fun _ => rfl
  simp

theorem startQemu_does :
    Does (startQemu b) (Succeed b qemuCalls) fun s =>
      (if b.listens .qemu then (s.set (.process .qemu) true).set (.socketPath .qemu) true
        else s.set (.process .qemu) true).assign fun vm => { vm with process := true } := by
  refine Does.congr (does_bind does_call (does_bind does_call (does_bind (does_attempt (does_change _))
    (does_bind (does_when (does_change _)) (does_change _))))) ?_ fun _ => rfl
  simp [qemuCalls]

theorem attachSerial_does :
    Does (attachSerial b) (Succeed b serialCalls) fun s =>
      ((s.set .serialSocket true).assign fun vm => { vm with serialSock := true }).assign fun vm =>
        { vm with reader := true } := by
  refine Does.congr (does_bind connectSerial_does (does_bind (does_change _) (does_bind does_call
    (does_bind (does_change _) does_call)))) ?_ fun _ => rfl
  simp [serialCalls]

/-! ## `__enter__` -/

/-- the fields that `__enter__` leaves when it returns -/
def startedVm (b : Boot) : Vm := ⟨true, logs b, b.firmware, b.tpm, b.tpm, true, true, true, true⟩

/-- what stands when `__enter__` has returned -/
structure Started (b : Boot) (s : State) : Prop where
  vm : s.vm = startedVm b
  workdir : s.has .workdir = true
  logs : ∀ log, s.has (.log log) = true ↔ log ∈ logs b
  swtpm : b.tpm = false → s.has (.process .swtpm) = false ∧ s.has (.socketPath .swtpm) = false

theorem enterWorkdir_does (b : Boot) :
    ∃ g, Does (enterWorkdir b) (Succeed b (enterCalls b)) g ∧
      ∀ s : State, (∀ r, s.has r = false) → s.vm = newVm → Started b (g (s.set .workdir true)) := by
  refine ⟨_, Does.congr (does_bind (does_change _) (does_bind openLogs_does (does_bind attachFirmware_does
    (does_bind attachTpm_does (does_bind attachQmp_does (does_bind startQemu_does attachSerial_does))))))
    ?_ fun _ => rfl, ?_⟩
  · simp [enterCalls, and_assoc]
  · intro s hnone hvm
    constructor
    · cases hfirmware : b.firmware <;> cases htpm : b.tpm <;> cases b.listens .qemu <;>
        simp [State.withSwtpm, startedVm, logs, hfirmware, htpm, hvm, newVm]
    · cases b.firmware <;> cases htpm : b.tpm <;> cases b.listens .qemu <;>
        simp [State.withSwtpm]
    · intro log
      cases b.firmware <;> cases htpm : b.tpm <;> cases b.listens .qemu <;> cases log <;>
        simp [State.withSwtpm, logs, htpm, hnone]
    · intro htpm
      cases b.firmware <;> cases b.listens .qemu <;> simp [htpm, hnone]

/-! ## The body and `__exit__` -/

theorem body_started {s : State} (h : Started b s) :
    (body b s).1.isNone = b.bodyRaises ∧ Started b (body b s).2 := by
  have hgone {child : Child} {s : State} (hs : Started b s) : Started b (s.set (.process child) false) := by
    refine ⟨hs.vm, by simpa using hs.workdir, by simpa using hs.logs, ?_⟩
    intro htpm
    simp [hs.swtpm htpm]
  have hdies (child : Child) {s : State} (hs : Started b s) :
      ∃ s', when (b.dies child) (remove (.process child)) s = (some (), s') ∧ Started b s' := by
    cases hd : b.dies child
    · exact ⟨s, rfl, hs⟩
    · exact ⟨_, rfl, hgone hs⟩
  obtain ⟨s₁, hs₁, h₁⟩ := hdies .swtpm h
  obtain ⟨s₂, hs₂, h₂⟩ := hdies .qemu h₁
  rw [body, bind_some hs₁, bind_some hs₂]
  cases b.bodyRaises
  · exact ⟨rfl, h₂⟩
  · exact ⟨rfl, h₂⟩

theorem stop_does (child : Child) :
    Does (stop b child) (Succeed b (stopCalls b child)) fun s => s.set (.process child) false := by
  refine Does.congr (does_bind does_call (does_bind does_call (does_bind
    (does_when (does_bind does_call does_call)) (does_change _)))) ?_ ?_
  · simp [stopCalls]
  · intro s
    cases b.outlives child <;> rfl

/-- what stands when `__exit__` has stopped the processes -/
structure Stopped (b : Boot) (s : State) : Prop where
  workdir : s.has .workdir = true
  logs : ∀ log, s.has (.log log) = true ↔ log ∈ logs b
  process : ∀ child, s.has (.process child) = false
  socketPath : ∀ child, s.has (.socketPath child) = false
  serialSocket : s.has .serialSocket = false

theorem stopAll_does (b : Boot) :
    ∃ g, Does (stopAll b (startedVm b) b.bodyRaises) (Succeed b (stopAllCalls b)) g ∧
      ∀ s : State, Started b s → Stopped b (g s) := by
  refine ⟨_, Does.congr (does_bind (does_when (does_bind (does_change _) does_call)) (does_bind (does_when does_call)
    (does_bind (does_when (stop_does .qemu)) (does_bind (does_when (stop_does .swtpm))
      (does_bind (does_when (does_attempt (does_change _))) (does_bind (does_when (does_attempt (does_change _)))
        (does_when does_call))))))) ?_ fun _ => rfl, ?_⟩
  · simp [stopAllCalls, startedVm, and_assoc]
  · intro s hs
    constructor
    · by_cases htpm : b.tpm <;> simp [startedVm, htpm, hs.workdir]
    · by_cases htpm : b.tpm <;> simp [startedVm, htpm, hs.logs]
    · intro child
      by_cases htpm : b.tpm <;> cases child <;> simp [startedVm, hs.swtpm, htpm]
    · intro child
      by_cases htpm : b.tpm <;> cases child <;> simp [startedVm, hs.swtpm, htpm]
    · by_cases htpm : b.tpm <;> simp [startedVm, htpm]

theorem stable_workdir : Stable fun s => s.has .workdir = true where
  set := by
    intro s r there hr hs
    simpa [hr.symm] using hs
  assign := fun _ _ hs => hs

theorem not_nothing {s : State} (h : s.has .workdir = true) : ¬ ∀ r, s.has r = false := by
  intro hnone
  rw [hnone] at h
  cases h

/-- what the other boots left is as it was -/
def Others (left : World) (n : ℕ) (s : State) : Prop := s.number = n ∧ ∀ m, m ≠ n → s.live m = left m

theorem others_set {left : World} {n : ℕ} {s : State} (r : Resource) (there : Bool) (hs : Others left n s) :
    Others left n (s.set r there) := by
  refine ⟨hs.1, ?_⟩
  intro m hm
  rw [live_set (hs.1.symm ▸ hm)]
  exact hs.2 m hm

theorem stable_others (left : World) (n : ℕ) : Stable (Others left n) where
  set := fun _ r there _ hs => others_set r there hs
  assign := fun _ _ hs => hs

theorem logs_nodup (b : Boot) : (logs b).Nodup := by
  unfold logs
  cases b.tpm <;> decide

theorem keeps_closeLogs_has {r : Resource} (hr : ∀ log, r ≠ .log log) (there : Bool) (xs : List Log) :
    Keeps (fun s => s.has r = there) (each (closeLog b) xs) := by
  refine keeps_each (fun log => keeps_bind (keeps_change ?_) fun _ => keeps_call) xs
  intro s hs
  simpa [hr log] using hs

/-- every log is closed exactly if no closing but the last one fails -/
theorem closeLogs_iff {xs : List Log} (hnodup : xs.Nodup) {s : State}
    (hlogs : ∀ log, s.has (.log log) = true ↔ log ∈ xs) :
    (∀ log, (each (closeLog b) xs s).2.has (.log log) = false) ↔ Succeed b (xs.dropLast.map .closeLog) := by
  induction xs generalizing s with
  | nil => simpa [each] using hlogs
  | cons x xs ih =>
    obtain ⟨hx, hxs⟩ := List.nodup_cons.1 hnodup
    have hlogs' (log : Log) : (s.set (.log x) false).has (.log log) = true ↔ log ∈ xs := by
      rw [has_set]
      by_cases hlog : log = x
      · simp [hlog, hx]
      · simp [hlog, hlogs]
    cases hfails : b.fails (.closeLog x)
    · have hnext : each (closeLog b) (x :: xs) s = each (closeLog b) xs (s.set (.log x) false) := by
        simp [each, closeLog, remove, call, attempt, hfails]
      rw [hnext, ih hxs hlogs']
      cases xs <;> simp [hfails]
    · have hnext : each (closeLog b) (x :: xs) s = (none, s.set (.log x) false) := by
        simp [each, closeLog, remove, call, attempt, hfails]
        rfl
      rw [hnext]
      cases xs with
      | nil => simpa using hlogs'
      | cons y ys =>
        constructor
        · intro h
          have hy := (hlogs' y).2 List.mem_cons_self
          rw [h y] at hy
          cases hy
        · intro h
          simp [hfails] at h

/-- the end of `__exit__` leaves nothing exactly if no call before the last fails -/
theorem removeAll_iff {s : State} (hs : Stopped b s) :
    (∀ r, (removeAll b (startedVm b) s).2.has r = false) ↔ Succeed b (removeCalls b) := by
  cases hworkdir : b.fails .removeWorkdir
  · have hremove : removeAll b (startedVm b) s = each (closeLog b) (logs b) (s.set .workdir false) := by
      simp [removeAll, startedVm, hworkdir, when, remove]
    have hclose := closeLogs_iff (b := b) (logs_nodup b) (s := s.set .workdir false) (by simpa using hs.logs)
    rw [hremove, removeCalls, succeed_cons, ← hclose]
    constructor
    · intro h
      exact ⟨hworkdir, fun log => h (.log log)⟩
    · intro h r
      cases r with
      | log log => exact h.2 log
      | workdir => exact keeps_closeLogs_has (by simp) false _ _ (by simp)
      | process child => exact keeps_closeLogs_has (by simp) false _ _ (by simp [hs.process])
      | socketPath child => exact keeps_closeLogs_has (by simp) false _ _ (by simp [hs.socketPath])
      | serialSocket => exact keeps_closeLogs_has (by simp) false _ _ (by simp [hs.serialSocket])
  · have hkept : (removeAll b (startedVm b) s).2.has .workdir = true := by
      have hremove : removeAll b (startedVm b) s = each (closeLog b) (logs b) s := by
        simp [removeAll, startedVm, hworkdir, when]
      rw [hremove]
      exact keeps_closeLogs_has (by simp) true _ s hs.workdir
    exact iff_of_false (not_nothing hkept) (by simp [removeCalls, hworkdir])

/-- what `__exit__` leaves behind of a boot that `__enter__` started -/
theorem exit_iff {s : State} (hs : Started b s) :
    (∀ r, (exit b b.bodyRaises s).2.has r = false) ↔ Succeed b (stopAllCalls b) ∧ Succeed b (removeCalls b) := by
  obtain ⟨g, hdoes, hstopped⟩ := stopAll_does b
  have hexit : exit b b.bodyRaises s =
      (stopAll b (startedVm b) b.bodyRaises >>= fun _ => removeAll b (startedVm b)) s := by
    simp [exit, hs.vm]
  by_cases hstop : Succeed b (stopAllCalls b)
  · rw [hexit, bind_some (hdoes.returns hstop s), removeAll_iff (hstopped s hs)]
    simp [hstop]
  · obtain ⟨s', hrun, hkept⟩ := hdoes.raised hstop (keeps_stopAll stable_workdir _ _) hs.workdir
    rw [hexit, bind_none hrun]
    exact iff_of_false (not_nothing hkept) fun h => hstop h.1

/-! ## A boot, and a sequence of them -/

/-- What one boot leaves of its own. -/
theorem boot_leaves_nothing_iff {s : State} (hnone : ∀ r, s.has r = false) (hvm : s.vm = newVm) :
    (∀ r, (boot b s).2.has r = false) ↔ Clean b := by
  cases hlog : b.fails .makeLogDir
  · cases hwork : b.fails .makeWorkdir
    · have henter : enter b s = enterWorkdir b (s.set .workdir true) := by
        simp [enter, call, attempt, hlog, hwork, make]
      obtain ⟨g, hdoes, hstarted⟩ := enterWorkdir_does b
      by_cases hcalls : Succeed b (enterCalls b)
      · have hs := hstarted s hnone hvm
        obtain ⟨hraised, hbody⟩ := body_started hs
        rw [boot, withStatement_entered (henter.trans (hdoes.returns hcalls _)), hraised, exit_iff hbody]
        simp [Clean, hlog, hwork, hcalls]
      · obtain ⟨s', hrun, hkept⟩ := hdoes.raised hcalls (keeps_enterWorkdir stable_workdir)
          (s := s.set .workdir true) (by simp)
        rw [boot, withStatement_raised (henter.trans hrun)]
        exact iff_of_false (not_nothing hkept) (by simp [Clean, hlog, hwork, hcalls])
    · have henter : enter b s = (none, s) := by
        simp [enter, call, attempt, hlog, hwork]
        rfl
      rw [boot, withStatement_raised henter]
      simp [Clean, hwork, hnone]
  · have henter : enter b s = (none, s) := by
      simp [enter, call, attempt, hlog]
      rfl
    rw [boot, withStatement_raised henter]
    simp [Clean, hlog, hnone]

theorem keeps_boot (h : Stable P) (hworkdir : ∀ s there, P s → P (s.set .workdir there)) : Keeps P (boot b) := by
  apply keeps_withStatement
  · refine keeps_bind keeps_call fun _ => ?_
    refine keeps_bind (keeps_attempt (keeps_change fun s => hworkdir s true)) fun _ => ?_
    exact keeps_enterWorkdir h
  · exact keeps_body h
  · intro raised
    refine keeps_bind (fun _ hs => hs) fun vm => ?_
    refine keeps_bind (keeps_stopAll h vm raised) fun _ => ?_
    refine keeps_bind (keeps_when (keeps_change fun s => hworkdir s false)) fun _ => ?_
    exact keeps_closeLogs h vm.files

theorem boot_others (left : World) (n : ℕ) (b : Boot) :
    (boot b ⟨left, n, newVm⟩).2.number = n ∧ ∀ m, m ≠ n → afterBoot left n b m = left m := by
  have hkeeps : Keeps (Others left n) (boot b) :=
    keeps_boot (stable_others left n) fun _ there hs => others_set .workdir there hs
  exact hkeeps ⟨left, n, newVm⟩ ⟨rfl, fun _ _ => rfl⟩

theorem afterBoots_iff (boots : List Boot) (left : World) (n : ℕ) (hleft : ∀ m, n ≤ m → ∀ r, left m r = false) :
    (∀ m r, afterBoots left n boots m r = false) ↔ (∀ m r, left m r = false) ∧ ∀ b ∈ boots, Clean b := by
  induction boots generalizing left n with
  | nil => simp [afterBoots]
  | cons b boots ih =>
    obtain ⟨hnumber, hothers⟩ := boot_others left n b
    have hboot : (∀ r, afterBoot left n b n r = false) ↔ Clean b := by
      rw [← boot_leaves_nothing_iff (b := b) (s := ⟨left, n, newVm⟩) (hleft n le_rfl) rfl]
      simp [State.has, hnumber, afterBoot]
    have hlater : ∀ m, n + 1 ≤ m → ∀ r, afterBoot left n b m r = false := by
      intro m hm r
      rw [hothers m (by omega)]
      exact hleft m (by omega) r
    rw [afterBoots, ih _ _ hlater, List.forall_mem_cons, ← hboot]
    constructor
    · intro h
      refine ⟨?_, h.1 n, h.2⟩
      intro m r
      by_cases hm : m = n
      · exact hleft m hm.ge r
      · rw [← hothers m hm]
        exact h.1 m r
    · intro h
      refine ⟨?_, h.2.2⟩
      intro m r
      by_cases hm : m = n
      · rw [hm]
        exact h.2.1 r
      · rw [hothers m hm]
        exact h.1 m r

/-- **What a session leaves.** Nothing is left of any of its boots exactly if each of them is clean. -/
theorem session_leaves_nothing_iff (boots : List Boot) :
    (∀ n r, session boots n r = false) ↔ ∀ b ∈ boots, Clean b := by
  rw [session, afterBoots_iff boots _ 0 (by simp)]
  simp

/-- a boot with a TPM whose QEMU exits before it opens its serial port -/
def exitedBoot : Boot where
  firmware := false
  tpm := true
  savesFirmware := false
  fails := fun c => c = .connectSerial
  failure := .exited
  listens := fun _ => true
  bodyRaises := false
  dies := fun _ => false
  outlives := fun _ => false

theorem exitedBoot_leaves :
    session [exitedBoot] 0 .workdir = true ∧ session [exitedBoot] 0 (.process .swtpm) = true ∧
      session [exitedBoot] 0 (.socketPath .swtpm) = true ∧ session [exitedBoot] 0 (.log .serial) = true ∧
      ¬ ∀ boots n r, session boots n r = false := by
  have hworkdir : session [exitedBoot] 0 .workdir = true := by decide
  refine ⟨hworkdir, by decide, by decide, by decide, ?_⟩
  intro h
  rw [h] at hworkdir
  cases hworkdir

end DrtmTest.BootLeaks
