/-
Lean model of the QEMU command lines: the tests' (`QemuVm.__enter__` and the readers of the environment of
`drtmtest/qemu_vm.py`, called by `_boot` of `tests/conftest.py`) and that of `tb-boot` (`main` of `drtmtest/boot.py`).

The paths are parameters, as is whether `/dev/kvm` can be used. What `main` does to files, and the parsing of its own
arguments, is left out.

- `testsLine_reads`, `main_reads`: both lines in one shape, by what the environment says.
- `tb_boot_runs_tests_line`: in every environment that the tests boot in, `tb-boot` runs their options with its own paths and
  console, and the line a dry run prints splits into what it would run.
-/
import DrtmTest.Machine

namespace DrtmTest.TbBoot

open DrtmTest.Environment DrtmTest.Machine

/-! ## What the environment says -/

inductive LineError where
  | environment (e : EnvironmentError)
  /-- `DRTM_QEMU_ACCEL` is not auto, kvm or tcg -/
  | accel (value : String)
  /-- `DRTM_LOCALITY0_DROPS_HASH` is not on or off -/
  | dropsHash (value : String)
  /-- `tpm` is not one of the kinds -/
  | tpmKind (kind : String)
  | machine (e : MachineError)
  /-- the session ends before it boots: `DRTM_PSP` under `DRTM_VENDOR=intel` -/
  | pspOnIntel
  deriving DecidableEq

/-- `binary` -/
def binary (environ : Dict String String) : String := (environ.get? "DRTM_QEMU_BINARY").getD "qemu-system-x86_64"

def useKvm (L : Lower) (environ : Dict String String) (kvmUsable : Bool) : Except LineError Bool :=
  let accel := L.lower ((environ.get? "DRTM_QEMU_ACCEL").getD "tcg")
  if accel = "tcg" then .ok false
  else if accel = "kvm" then .ok true
  else if accel ≠ "auto" then .error (.accel accel)
  else .ok kvmUsable

def locality0DropsHash (L : Lower) (environ : Dict String String) : Except LineError Bool :=
  let value := Environment.read L environ "DRTM_LOCALITY0_DROPS_HASH"
  if value ∈ ["", "on"] then .ok true else if value = "off" then .ok false else .error (.dropsHash value)

def vendor (L : Lower) (environ : Dict String String) : Except LineError String :=
  (Environment.vendor L environ).mapError .environment

def pspMode (L : Lower) (environ : Dict String String) : Except LineError (Option String) :=
  (Environment.pspMode L environ).mapError .environment

/-- `Settings`, of it what a command line shows -/
structure Settings where
  binary : String
  kvm : Bool
  dropsHash : Bool

def Settings.fromEnvironment (L : Lower) (environ : Dict String String) (kvmUsable : Bool) : Except LineError Settings := do
  let kvm ← useKvm L environ kvmUsable
  let dropsHash ← locality0DropsHash L environ
  return ⟨TbBoot.binary environ, kvm, dropsHash⟩

/-! ## The parts of a line -/

def tpmKinds : List String := ["tis", "crb", "tis-1.2"]

def tpmIs12 (kind : String) : Bool := kind = "tis-1.2"

def tpmArgs (sock kind : String) (dropsHash : Bool) : Except LineError (List String) :=
  if kind ∉ tpmKinds then .error (.tpmKind kind)
  else
    let frontend := if tpmIs12 kind then "tis" else kind
    let device := "tpm-" ++ frontend ++ ",tpmdev=tpm0"
    let device := if frontend = "tis" ∧ dropsHash then device ++ ",locality0-drops-hash=on" else device
    .ok ["-chardev", "socket,id=chrtpm,path=" ++ sock, "-tpmdev", "emulator,id=tpm0,chardev=chrtpm", "-device", device]

def pflashArgs (firmware : String) : List String := ["-drive", "if=pflash,format=raw,file=" ++ firmware]

def qmpArgs (sock : String) : List String := ["-qmp", "unix:" ++ sock ++ ",server,nowait"]

def accelArgs (kvm : Bool) : List String := ["-accel", if kvm then "kvm" else "tcg"]

structure Paths where
  qemuLog : String
  firmware : String
  tpmSock : String
  qmpSock : String

/-- the line `__enter__` puts together; a firmware and a TPM where there is one -/
def vmArgs (settings : Settings) (paths : Paths) (options : List String) (firmware : Bool) (tpm : Option String)
    (serialPort : ℕ) : Except LineError (List String) := do
  let tpm ← match tpm with
    | none => pure []
    | some kind => tpmArgs paths.tpmSock kind settings.dropsHash
  return settings.binary :: accelArgs settings.kvm ++ ["-display", "none"] ++ ["-action", "panic=pause"] ++
    ["-D", paths.qemuLog] ++ options ++ (if firmware then pflashArgs paths.firmware else []) ++ tpm ++
    qmpArgs paths.qmpSock ++ ["-serial", "tcp:127.0.0.1:" ++ toString serialPort ++ ",server"]

/-- the line of one boot of the tests; `firmware` for an entry under Dasharo -/
def testsLine (L : Lower) (environ : Dict String String) (kvmUsable : Bool) (image : String) (paths : Paths)
    (firmware : Bool) (devices : List String) (serialPort : ℕ) : Except LineError (List String) := do
  let vendor ← vendor L environ
  let psp ← pspMode L environ
  let settings ← Settings.fromEnvironment L environ kvmUsable
  let extra ← (extraArgs environ).mapError fun e => .machine (.shlex e)
  if vendor = "intel" ∧ psp.isSome then .error .pspOnIntel
  else do
    let options ← (options environ image (bootOptions vendor psp.isSome) (some (devices ++ extra))).mapError .machine
    vmArgs settings paths options firmware (some "tis") serialPort

/-! ## `tb-boot` -/

/-- its arguments, parsed -/
structure Cli where
  dasharo : Bool
  mem : Option String
  smp : ℤ
  writable : Bool
  dryRun : Bool
  graphics : Bool
  vendor : String
  noStrict : Bool
  psp : Bool
  rest : List String

/-- what the arguments are when only the firmware, a dry run and QEMU arguments are asked for -/
def defaults (L : Lower) (environ : Dict String String) (dasharo dryRun : Bool) (rest : List String) :
    Except LineError Cli := do
  let vendor ← vendor L environ
  let psp ← pspMode L environ
  return ⟨dasharo, none, defaultSmp, false, dryRun, false, vendor, false, psp.isSome, rest⟩

inductive Outcome where
  /-- `parser.error` -/
  | usage
  | query (sock : String)
  | printed (line : String)
  | ran (argv : List String)

def tbArgs (L : Lower) (environ : Dict String String) (kvmUsable : Bool) (image : String) (paths : Paths) (cli : Cli) :
    Except LineError (List String) := do
  let kvm ← useKvm L environ kvmUsable
  let options ← (options environ image
    { smp := cli.smp, mem := cli.mem, strict := !cli.noStrict, snapshot := !cli.writable, psp := cli.psp,
      vendor := cli.vendor } none).mapError .machine
  let dropsHash ← locality0DropsHash L environ
  let tpm ← tpmArgs paths.tpmSock "tis" dropsHash
  return binary environ :: accelArgs kvm ++ (if cli.graphics then [] else ["-display", "none"]) ++
    ["-action", "panic=pause"] ++ ["-D", paths.qemuLog] ++ options ++ tpm ++ qmpArgs paths.qmpSock ++
    -- behind the machine's `-vga none`, so it wins
    (if cli.graphics then ["-display", "sdl", "-vga", "std"] else []) ++
    (if cli.dasharo then pflashArgs paths.firmware else []) ++ ["-serial", "mon:stdio"] ++ cli.rest

def main (L : Lower) (environ : Dict String String) (kvmUsable : Bool) (image : String) (paths : Paths) (cli : Cli) :
    Except LineError Outcome :=
  if cli.vendor = "intel" ∧ cli.psp then .ok .usage
  else if cli.rest.take 1 = ["query"] then .ok (.query paths.qmpSock)
  else do
    let args ← tbArgs L environ kvmUsable image paths cli
    return if cli.dryRun then .printed (shlexJoin args) else .ran args

/-! ## One line -/

/-- what the environment says of a line, whatever its paths -/
structure Line where
  settings : Settings
  /-- the machine and the image -/
  machine : List String
  /-- `DRTM_QEMU_ARGS` -/
  extra : List String
  firmware : Bool

def flash (paths : Paths) (firmware : Bool) : List String := if firmware then pflashArgs paths.firmware else []

/-- the TPM's options, of the default kind -/
def tisArgs (sock : String) (dropsHash : Bool) : List String :=
  ["-chardev", "socket,id=chrtpm,path=" ++ sock, "-tpmdev", "emulator,id=tpm0,chardev=chrtpm", "-device",
    if dropsHash then "tpm-tis,tpmdev=tpm0,locality0-drops-hash=on" else "tpm-tis,tpmdev=tpm0"]

/-- the options both lines start with -/
def Line.start (l : Line) (paths : Paths) : List (List String) :=
  [accelArgs l.settings.kvm, ["-display", "none"], ["-action", "panic=pause"], ["-D", paths.qemuLog], l.machine]

/-- the options behind the flash in the tests' line -/
def Line.sockets (l : Line) (paths : Paths) : List (List String) :=
  [tisArgs paths.tpmSock l.settings.dropsHash, qmpArgs paths.qmpSock]

/-- the options of the tests' line, in groups -/
def Line.tests (l : Line) (paths : Paths) (devices : List String) : List (List String) :=
  l.start paths ++ [devices, l.extra, flash paths l.firmware] ++ l.sockets paths

/-- those of `tb-boot`, the console's among them -/
def Line.tb (l : Line) (paths : Paths) (devices : List String) : List (List String) :=
  l.start paths ++ [l.extra] ++ l.sockets paths ++ [flash paths l.firmware, ["-serial", "mon:stdio"], devices]

/-- the same groups in another order -/
theorem Line.tb_perm (l : Line) (paths : Paths) (devices : List String) :
    (l.tb paths devices).Perm (l.tests paths devices ++ [["-serial", "mon:stdio"]]) := by
  simp only [Line.tb, Line.tests, List.append_assoc]
  refine List.Perm.append_left _ (List.perm_iff_count.2 fun group => ?_)
  simp only [List.count_append, List.count_cons, List.count_nil]
  omega

theorem tpmArgs_tis (sock : String) (dropsHash : Bool) : tpmArgs sock "tis" dropsHash = .ok (tisArgs sock dropsHash) := by
  cases dropsHash <;> rfl

/-- what the environment says for both lines -/
structure Reads (L : Lower) (environ : Dict String String) (kvmUsable : Bool) (image v : String) (mode : Option String)
    (l : Line) : Prop where
  vendor : TbBoot.vendor L environ = .ok v
  psp : TbBoot.pspMode L environ = .ok mode
  settings : Settings.fromEnvironment L environ kvmUsable = .ok l.settings
  extra : extraArgs environ = .ok l.extra
  allowed : ¬ (v = "intel" ∧ mode.isSome = true)
  machine : l.machine = machineArgs image (bootOptions v mode.isSome)

theorem bind_ok {ε α β : Type} {x : Except ε α} {f : α → Except ε β} {b : β} :
    (x >>= f) = .ok b ↔ ∃ a, x = .ok a ∧ f a = .ok b := by
  cases x <;> simp [bind, Except.bind]

theorem mapError_ok {ε ε' α : Type} {x : Except ε α} {f : ε → ε'} {a : α} : x.mapError f = .ok a ↔ x = .ok a := by
  cases x <;> simp [Except.mapError]

section Lines

variable {L : Lower} {environ : Dict String String} {kvmUsable : Bool} {image : String}

theorem testsLine_reads {paths : Paths} {firmware : Bool} {devices : List String} {serialPort : ℕ} {line : List String}
    (h : testsLine L environ kvmUsable image paths firmware devices serialPort = .ok line) :
    ∃ v mode l, Reads L environ kvmUsable image v mode l ∧ l.firmware = firmware ∧
      line = l.settings.binary :: (l.tests paths devices).flatten ++
        ["-serial", "tcp:127.0.0.1:" ++ toString serialPort ++ ",server"] := by
  obtain ⟨v, hv, h⟩ := bind_ok.1 h
  obtain ⟨mode, hmode, h⟩ := bind_ok.1 h
  obtain ⟨settings, hsettings, h⟩ := bind_ok.1 h
  obtain ⟨extra, hextra, h⟩ := bind_ok.1 h
  rw [mapError_ok] at hextra
  split_ifs at h with hallowed
  obtain ⟨args, hargs, h⟩ := bind_ok.1 h
  rw [mapError_ok] at hargs
  obtain ⟨tpm, htpm, h⟩ := bind_ok.1 h
  obtain rfl : tisArgs paths.tpmSock settings.dropsHash = tpm :=
    Except.ok.inj ((tpmArgs_tis paths.tpmSock settings.dropsHash).symm.trans htpm)
  refine ⟨v, mode, ⟨settings, machineArgs image (bootOptions v mode.isSome), extra, firmware⟩,
    ⟨hv, hmode, hsettings, hextra, hallowed, rfl⟩, rfl, ?_⟩
  rw [← Except.ok.inj h, options_extra hargs]
  simp only [Line.tests, Line.start, Line.sockets, flash, List.flatten_cons, List.flatten_nil, List.append_nil,
    List.nil_append, List.append_assoc, List.cons_append]

theorem main_reads {v : String} {mode : Option String} {l : Line} (h : Reads L environ kvmUsable image v mode l)
    (paths : Paths) (dryRun : Bool) {rest : List String} (hrest : rest.take 1 ≠ ["query"]) :
    ∃ cli, defaults L environ l.firmware dryRun rest = .ok cli ∧
      main L environ kvmUsable image paths cli = .ok
        (let argv := l.settings.binary :: (l.tb paths rest).flatten
        if dryRun then .printed (shlexJoin argv) else .ran argv) := by
  refine ⟨⟨l.firmware, none, defaultSmp, false, dryRun, false, v, false, mode.isSome, rest⟩, ?_, ?_⟩
  · rw [defaults, h.vendor, h.psp]
    rfl
  obtain ⟨kvm, hkvm, hsettings⟩ := bind_ok.1 h.settings
  obtain ⟨dropsHash, hdrops, hsettings⟩ := bind_ok.1 hsettings
  have hread : l.settings = ⟨binary environ, kvm, dropsHash⟩ := (Except.ok.inj hsettings).symm
  have hoptions : options environ image (bootOptions v mode.isSome) none = .ok (l.machine ++ l.extra) := by
    rw [options, h.extra, h.machine]
    exact if_neg h.allowed
  have hargs : tbArgs L environ kvmUsable image paths
      ⟨l.firmware, none, defaultSmp, false, dryRun, false, v, false, mode.isSome, rest⟩ =
        .ok (l.settings.binary :: (l.tb paths rest).flatten) := by
    refine bind_ok.2 ⟨kvm, hkvm, bind_ok.2 ⟨_, mapError_ok.2 hoptions, bind_ok.2 ⟨dropsHash, hdrops, ?_⟩⟩⟩
    refine bind_ok.2 ⟨_, tpmArgs_tis _ _, ?_⟩
    simp only [Line.tb, Line.start, Line.sockets, flash, hread, Bool.false_eq_true, if_false, pure, Except.pure,
      List.flatten_cons, List.flatten_nil, List.append_nil, List.nil_append, List.append_assoc, List.cons_append]
  rw [main, if_neg h.allowed, if_neg hrest, hargs]
  rfl

end Lines

/-- **One machine line.** In every environment in which the tests boot an entry: the line that a dry run of `tb-boot`, given
the entry's devices, prints splits into what `tb-boot` runs otherwise; and the two lines have the same program and the same
options, group by group, each with its own paths and its own console. -/
theorem tb_boot_runs_tests_line (L : Lower) (environ : Dict String String) (kvmUsable firmware : Bool) (image : String)
    (devices : List String) (hdevices : devices.take 1 ≠ ["query"]) (paths tbPaths : Paths) (serialPort : ℕ)
    (line : List String) (h : testsLine L environ kvmUsable image paths firmware devices serialPort = .ok line) :
    ∃ (v : String) (mode : Option String) (l : Line) (dry wet : Cli) (printed : String),
      Reads L environ kvmUsable image v mode l ∧ l.firmware = firmware ∧
      line = l.settings.binary :: (l.tests paths devices).flatten ++
        ["-serial", "tcp:127.0.0.1:" ++ toString serialPort ++ ",server"] ∧
      defaults L environ firmware true devices = .ok dry ∧ defaults L environ firmware false devices = .ok wet ∧
      main L environ kvmUsable image tbPaths dry = .ok (.printed printed) ∧
      main L environ kvmUsable image tbPaths wet = .ok (.ran (l.settings.binary :: (l.tb tbPaths devices).flatten)) ∧
      shlexSplit printed = .ok (l.settings.binary :: (l.tb tbPaths devices).flatten) ∧
      (l.tb tbPaths devices).Perm (l.tests tbPaths devices ++ [["-serial", "mon:stdio"]]) := by
  obtain ⟨v, mode, l, hreads, rfl, hline⟩ := testsLine_reads h
  obtain ⟨dry, hdry, hprinted⟩ := main_reads hreads tbPaths true hdevices
  obtain ⟨wet, hwet, hran⟩ := main_reads hreads tbPaths false hdevices
  exact ⟨v, mode, l, dry, wet, _, hreads, rfl, hline, hdry, hwet, hprinted, hran, shlexSplit_join _,
    l.tb_perm tbPaths devices⟩

def sampleEnviron : Dict String String :=
  ⟨[("DRTM_PSP", " On"), ("DRTM_QEMU_ARGS", "-m 6G -append 'a \"b\"'"), ("DRTM_QEMU_ACCEL", "auto")], by decide⟩

/-- the files of a boot -/
def sampleRun : Paths := ⟨"logs/boot/qemu.log", "/tmp/drtmtest-1/firmware.rom", "/tmp/swtpm-1.sock", "/tmp/qmp-1.sock"⟩

/-- those of `tb-boot` -/
def sampleRunDir : Paths := ⟨"run/qemu.log", "run/firmware.rom", "run/swtpm.sock", "run/qmp.sock"⟩

/-- the service, arguments of one's own and a device -/
theorem tb_boot_runs_tests_line_psp :
    ∃ (l : Line) (line : List String) (wet : Cli),
      testsLine asciiLower sampleEnviron true "/dl-cache/a b.wic" sampleRun true ["-device", "e1000e"] 4555 = .ok line ∧
      line = l.settings.binary :: (l.tests sampleRun ["-device", "e1000e"]).flatten ++
        ["-serial", "tcp:127.0.0.1:4555,server"] ∧
      defaults asciiLower sampleEnviron true false ["-device", "e1000e"] = .ok wet ∧
      main asciiLower sampleEnviron true "/dl-cache/a b.wic" sampleRunDir wet =
        .ok (.ran (l.settings.binary :: (l.tb sampleRunDir ["-device", "e1000e"]).flatten)) := by
  have hboots : (testsLine asciiLower sampleEnviron true "/dl-cache/a b.wic" sampleRun true ["-device", "e1000e"]
      4555).toBool = true := by decide +kernel
  cases hline : testsLine asciiLower sampleEnviron true "/dl-cache/a b.wic" sampleRun true ["-device", "e1000e"] 4555 with
  | error e =>
    rw [hline] at hboots
    cases hboots
  | ok line =>
    obtain ⟨-, -, l, -, wet, -, -, -, hargs, -, hwet, -, hran, -, -⟩ :=
      tb_boot_runs_tests_line asciiLower sampleEnviron true true "/dl-cache/a b.wic" ["-device", "e1000e"] (by decide)
        sampleRun sampleRunDir 4555 line hline
    exact ⟨l, line, wet, rfl, hargs, hwet, hran⟩

end DrtmTest.TbBoot
