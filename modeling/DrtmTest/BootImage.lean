/-
Lean model of reading GRUB's menu off the image (`boot_partition_offset`, `read` and `commands` of `drtmtest/grubcfg.py`), and
of the boot that is typed from it (`_boot` of `tests/conftest.py`).

The files and the programs of the host are parameters: `open` gives a file's bytes, `run` what `mtype` returned and printed.

- `boot_partition_read`: the offset is that of the first EFI system partition, and what has no table is refused.
- `typed_boot_runs`: from the bytes of the image to the lines that run at GRUB's shell.
-/
import DrtmTest.Core.Bytes
import DrtmTest.Entries
import DrtmTest.GrubCfg
import DrtmTest.GrubShell

namespace DrtmTest.BootImage

open DrtmTest.Bytes DrtmTest.Text DrtmTest.GrubCfg

/-! ## The table -/

/-- the type of an EFI system partition -/
def esp : UInt8 := 0xEF

inductive ReadError where
  /-- the file cannot be read, or the program is not there -/
  | osError
  /-- the image has no master boot record -/
  | valueError
  /-- the image has no EFI system partition in its table -/
  | lookupError
  | structError
  /-- `mtype` failed -/
  | runtimeError (path image stderr : String)
  deriving DecidableEq

/-- the loop over the entries of the table -/
def bootPartitionFrom (mbr : Bytes) : List ℕ → Except ReadError ℕ
  | [] => .error .lookupError
  | i :: is =>
    let entry := slice mbr (446 + 16 * i) (462 + 16 * i)
    if entry[4]? = some esp then
      match unpackFrom 4 entry 8 with
      | some start => .ok (start * 512)
      | none => .error .structError
    else bootPartitionFrom mbr is

/-- where the boot partition starts, in bytes, of an image with these bytes -/
def bootPartitionOffset (image : Bytes) : Except ReadError ℕ :=
  let mbr := image.take 512
  if mbr.length < 512 ∨ slice mbr 510 512 ≠ [0x55, 0xAA] then .error .valueError
  else bootPartitionFrom mbr (List.range 4)

/-- an entry of the table: status and first sector, type, last sector, the first block, their number -/
structure Partition where
  head : Bytes
  kind : UInt8
  last : Bytes
  start : ℕ
  size : Bytes
  head_length : head.length = 4
  last_length : last.length = 3
  start_lt : start < 256 ^ 4
  size_length : size.length = 4

def Partition.encode (p : Partition) : Bytes := p.head ++ p.kind :: (p.last ++ (le 4 p.start ++ p.size))

/-- a master boot record: boot code, four partitions, the signature -/
structure Mbr where
  code : Bytes
  partitions : List Partition
  code_length : code.length = 446
  four : partitions.length = 4

def Mbr.encode (m : Mbr) : Bytes := m.code ++ (m.partitions.flatMap Partition.encode ++ [0x55, 0xAA])

/-- the first EFI system partition -/
def Mbr.bootPartition (m : Mbr) : Option Partition := m.partitions.find? fun p => p.kind = esp

def offsetOf : Option Partition → Except ReadError ℕ
  | some p => .ok (p.start * 512)
  | none => .error .lookupError

def Mbr.offset (m : Mbr) : Except ReadError ℕ := offsetOf m.bootPartition

/-! ## The table is read -/

theorem Partition.encode_length (p : Partition) : p.encode.length = 16 := by
  simp only [encode, List.length_append, List.length_cons, le_length, p.head_length, p.last_length, p.size_length]

theorem partitions_length (ps : List Partition) : (ps.flatMap Partition.encode).length = 16 * ps.length := by
  induction ps with
  | nil => rfl
  | cons p ps ih =>
    rw [List.flatMap_cons, List.length_append, p.encode_length, ih, List.length_cons]
    omega

theorem Partition.kind_at (p : Partition) : p.encode[4]? = some p.kind := by
  rw [encode, List.getElem?_append_right (by rw [p.head_length]), p.head_length]
  rfl

theorem Partition.start_at (p : Partition) : unpackFrom 4 p.encode 8 = some p.start := by
  have hsplit : p.encode = (p.head ++ p.kind :: p.last) ++ (le 4 p.start ++ p.size) := by simp [encode]
  have hlen : (p.head ++ p.kind :: p.last).length = 8 := by
    rw [List.length_append, List.length_cons, p.head_length, p.last_length]
  have hat : Holds p.encode 8 (le 4 p.start) :=
    ⟨p.size, by rw [hsplit, ← hlen, List.drop_left]⟩
  exact unpackFrom_of_holds hat (by decide) p.start_lt

/-- the loop stops at the first EFI system partition -/
theorem bootPartitionFrom_partitions {mbr : Bytes} {i : ℕ} {ps : List Partition}
    (h : Holds mbr (446 + 16 * i) (ps.flatMap Partition.encode)) :
    bootPartitionFrom mbr (List.range' i ps.length) = offsetOf (ps.find? fun p => p.kind = esp) := by
  induction ps generalizing i with
  | nil => rfl
  | cons p ps ih =>
    rw [List.flatMap_cons, holds_append, p.encode_length] at h
    have hslice : slice mbr (446 + 16 * i) (462 + 16 * i) = p.encode := by
      have := slice_of_holds h.1
      rwa [p.encode_length, show 446 + 16 * i + 16 = 462 + 16 * i by omega] at this
    rw [List.length_cons, List.range'_succ, bootPartitionFrom, hslice]
    simp only [p.kind_at, p.start_at, Option.some.injEq]
    by_cases hkind : p.kind = esp
    · rw [if_pos hkind, List.find?_cons_of_pos (by simpa using hkind)]
      rfl
    · rw [if_neg hkind, List.find?_cons_of_neg (by simpa using hkind)]
      exact ih (by rw [show 446 + 16 * (i + 1) = 446 + 16 * i + 16 by omega]; exact h.2)

theorem Mbr.encode_length (m : Mbr) : m.encode.length = 512 := by
  rw [encode, List.length_append, List.length_append, m.code_length, partitions_length, m.four]
  rfl

theorem bootPartitionOffset_mbr (m : Mbr) (rest : Bytes) : bootPartitionOffset (m.encode ++ rest) = m.offset := by
  have htake : (m.encode ++ rest).take 512 = m.encode := by rw [← m.encode_length, List.take_left]
  have hparts : Holds m.encode (446 + 16 * 0) (m.partitions.flatMap Partition.encode ++ [0x55, 0xAA]) := by
    rw [Mbr.encode, Nat.mul_zero, Nat.add_zero, ← m.code_length, Holds, List.drop_left]
  obtain ⟨htable, hsignature⟩ := holds_append.1 hparts
  have hslice : slice m.encode 510 512 = [0x55, 0xAA] := by
    have := slice_of_holds hsignature
    rwa [partitions_length, m.four] at this
  have hread := bootPartitionFrom_partitions htable
  rw [m.four] at hread
  rw [bootPartitionOffset, htake]
  simp only [m.encode_length, hslice]
  rw [if_neg (by decide)]
  exact hread

/-! ## What is a table -/

theorem exists_partition {b : Bytes} (h : b.length = 16) : ∃ p : Partition, p.encode = b := by
  have hstart : (slice b 8 12).length = 4 := by rw [slice_length]; omega
  have hlt := ofLe_lt (slice b 8 12)
  have hle := le_ofLe (slice b 8 12)
  rw [hstart] at hlt hle
  refine ⟨⟨b.take 4, b[4], slice b 5 8, ofLe (slice b 8 12), b.drop 12, ?_, ?_, hlt, ?_⟩, ?_⟩
  · rw [List.length_take]; omega
  · rw [slice_length]; omega
  · rw [List.length_drop]; omega
  · have h4 : b.drop 4 = b[4] :: b.drop 5 := List.drop_eq_getElem_cons (by omega)
    have h5 : slice b 5 8 ++ b.drop 8 = b.drop 5 := by
      rw [slice, show 8 = 5 + 3 by omega, ← List.drop_drop]
      exact List.take_append_drop 3 _
    have h8 : slice b 8 12 ++ b.drop 12 = b.drop 8 := by
      rw [slice, show 12 = 8 + 4 by omega, ← List.drop_drop]
      exact List.take_append_drop 4 _
    rw [Partition.encode, hle, h8, h5, ← h4]
    exact List.take_append_drop 4 b

theorem exists_partitions {b : Bytes} {n : ℕ} (h : b.length = 16 * n) :
    ∃ ps : List Partition, ps.length = n ∧ ps.flatMap Partition.encode = b := by
  induction n generalizing b with
  | zero => exact ⟨[], rfl, (List.eq_nil_of_length_eq_zero h).symm⟩
  | succ n ih =>
    obtain ⟨p, hp⟩ := exists_partition (b := b.take 16) (by rw [List.length_take]; omega)
    obtain ⟨ps, hlen, hps⟩ := ih (b := b.drop 16) (by rw [List.length_drop]; omega)
    exact ⟨p :: ps, by rw [List.length_cons, hlen], by rw [List.flatMap_cons, hp, hps, List.take_append_drop]⟩

/-- what begins with 512 bytes and the signature begins with a table -/
theorem exists_mbr {image : Bytes} (hlen : 512 ≤ image.length) (hsig : slice (image.take 512) 510 512 = [0x55, 0xAA]) :
    ∃ (m : Mbr) (rest : Bytes), image = m.encode ++ rest := by
  obtain ⟨ps, hfour, hps⟩ := exists_partitions (b := slice image 446 510) (n := 4) (by rw [slice_length]; omega)
  refine ⟨⟨image.take 446, ps, by rw [List.length_take]; omega, hfour⟩, image.drop 512, ?_⟩
  have hsig' : slice image 510 512 = [0x55, 0xAA] := by
    rw [← hsig, slice_extend (List.take_prefix 512 image) (by rw [List.length_take]; omega)]
  have h510 : slice image 510 512 ++ image.drop 512 = image.drop 510 := by
    rw [slice, show 512 = 510 + 2 by omega, ← List.drop_drop]
    exact List.take_append_drop 2 _
  have h446 : slice image 446 510 ++ image.drop 510 = image.drop 446 := by
    rw [slice, show 510 = 446 + 64 by omega, ← List.drop_drop]
    exact List.take_append_drop 64 _
  rw [Mbr.encode, hps, ← hsig', List.append_assoc, List.append_assoc, h510, h446, List.take_append_drop]

/-- **The boot partition.** Of what begins with a table, the offset is that of the first EFI system partition, wherever in the
table it is, and there is none exactly where there is no such partition. What does not begin with a table is refused, and
nothing else is refused so. -/
theorem boot_partition_read (image : Bytes) :
    (∀ m rest, image = Mbr.encode m ++ rest → bootPartitionOffset image = m.offset) ∧
      (bootPartitionOffset image = .error .valueError ↔ ¬ ∃ m rest, image = Mbr.encode m ++ rest) := by
  have htable (m : Mbr) (rest : Bytes) (h : image = m.encode ++ rest) : bootPartitionOffset image = m.offset := by
    rw [h, bootPartitionOffset_mbr]
  refine ⟨htable, fun hrefused => ?_, fun hnone => ?_⟩
  · rintro ⟨m, rest, h⟩
    rw [htable m rest h, Mbr.offset] at hrefused
    cases hboot : m.bootPartition with
    | none => rw [hboot] at hrefused; cases hrefused
    | some p => rw [hboot] at hrefused; cases hrefused
  · rw [bootPartitionOffset]
    split_ifs with hbad
    · rfl
    · rw [not_or, not_not, not_lt, List.length_take] at hbad
      exact absurd (exists_mbr (by omega) hbad.2) hnone

/-! ## The configuration -/

/-- what `subprocess.run` captured -/
structure Completed where
  returncode : ℤ
  stdout : List Char
  stderr : String

structure Host where
  /-- the bytes of a file, `none` where it cannot be read -/
  files : String → Option Bytes
  /-- a program run, `none` where it is not there -/
  run : List String → Option Completed

/-- `CONFIG` -/
def config : String := "/EFI/BOOT/grub.cfg"

def mtypeArgs (image : String) (offset : ℕ) (path : String) : List String :=
  ["mtype", "-i", image ++ "@@" ++ toString offset, "::" ++ path]

/-- one file off the boot partition -/
def read (host : Host) (image path : String) : Except ReadError (List Char) :=
  match host.files image with
  | none => .error .osError
  | some bytes =>
    match bootPartitionOffset bytes with
    | .error e => .error e
    | .ok offset =>
      match host.run (mtypeArgs image offset path) with
      | none => .error .osError
      | some result =>
        if result.returncode ≠ 0 then .error (.runtimeError path image result.stderr) else .ok result.stdout

inductive CommandsError where
  | read (e : ReadError)
  | lookupError (title : String) (titles : List String)
  | parameter (e : ParameterError)

/-- the commands of the image's entry, with the parameter on its kernel's line -/
def commands (host : Host) (image title : String) (parameter : Option String) : Except CommandsError (List String) :=
  match read host image config with
  | .error e => .error (.read e)
  | .ok text =>
    let found := GrubCfg.entries text
    match found.get? title, parameter with
    | none, _ => .error (.lookupError title found.keys)
    | some commands, none => .ok commands
    | some commands, some parameter => (withParameter commands parameter).mapError .parameter

/-- what `_boot` types for an entry -/
def typedCommands (host : Host) (image : String) (entry : Entries.Entry) : Except CommandsError (List String) :=
  (commands host image entry.title entry.parameter).map (entry.prelude ++ ·)

/-! ## The typed boot -/

/-- the image has a boot partition, and its configuration is `text` -/
structure Carries (host : Host) (image : String) (text : List Char) : Prop where
  carries : ∃ (m : Mbr) (rest : Bytes) (p : Partition) (stderr : String), host.files image = some (m.encode ++ rest) ∧
    m.bootPartition = some p ∧ host.run (mtypeArgs image (p.start * 512) config) = some ⟨0, text, stderr⟩

theorem Carries.read {host : Host} {image : String} {text : List Char} (h : Carries host image text) :
    read host image config = .ok text := by
  obtain ⟨m, rest, p, stderr, hfile, hboot, hrun⟩ := h.carries
  have hoffset : bootPartitionOffset (m.encode ++ rest) = .ok (p.start * 512) := by
    rw [bootPartitionOffset_mbr, Mbr.offset, hboot]
    rfl
  simp only [BootImage.read, hfile, hoffset, hrun]
  rfl

/-- the kernel's line has the parameter -/
def addParameter (parameter : Option String) (command : String) : String :=
  match parameter with
  | none => command
  | some parameter => if firstWord command = some "linux" then command ++ " " ++ parameter else command

/-- the prelude, then the entry's commands with the parameter -/
def typedLines (entry : Entries.Entry) (g : GrubCfg.Entry) : List String :=
  entry.prelude ++ g.commands.map (addParameter entry.parameter)

theorem entry_commands {g : GrubCfg.Entry} {c : String} (hc : c ∈ g.commands) : firstWord c ≠ none := by
  obtain ⟨line, hl, rfl⟩ := List.mem_map.1 hc
  obtain ⟨hmem, hcommand⟩ := List.mem_filter.1 hl
  obtain ⟨raw, -, rfl⟩ := List.mem_map.1 hmem
  exact firstWord_command (of_decide_eq_true hcommand).1

theorem withParameter_ok {commands : List String} (hwords : ∀ c ∈ commands, firstWord c ≠ none)
    (hlinux : ∃ c ∈ commands, firstWord c = some "linux") (parameter : String) :
    withParameter commands parameter = .ok (commands.map (addParameter (some parameter))) := by
  have hnone : ¬ (commands.any fun c => firstWord c = none) = true := by
    rw [List.any_eq_true]
    rintro ⟨c, hc, h⟩
    exact hwords c hc (of_decide_eq_true h)
  have hsome : (commands.any fun c => firstWord c = some "linux") = true := by
    simpa only [List.any_eq_true, decide_eq_true_eq] using hlinux
  rw [withParameter, if_neg hnone, if_pos hsome]
  rfl

/-- what is typed for an entry of the configuration -/
theorem typedCommands_carries {host : Host} {image : String} {text : List Char} (himage : Carries host image text)
    {items : List Item} (hlines : splitlines text = items.flatMap Item.lines)
    (htitles : ((items.filterMap Item.entry?).map GrubCfg.Entry.title).Nodup) {g : GrubCfg.Entry}
    (hg : g ∈ items.filterMap Item.entry?) {entry : Entries.Entry} (htitle : entry.title = g.title)
    (hlinux : entry.parameter ≠ none → ∃ c ∈ g.commands, firstWord c = some "linux") :
    typedCommands host image entry = .ok (typedLines entry g) := by
  have hplain : ∀ line ∈ items.flatMap Item.lines, '\n' ∉ line := fun line hl hmem =>
    absurd (splitlines_plain (hlines ▸ hl) '\n' hmem) (by decide)
  have hentries : (GrubCfg.entries text).entries = (items.filterMap Item.entry?).map fun e => (e.title, e.commands) := by
    rw [GrubCfg.entries, hlines, foldl_items ∅ items hplain htitles]
    rfl
  have hfound : (GrubCfg.entries text).get? entry.title = some g.commands := by
    apply Dict.mem_entries.1
    rw [hentries, htitle]
    exact List.mem_map_of_mem hg
  have hcommands : commands host image entry.title entry.parameter = .ok (g.commands.map (addParameter entry.parameter)) := by
    simp only [commands, himage.read, hfound]
    cases hparameter : entry.parameter with
    | none => exact congrArg Except.ok (List.map_id' g.commands).symm
    | some parameter =>
      simp only [withParameter_ok (fun c hc => entry_commands hc) (hlinux (by simp [hparameter])) parameter]
      rfl
  rw [typedCommands, hcommands]
  rfl

/-- **From the image to the kernel's line.** Where the image has a boot partition whose configuration carries the entry, what is
typed is the prelude and then the entry's commands, each in order, with the parameter at the end of the `linux` lines and
nowhere else. And whatever the order in which GRUB and the console go on, what has run are the first of these lines, and the
boot after the last: all of them once the typing returned and GRUB got its keys. Each line is one GRUB's line editor takes as it
is, and nothing drawn between two prompts spells one. -/
theorem typed_boot_runs (host : Host) (image : String) (text : List Char) (himage : Carries host image text)
    (items : List Item) (hlines : splitlines text = items.flatMap Item.lines)
    (htitles : ((items.filterMap Item.entry?).map GrubCfg.Entry.title).Nodup) (g : GrubCfg.Entry)
    (hg : g ∈ items.filterMap Item.entry?) (entry : Entries.Entry) (htitle : entry.title = g.title)
    (hlinux : entry.parameter ≠ none → ∃ c ∈ g.commands, firstWord c = some "linux")
    (hplain : ∀ c ∈ typedLines entry g, GrubShell.Plain c) :
    typedCommands host image entry = .ok (typedLines entry g) ∧
      ∀ (m : Grub.Menu) (bootTimeout commandTimeout now : QemuVm.Time) (ops : List GrubShell.Op),
        (∀ front ∈ ops.inits, GrubShell.Calm (GrubShell.run m (typedLines entry g) bootTimeout commandTimeout now front)) →
        GrubShell.Runs m (typedLines entry g) (GrubShell.run m (typedLines entry g) bootTimeout commandTimeout now ops) :=
  ⟨typedCommands_carries himage hlines htitles hg htitle hlinux,
    fun _ _ _ _ _ hcalm => (GrubShell.run_inv hplain hcalm).runs⟩

def sampleGrub : GrubCfg.Entry where
  header :=
    { before := [' ', ' '], gap := [' ', '\t'], quote := '"', title := "Boot Linux".toList, space := ['\t'], after := ['\t', ' ']
      isQuote := Or.inr rfl
      gap_ne := List.cons_ne_nil _ _
      blank_before := List.all_eq_true.1 (by decide)
      blank_gap := List.all_eq_true.1 (by decide)
      blank_space := List.all_eq_true.1 (by decide)
      blank_after := List.all_eq_true.1 (by decide) }
  body := ["  slaunch".toList, "  linux /k".toList]
  close := " \x7d".toList
  notClosed := by decide
  closes := by decide

def sampleText : List Char := "  menuentry \t\"Boot Linux\"\t\x7b\t \n  slaunch\n  linux /k\n \x7d\n".toList

def samplePartition (kind : UInt8) (start : ℕ) (h : start < 256 ^ 4) : Partition :=
  ⟨[0, 0, 0, 0], kind, [0, 0, 0], start, [1, 0, 0, 0], rfl, rfl, h, rfl⟩

def sampleMbr : Mbr where
  code := List.replicate 446 0
  partitions := [samplePartition 0x83 100 (by decide), samplePartition 0xEF 2048 (by decide),
    samplePartition 0 0 (by decide), samplePartition 0 0 (by decide)]
  code_length := List.length_replicate
  four := rfl

def sampleHost : Host where
  files image := if image = "disk.wic" then some sampleMbr.encode else none
  run args := if args = mtypeArgs "disk.wic" 1048576 config then some ⟨0, sampleText, ""⟩ else none

def sampleEntry : Entries.Entry where
  title := "Boot Linux"
  os := .linux
  launch := true
  firmware := .seabios
  parameter := some "x=1"
  prelude := ["set a=b"]

/-- the keys of a line, each handled at once -/
def typeLine (command : String) : List GrubShell.Op :=
  (List.replicate ((encode command).length + 1) [.send 1, .handle []]).flatten

/-- a shell that is back at its prompt before each look -/
def sampleOps : List GrubShell.Op :=
  [.poll 100 (QemuVm.showing [] 0) 0, .handle [], .finish, .poll 100 (QemuVm.showing [] 1) 1] ++
    ["set a=b", "slaunch", "linux /k x=1"].flatMap (fun command =>
      typeLine command ++ [.finish, .poll 100 (QemuVm.showing [] 1) 1]) ++ typeLine "boot"

theorem typed_boot_runs_linux :
    (GrubShell.run Grub.threeEntries ["set a=b", "slaunch", "linux /k x=1"] 600 60 0 sampleOps).ran =
      ["set a=b", "slaunch", "linux /k x=1", "boot"].map encode := by
  have hcarries : Carries sampleHost "disk.wic" sampleText :=
    ⟨sampleMbr, [], samplePartition 0xEF 2048 (by decide), "", by rw [List.append_nil]; rfl, rfl, if_pos (by decide)⟩
  have h := typed_boot_runs sampleHost "disk.wic" sampleText hcarries [.entry sampleGrub] (by decide +kernel)
    (by decide) sampleGrub List.mem_cons_self sampleEntry (by decide) (by decide) (by decide +kernel)
  exact ((h.2 Grub.threeEntries 600 60 0 sampleOps (by decide +kernel)).returned ["Boot A", "Boot B", "Boot C"]
    (by decide +kernel)).2.2 (by decide +kernel)

end DrtmTest.BootImage
