/-
Lean model of the launch machine's command line (`drtmtest/machine.py`), of what `DRTM_QEMU_ARGS` adds to it, and of the CPU
count the suite reads off it (`_smp` of `tests/conftest.py`).

A text is split into words as `shlex` does. `limit` is the number of digits `int` takes.

- `extraArgs_joined`: what was joined for `DRTM_QEMU_ARGS` is what every boot gets, word by word.
- `smpValues_append`: the values of `-smp` add up over the parts of a command line.
- `smpCount_topology`: of a topology the count is what its first CPU count says, or the product of the rest.
- `smp_last_wins`: a boot's CPU count is there, and is that of the last `-smp` added, or the default.
-/
import DrtmTest.Core.Decimal
import DrtmTest.Core.Shlex
import DrtmTest.Environment

namespace DrtmTest.Machine

open DrtmTest.Decimal DrtmTest.Shlex

/-! ## The command line -/

def defaultCpu : String := "EPYC-Genoa"

def defaultSmp : ℤ := 2

def defaultMem : String := "2G"

def intelCpu : String := "Skylake-Client,+smx,+monitor"

def intelMem : String := "3G"

def intelIommu : String := "intel-iommu,intremap=on,eim=on"

def launchTraces : List String :=
  ["amd_drtm_*", "amd_nb_*", "amd_psp_*", "x86_skinit", "x86_vm_cr_write", "x86_sipi_after_launch", "x86_init_held",
    "x86_init_redirected"]

def intelTraces : List String := ["txt_*", "getsec_*"]

def pspDevice : String := "amd-psp,drtm-service=on"

def memory (vendor : String) : String := if vendor = "intel" then intelMem else defaultMem

inductive MachineError where
  /-- the PSP is AMD's, the Intel machine has none -/
  | pspOnIntel
  | shlex (e : ShlexError)
  deriving DecidableEq

def shlexSplit (text : String) : Except ShlexError (List String) :=
  (Shlex.split text.toList).map fun words => words.map String.ofList

def shlexJoin (words : List String) : String := String.ofList (Shlex.join (words.map String.toList))

/-- `extra_args` -/
def extraArgs (environ : Dict String String) : Except ShlexError (List String) :=
  shlexSplit ((environ.get? "DRTM_QEMU_ARGS").getD "")

/-- the keyword arguments of `options`, with its defaults -/
structure Options where
  cpu : Option String := none
  smp : ℤ := defaultSmp
  mem : Option String := none
  strict : Bool := true
  snapshot : Bool := true
  psp : Bool := false
  vendor : String := "amd"

def onOff (b : Bool) : String := if b then "on" else "off"

/-- `value or default` -/
def orElse (value : Option String) (default : String) : String := (value.filter fun s => s ≠ "").getD default

/-- the machine, the CPU and, on AMD, the platform device -/
def vendorArgs (o : Options) : List String :=
  if o.vendor = "intel" then
    ["-machine", "q35,smm=on,txt=on,txt-firmware=on", "-device", intelIommu, "-cpu", orElse o.cpu intelCpu]
  else
    ["-machine", "q35,smm=on,amd-drtm=on", "-cpu", orElse o.cpu defaultCpu, "-global",
      "amd-drtm-platform.strict=" ++ onOff o.strict]

def traces (o : Options) : List String := if o.vendor = "intel" then intelTraces else launchTraces

def commonArgs (image : String) (o : Options) : List String :=
  ["-smp", toString o.smp, "-m", orElse o.mem (memory o.vendor), "-drive",
    "file=" ++ image ++ ",format=raw,if=none,id=hd,snapshot=" ++ onOff o.snapshot, "-device", "ide-hd,drive=hd",
    "-vga", "none", "-nic", "none", "-d", "guest_errors"]

/-- the machine and the image, before what is added -/
def machineArgs (image : String) (o : Options) : List String :=
  vendorArgs o ++ commonArgs image o ++ (if o.psp then ["-device", pspDevice] else []) ++
    (traces o).flatMap fun trace => ["-trace", trace]

/-- `extra` is read from the environment where the caller has none -/
def options (environ : Dict String String) (image : String) (o : Options) (extra : Option (List String)) :
    Except MachineError (List String) :=
  if o.vendor = "intel" ∧ o.psp then .error .pspOnIntel
  else match extra with
    | some extra => .ok (machineArgs image o ++ extra)
    | none =>
      match extraArgs environ with
      | .ok extra => .ok (machineArgs image o ++ extra)
      | .error e => .error (.shlex e)

/-! ## The CPU count -/

inductive SmpError where
  | indexError
  | valueError (number : String)
  deriving DecidableEq

/-- what follows each `-smp` -/
def smpValues : List String → List String
  | arg :: value :: args => (if arg = "-smp" then [value] else []) ++ smpValues (value :: args)
  | _ => []

/-- `item.rpartition("=")` without the sign -/
def rpartition (item : List Char) : List Char × List Char :=
  (((item.reverse.dropWhile (· ≠ '=')).drop 1).reverse, (item.reverse.takeWhile (· ≠ '=')).reverse)

def smpInt (limit : ℕ) (number : List Char) : Except SmpError ℤ :=
  match int limit number with
  | some n => .ok n
  | none => .error (.valueError (String.ofList number))

/-- the loop over the items of a value -/
def smpItems (limit : ℕ) : ℤ → List (List Char) → Except SmpError ℤ
  | count, [] => .ok count
  | count, item :: items =>
    let (key, number) := rpartition item
    if key = [] ∨ key = "cpus".toList then smpInt limit number
    else if key ≠ "maxcpus".toList then
      match smpInt limit number with
      | .ok n => smpItems limit (count * n) items
      | .error e => .error e
    else smpItems limit count items

def smpCount (limit : ℕ) (value : String) : Except SmpError ℤ := smpItems limit 1 (value.toList.splitOn ',')

/-- `_smp` -/
def smp (limit : ℕ) (args : List String) : Except SmpError ℤ :=
  match (smpValues args).getLast? with
  | none => .error .indexError
  | some value => smpCount limit value

/-! ## Words -/

theorem shlexSplit_join (words : List String) : shlexSplit (shlexJoin words) = .ok words := by
  have hback : (words.map String.toList).map String.ofList = words := by simp
  rw [shlexSplit, shlexJoin, String.toList_ofList, split_joined]
  exact congrArg Except.ok hback

theorem extraArgs_joined {environ : Dict String String} {words : List String}
    (h : environ.get? "DRTM_QEMU_ARGS" = some (shlexJoin words)) : extraArgs environ = .ok words := by
  rw [extraArgs, h, Option.getD_some, shlexSplit_join]

/-! ## The values of `-smp` -/

/-- between two parts of a command line no `-smp` stands apart from its value -/
theorem smpValues_append {args : List String} (h : args.getLast? ≠ some "-smp") (more : List String) :
    smpValues (args ++ more) = smpValues args ++ smpValues more := by
  induction args with
  | nil => rfl
  | cons arg args ih =>
    cases args with
    | nil =>
      have hne : arg ≠ "-smp" := fun heq => h (by rw [heq]; rfl)
      cases more with
      | nil => rfl
      | cons value more => simp [smpValues, hne]
    | cons value args =>
      rw [List.getLast?_cons_cons] at h
      have hrest := ih h
      rw [List.cons_append] at hrest
      rw [List.cons_append, List.cons_append, smpValues, hrest, smpValues, List.append_assoc]

theorem file_ne_smp (text : String) : "file=" ++ text ≠ "-smp" := by
  intro h
  have hhead := congrArg (fun s => s.toList.head?) h
  simp at hhead

/-- what `_boot` of `tests/conftest.py` asks for -/
def bootOptions (vendor : String) (psp : Bool) : Options := { psp, vendor }

theorem options_extra {environ : Dict String String} {image : String} {o : Options} {extra args : List String}
    (h : options environ image o (some extra) = .ok args) : args = machineArgs image o ++ extra := by
  unfold options at h
  split_ifs at h
  exact (Except.ok.inj h).symm

theorem smpValues_none {args : List String} (h : "-smp" ∉ args) : smpValues args = [] := by
  induction args with
  | nil => rfl
  | cons arg args ih =>
    rw [List.mem_cons, not_or] at h
    cases args with
    | nil => rfl
    | cons value args => rw [smpValues, if_neg (Ne.symm h.1), ih h.2, List.nil_append]

/-- before the machine's own `-smp` -/
theorem not_smp_vendorArgs (vendor : String) (psp : Bool) : "-smp" ∉ vendorArgs (bootOptions vendor psp) := by
  unfold vendorArgs
  split_ifs
  · show "-smp" ∉ ["-machine", "q35,smm=on,txt=on,txt-firmware=on", "-device", intelIommu, "-cpu", orElse none intelCpu]
    decide
  · show "-smp" ∉ ["-machine", "q35,smm=on,amd-drtm=on", "-cpu", orElse none defaultCpu, "-global",
      "amd-drtm-platform.strict=" ++ onOff true]
    decide

/-- behind it -/
def restArgs (image : String) (o : Options) : List String :=
  (commonArgs image o).drop 2 ++ ((if o.psp then ["-device", pspDevice] else []) ++
    (traces o).flatMap fun trace => ["-trace", trace])

theorem not_smp_restArgs (image vendor : String) (psp : Bool) : "-smp" ∉ restArgs image (bootOptions vendor psp) := by
  have hfile := file_ne_smp (image ++ ",format=raw,if=none,id=hd,snapshot=on")
  have hmem : memory vendor ≠ "-smp" := by
    unfold memory
    split_ifs <;> decide
  have htraces : "-smp" ∉ (traces (bootOptions vendor psp)).flatMap fun trace => ["-trace", trace] := by
    unfold traces
    split_ifs <;> decide
  have hpsp : "-smp" ∉ if (bootOptions vendor psp).psp then ["-device", pspDevice] else [] := by
    split_ifs <;> decide
  have hcommon : "-smp" ∉ (commonArgs image (bootOptions vendor psp)).drop 2 := by
    simpa [commonArgs, bootOptions, orElse, onOff, String.append_assoc] using ⟨Ne.symm hmem, Ne.symm hfile⟩
  rw [restArgs, List.mem_append, List.mem_append]
  exact not_or.2 ⟨hcommon, not_or.2 ⟨hpsp, htraces⟩⟩

theorem machineArgs_eq (image vendor : String) (psp : Bool) :
    machineArgs image (bootOptions vendor psp) =
      vendorArgs (bootOptions vendor psp) ++ ("-smp" :: "2" :: restArgs image (bootOptions vendor psp)) := by
  have hsmp : toString (bootOptions vendor psp).smp = "2" := by
    show toString defaultSmp = "2"
    decide
  simp only [machineArgs, restArgs, commonArgs, hsmp, List.append_assoc, List.cons_append, List.nil_append, List.drop_succ_cons,
    List.drop_zero]

theorem machineArgs_last (image vendor : String) (psp : Bool) :
    (machineArgs image (bootOptions vendor psp)).getLast? ≠ some "-smp" := by
  intro h
  rw [machineArgs_eq, List.getLast?_append_of_ne_nil _ (List.cons_ne_nil _ _), List.getLast?_cons_cons] at h
  rcases List.mem_cons.1 (List.mem_of_getLast? h) with htwo | hrest
  · exact absurd htwo (by decide)
  · exact not_smp_restArgs image vendor psp hrest

/-- the machine has one `-smp` of its own -/
theorem smpValues_machine (image vendor : String) (psp : Bool) :
    smpValues (machineArgs image (bootOptions vendor psp)) = ["2"] := by
  have hlast : (vendorArgs (bootOptions vendor psp)).getLast? ≠ some "-smp" := fun h =>
    not_smp_vendorArgs vendor psp (List.mem_of_getLast? h)
  have hrest : "-smp" ∉ "2" :: restArgs image (bootOptions vendor psp) :=
    List.not_mem_cons_of_ne_of_not_mem (by decide) (not_smp_restArgs image vendor psp)
  rw [machineArgs_eq, smpValues_append hlast, smpValues_none (not_smp_vendorArgs vendor psp), smpValues, if_pos rfl,
    smpValues_none hrest]
  rfl

/-! ## Topologies -/

/-- one item of a value: a count under a key, the CPUs' under none -/
structure Item where
  key : List Char
  number : ℕ

def Item.text (item : Item) : List Char :=
  (if item.key = [] then [] else item.key ++ ['=']) ++ Nat.toDigits 10 item.number

/-- the item says how many CPUs there are -/
def Item.counts (item : Item) : Bool := item.key = [] ∨ item.key = "cpus".toList

def Item.multiplies (item : Item) : Bool := item.key ≠ "maxcpus".toList

/-- the first count of CPUs, or the product of the rest -/
def countOf (items : List Item) : ℤ :=
  (items.find? Item.counts).elim ((items.filter Item.multiplies).map fun item => (item.number : ℤ)).prod
    fun item => (item.number : ℤ)

def topology (items : List Item) : String := String.ofList ([','].intercalate (items.map Item.text))

/-- the keys have no comma, and `int` takes the numbers -/
structure Readable (limit : ℕ) (items : List Item) : Prop where
  ne_nil : items ≠ []
  key : ∀ item ∈ items, ',' ∉ item.key
  number : ∀ item ∈ items, (Nat.toDigits 10 item.number).length ≤ limit

theorem not_mem_digits {c : Char} (h : Text.isDecimal c = false) (n : ℕ) : c ∉ Nat.toDigits 10 n := by
  intro hmem
  rw [isDecimal_toDigits hmem] at h
  cases h

theorem rpartition_text (item : Item) : rpartition item.text = (item.key, Nat.toDigits 10 item.number) := by
  have hdigits : ∀ c ∈ (Nat.toDigits 10 item.number).reverse, decide (c ≠ '=') = true := by
    intro c hc
    refine decide_eq_true ?_
    rintro rfl
    exact not_mem_digits (by decide) item.number (List.mem_reverse.1 hc)
  rw [rpartition, Item.text]
  by_cases hkey : item.key = []
  · rw [if_pos hkey, List.nil_append, List.takeWhile_eq_self_iff.2 hdigits, List.dropWhile_eq_nil_iff.2 hdigits,
      List.reverse_reverse, hkey]
    rfl
  · have hreverse : (item.key ++ ['='] ++ Nat.toDigits 10 item.number).reverse =
        (Nat.toDigits 10 item.number).reverse ++ '=' :: item.key.reverse := by simp
    rw [if_neg hkey, hreverse, Text.takeWhile_run hdigits (by decide), Text.dropWhile_run hdigits (by decide),
      List.reverse_reverse, List.drop_one, List.tail_cons, List.reverse_reverse]

theorem smpInt_digits {limit n : ℕ} (h : (Nat.toDigits 10 n).length ≤ limit) :
    smpInt limit (Nat.toDigits 10 n) = .ok (n : ℤ) := by
  rw [smpInt, int_toDigits, if_pos h]

/-- the loop, from any product on -/
theorem smpItems_texts {limit : ℕ} {items : List Item}
    (h : ∀ item ∈ items, (Nat.toDigits 10 item.number).length ≤ limit) (count : ℤ) :
    smpItems limit count (items.map Item.text) =
      .ok ((items.find? Item.counts).elim (count * ((items.filter Item.multiplies).map fun item => (item.number : ℤ)).prod)
        fun item => (item.number : ℤ)) := by
  induction items generalizing count with
  | nil => simp [smpItems]
  | cons item items ih =>
    have hitem := smpInt_digits (h item List.mem_cons_self)
    have hrest := ih fun i hi => h i (List.mem_cons_of_mem _ hi)
    rw [List.map_cons, smpItems, rpartition_text]
    by_cases hcounts : item.counts = true
    · rw [List.find?_cons_of_pos hcounts]
      simp only [Item.counts, decide_eq_true_eq] at hcounts
      simp only [if_pos hcounts, hitem, Option.elim_some]
    · rw [List.find?_cons_of_neg hcounts]
      simp only [Item.counts, decide_eq_true_eq] at hcounts
      simp only [if_neg hcounts]
      by_cases hmax : item.key = "maxcpus".toList
      · have hfilter : ¬ item.multiplies = true := by simp [Item.multiplies, hmax]
        rw [if_neg (not_not.2 hmax), hrest, List.filter_cons_of_neg hfilter]
      · have hfilter : item.multiplies = true := decide_eq_true hmax
        rw [if_pos hmax, List.filter_cons_of_pos hfilter]
        simp only [hitem, hrest, List.map_cons, List.prod_cons, mul_assoc]

theorem smpCount_topology {limit : ℕ} {items : List Item} (h : Readable limit items) :
    smpCount limit (topology items) = .ok (countOf items) := by
  have hcomma : ∀ text ∈ items.map Item.text, ',' ∉ text := by
    intro text htext
    obtain ⟨item, hitem, rfl⟩ := List.mem_map.1 htext
    rw [Item.text, List.mem_append]
    refine not_or.2 ⟨?_, not_mem_digits (by decide) item.number⟩
    split_ifs
    · exact List.not_mem_nil
    · simpa using h.key item hitem
  rw [smpCount, topology, String.toList_ofList, List.splitOn_intercalate ',' hcomma (by simpa using h.ne_nil),
    smpItems_texts h.number]
  simp only [one_mul]
  rfl

/-- **A boot's CPU count.** Whatever words `DRTM_QEMU_ARGS` was joined from, every boot gets them as they are, behind the
devices of its entry; and of its command line the suite reads the CPU count of the last `-smp` among those, or the machine's
two, and never fails for want of one. Of a topology that is the first count of CPUs, or the product of all but the maximum. -/
theorem smp_last_wins (limit : ℕ) (hlimit : 0 < limit) (environ : Dict String String) (words : List String)
    (henv : environ.get? "DRTM_QEMU_ARGS" = some (shlexJoin words)) :
    ∃ extra, extraArgs environ = .ok extra ∧
      (∀ image vendor psp devices args,
        options environ image (bootOptions vendor psp) (some (devices ++ extra)) = .ok args →
          devices ++ words <:+ args ∧
            smp limit args = (smpValues (devices ++ words)).getLast?.elim (.ok 2) (smpCount limit)) ∧
      ∀ items, Readable limit items → smpCount limit (topology items) = .ok (countOf items) := by
  refine ⟨words, extraArgs_joined henv, fun image vendor psp devices args hargs => ?_, fun items => smpCount_topology⟩
  have htwo : smpCount limit "2" = .ok 2 := by
    have hlength : (Nat.toDigits 10 2).length ≤ limit := hlimit
    have hreadable : Readable limit [⟨[], 2⟩] := ⟨by simp, by simp, by simpa using hlength⟩
    have hread := smpCount_topology hreadable
    have htext : topology [⟨[], 2⟩] = "2" := by decide
    rwa [htext] at hread
  rw [options_extra hargs]
  refine ⟨List.suffix_append _ _, ?_⟩
  rw [smp, smpValues_append (machineArgs_last image vendor psp), smpValues_machine]
  cases hvalues : smpValues (devices ++ words) with
  | nil =>
    simp only [List.append_nil, List.getLast?_singleton, List.getLast?_nil, Option.elim_none]
    exact htwo
  | cons value values =>
    simp only [List.singleton_append, List.getLast?_cons_cons, List.getLast?_eq_some_getLast (List.cons_ne_nil value values),
      Option.elim_some]

def sampleItems : List Item := [⟨"sockets".toList, 2⟩, ⟨"maxcpus".toList, 12⟩, ⟨"cores".toList, 3⟩]

def sampleWords : List String := ["-m", "6G", "-smp", topology sampleItems, "-append", "it's a \"line\""]

def sampleEnviron : Dict String String := ⟨[("DRTM_QEMU_ARGS", shlexJoin sampleWords)], by decide⟩

/-- six CPUs -/
theorem smp_last_wins_topology :
    ∃ extra, extraArgs sampleEnviron = .ok extra ∧ ∀ image vendor psp args,
      options sampleEnviron image (bootOptions vendor psp) (some extra) = .ok args → smp 4300 args = .ok 6 := by
  obtain ⟨extra, hextra, hsmp, hcount⟩ := smp_last_wins 4300 (by decide) sampleEnviron sampleWords rfl
  refine ⟨extra, hextra, fun image vendor psp args hargs => ?_⟩
  have hlast : (smpValues ([] ++ sampleWords)).getLast? = some (topology sampleItems) := rfl
  have hreadable : Readable 4300 sampleItems := ⟨by decide, by decide, by decide⟩
  rw [(hsmp image vendor psp [] args hargs).2, hlast, Option.elim_some, hcount sampleItems hreadable]
  rfl

end DrtmTest.Machine
