/-
Lean model of `running_addresses` of `drtmtest/qemu_vm.py`, and of the text of `info registers -a` it reads.

- `ipAt_ipLine`: the pattern reads the address and the halt flag of the line of the instruction pointer, whatever fields
  stand between them.
- `readBlock_runs`, `readBlock_halted`: so a block gives the address of its CPU, under its index, if it is not halted.
- `running_addresses_printed`: the text of any CPUs gives the addresses of those that run, or `ValueError` where the index
  of one has more digits than `int` takes.
- `running_addresses_misread`: a preamble with a block of its own is read as one.
-/
import DrtmTest.Console
import DrtmTest.Core.Decimal
import DrtmTest.Core.Dict
import DrtmTest.Core.Lines

namespace DrtmTest.Registers

open DrtmTest.Text DrtmTest.Decimal DrtmTest.Lines DrtmTest.Console

/-! ## Model -/

def cpuMark : List Char := "CPU#".toList

def haltMark : List Char := " HLT=".toList

/-- `[0-9a-f]` -/
def isLowerHex (c : Char) : Bool := isDigit c || ('a' ≤ c ∧ c ≤ 'f')

/-- ` HLT=(\d)`, here -/
def haltAt (cs : List Char) : Option Char :=
  if haltMark <+: cs then ((cs.drop haltMark.length).head?).filter isDecimal else none

/-- `.* HLT=(\d)` in a line: `.*` takes what it can, so the last place counts -/
def lastHalt : List Char → Option Char
  | [] => none
  | c :: cs => (lastHalt cs).or (haltAt (c :: cs))

/-- `_IP_RE`, here: the address and the halt flag -/
def ipAt : List Char → Option (List Char × Char)
  | [] => none
  | letter :: cs =>
    if (letter = 'R' ∨ letter = 'E') ∧ ['I', 'P', '='] <+: cs then
      let address := (cs.drop 3).takeWhile isLowerHex
      match (cs.drop 3).dropWhile isLowerHex with
      | ' ' :: rest =>
        if address ≠ [] then (lastHalt (rest.takeWhile (· ≠ '\n'))).map fun hlt => (address, hlt) else none
      | _ => none
    else none

/-- one block: its CPU's address goes into the dictionary if it is not halted, `none` for `ValueError` -/
def readBlock (addresses : Dict ℤ String) (block : List Char) : Option (Dict ℤ String) :=
  match search ipAt block with
  | some (address, '0') =>
    (int maxIntDigits (block.takeWhile (· ≠ '\n'))).map fun index => addresses.set index (String.ofList address)
  | _ => some addresses

def runningAddresses (registers : String) : Option (Dict ℤ String) :=
  ((split cpuMark (registers.toList.filter (· ≠ '\r'))).drop 1).foldlM readBlock ∅

/-! ## The text -/

/-- what one line can hold -/
structure IsLine (line : List Char) : Prop where
  newline : '\n' ∉ line
  carriageReturn : '\r' ∉ line

/-- a line that is neither the head of a block nor that of an instruction pointer -/
structure IsRegisters (line : List Char) : Prop extends IsLine line where
  cpu : ¬ cpuMark <+: line
  rip : ¬ "RIP=".toList <+: line
  eip : ¬ "EIP=".toList <+: line

inductive Width where
  | bits32
  | bits64

def Width.letter : Width → Char
  | .bits32 => 'E'
  | .bits64 => 'R'

/-- what the monitor prints of a CPU -/
structure Cpu where
  index : ℕ
  width : Width
  address : List Char
  /-- what stands between the address and the halt flag -/
  fields : List Char
  hlt : Char
  before : List (List Char)
  after : List (List Char)
  address_ne : address ≠ []
  address_hex : ∀ c ∈ address, isLowerHex c = true
  fields_line : IsLine fields
  hlt_digit : isDecimal hlt = true
  before_registers : ∀ l ∈ before, IsRegisters l
  after_registers : ∀ l ∈ after, IsRegisters l

def Cpu.Runs (c : Cpu) : Prop := c.hlt = '0'

instance (c : Cpu) : Decidable c.Runs := inferInstanceAs (Decidable (c.hlt = '0'))

/-- `RIP=ffffffff81f5545c RFL=00000202 [-------] CPL=0 II=0 A20=1 SMM=0 HLT=0` -/
def Cpu.ipLine (c : Cpu) : List Char :=
  c.width.letter :: (['I', 'P', '='] ++ (c.address ++ ' ' :: (c.fields ++ (haltMark ++ [c.hlt]))))

/-- the lines of a block behind its first -/
def Cpu.body (c : Cpu) : List (List Char) := c.before ++ c.ipLine :: c.after

def Cpu.lines (c : Cpu) : List (List Char) := (cpuMark ++ Nat.toDigits 10 c.index) :: c.body

inductive LineEnd where
  | lf
  | crlf

def LineEnd.chars : LineEnd → List Char
  | .lf => ['\n']
  | .crlf => ['\r', '\n']

def printed (lineEnd : LineEnd) (preamble : List (List Char)) (cpus : List Cpu) : String :=
  String.ofList ((preamble ++ cpus.flatMap Cpu.lines).flatMap (· ++ lineEnd.chars))

/-- the CPUs that run, index and address -/
def running (cpus : List Cpu) : List (ℤ × String) :=
  (cpus.filter fun c => c.Runs).map fun c => ((c.index : ℤ), String.ofList c.address)

/-- the dictionary has the address of each CPU that runs under its index, and nothing else -/
def Attributes (addresses : Dict ℤ String) (cpus : List Cpu) : Prop :=
  ∀ i a, addresses.get? i = some a ↔ ∃ c ∈ cpus, c.Runs ∧ (c.index : ℤ) = i ∧ String.ofList c.address = a

/-! ## Lines -/

theorem IsLine.append {l m : List Char} (hl : IsLine l) (hm : IsLine m) : IsLine (l ++ m) :=
  ⟨fun h => (List.mem_append.1 h).elim hl.newline hm.newline,
    fun h => (List.mem_append.1 h).elim hl.carriageReturn hm.carriageReturn⟩

theorem IsLine.before_newline {l : List Char} (h : IsLine l) : ∀ c ∈ l, decide (c ≠ '\n') = true :=
  fun _ hc => decide_eq_true fun heq => h.newline (heq ▸ hc)

/-- a run of characters of a class that has no line end is in one line -/
theorem isLine_of_class {p : Char → Bool} (hnewline : p '\n' = false) (hreturn : p '\r' = false) {l : List Char}
    (h : ∀ c ∈ l, p c = true) : IsLine l :=
  ⟨fun hmem => Bool.eq_false_iff.1 hnewline (h _ hmem), fun hmem => Bool.eq_false_iff.1 hreturn (h _ hmem)⟩

theorem digits_line (n : ℕ) : IsLine (Nat.toDigits 10 n) :=
  isLine_of_class (by decide) (by decide) fun _ => isDecimal_toDigits

theorem halt_line (c : Cpu) : IsLine (c.fields ++ (haltMark ++ [c.hlt])) := by
  have hmark : IsLine haltMark := ⟨by decide, by decide⟩
  have hflag : IsLine [c.hlt] := isLine_of_class (by decide) (by decide) (List.forall_mem_singleton.2 c.hlt_digit)
  exact c.fields_line.append (hmark.append hflag)

theorem ipLine_line (c : Cpu) : IsLine c.ipLine := by
  have hletter : IsLine [c.width.letter, 'I', 'P', '='] := by
    cases c.width with
    | bits32 => exact ⟨by decide, by decide⟩
    | bits64 => exact ⟨by decide, by decide⟩
  have haddress : IsLine c.address := isLine_of_class (by decide) (by decide) c.address_hex
  have hspace : IsLine [' '] := ⟨by decide, by decide⟩
  exact hletter.append (haddress.append (hspace.append (halt_line c)))

/-! ## The pattern -/

theorem lastHalt_append {cs : List Char} {d : Char} (h : lastHalt cs = some d) (u : List Char) :
    lastHalt (u ++ cs) = some d := by
  induction u with
  | nil => exact h
  | cons c u ih =>
    rw [List.cons_append, lastHalt, ih]
    rfl

theorem lastHalt_mark {d : Char} (h : isDecimal d = true) : lastHalt (haltMark ++ [d]) = some d := by
  have hd : d ≠ ' ' := by
    rintro rfl
    exact absurd h (by decide)
  simp [haltMark, lastHalt, haltAt, h, hd.symm]

theorem ipAt_none {cs : List Char} (hrip : ¬ "RIP=".toList <+: cs) (heip : ¬ "EIP=".toList <+: cs) : ipAt cs = none := by
  cases cs with
  | nil => rfl
  | cons letter cs =>
    refine if_neg fun h => ?_
    obtain ⟨rfl | rfl, hip⟩ := h
    · exact hrip (List.cons_prefix_cons.2 ⟨rfl, hip⟩)
    · exact heip (List.cons_prefix_cons.2 ⟨rfl, hip⟩)

theorem ipAt_registers {line : List Char} (h : IsRegisters line) (rest : List Char) : ipAt (line ++ '\n' :: rest) = none :=
  ipAt_none (fun hprefix => h.rip (prefix_line (by decide) hprefix)) fun hprefix => h.eip (prefix_line (by decide) hprefix)

theorem ipAt_address (width : Width) {address : List Char} (hne : address ≠ [])
    (hhex : ∀ c ∈ address, isLowerHex c = true) (rest : List Char) :
    ipAt (width.letter :: (['I', 'P', '='] ++ (address ++ ' ' :: rest))) =
      (lastHalt (rest.takeWhile (· ≠ '\n'))).map fun hlt => (address, hlt) := by
  have hletter : width.letter = 'R' ∨ width.letter = 'E' := by
    cases width with
    | bits32 => exact Or.inr rfl
    | bits64 => exact Or.inl rfl
  have hdrop : (['I', 'P', '='] ++ (address ++ ' ' :: rest)).drop 3 = address ++ ' ' :: rest := rfl
  have hspace : isLowerHex ' ' = false := by decide
  rw [ipAt, if_pos ⟨hletter, List.prefix_append _ _⟩, hdrop, takeWhile_run hhex hspace, dropWhile_run hhex hspace]
  exact if_pos hne

/-- The pattern reads the address and the flag at the end of the line. -/
theorem ipAt_ipLine (c : Cpu) (rest : List Char) : ipAt (c.ipLine ++ '\n' :: rest) = some (c.address, c.hlt) := by
  have htext : c.ipLine ++ '\n' :: rest = c.width.letter ::
      (['I', 'P', '='] ++ (c.address ++ ' ' :: (c.fields ++ (haltMark ++ [c.hlt]) ++ '\n' :: rest))) := by
    simp only [Cpu.ipLine, List.cons_append, List.append_assoc, List.nil_append]
  have hhalt : lastHalt (c.fields ++ (haltMark ++ [c.hlt])) = some c.hlt :=
    lastHalt_append (lastHalt_mark c.hlt_digit) c.fields
  rw [htext, ipAt_address c.width c.address_ne c.address_hex, takeWhile_run (halt_line c).before_newline (by decide), hhalt]
  rfl

/-! ## Blocks -/

theorem ipAt_digits (n : ℕ) (rest : List Char) : ipAt (Nat.toDigits 10 n ++ '\n' :: rest) = none := by
  have hno : ∀ c cs, isDecimal c = false → ¬ c :: cs <+: Nat.toDigits 10 n ++ '\n' :: rest := by
    intro c cs hc hprefix
    obtain ⟨d, ds, hdigits⟩ := List.exists_cons_of_ne_nil (Nat.toDigits_ne_nil (b := 10) (n := n))
    rw [hdigits, List.cons_append, List.cons_prefix_cons] at hprefix
    have hd : isDecimal d = true := isDecimal_toDigits (hdigits ▸ List.mem_cons_self)
    rw [← hprefix.1, hc] at hd
    cases hd
  exact ipAt_none (hno 'R' _ (by decide)) (hno 'E' _ (by decide))

theorem body_other (c : Cpu) : ∀ l ∈ c.body, Other cpuMark l := by
  have hip : Other cpuMark c.ipLine := by
    refine ⟨(ipLine_line c).newline, fun hprefix => ?_⟩
    have hhead := (List.cons_prefix_cons.1 hprefix).1
    cases hwidth : c.width with
    | bits32 => exact absurd (hwidth ▸ hhead) (by decide)
    | bits64 => exact absurd (hwidth ▸ hhead) (by decide)
  intro l hl
  rcases List.mem_append.1 hl with hl | hl
  · exact ⟨(c.before_registers l hl).newline, (c.before_registers l hl).cpu⟩
  · rcases List.mem_cons.1 hl with rfl | hl
    · exact hip
    · exact ⟨(c.after_registers l hl).newline, (c.after_registers l hl).cpu⟩

def Cpu.block (c : Cpu) : Block cpuMark := ⟨Nat.toDigits 10 c.index, c.body, (digits_line c.index).newline, body_other c⟩

/-- the text of a block behind its mark -/
def Cpu.text (c : Cpu) : List Char := unlines (Nat.toDigits 10 c.index :: c.body)

theorem search_text (c : Cpu) : search ipAt c.text = some (c.address, c.hlt) := by
  have hbefore : ∀ l ∈ Nat.toDigits 10 c.index :: c.before, '\n' ∉ l ∧ ∀ more, ipAt (l ++ '\n' :: more) = none :=
    List.forall_mem_cons.2 ⟨⟨(digits_line c.index).newline, ipAt_digits c.index⟩, fun l hl =>
      ⟨(c.before_registers l hl).newline, ipAt_registers (c.before_registers l hl)⟩⟩
  rw [Cpu.text, Cpu.body, ← List.cons_append, unlines_append, search_lines ipAt _ hbefore, unlines_cons,
    search_line ipAt (ipLine_line c).newline, ipAt_ipLine]
  rfl

theorem readBlock_halted {c : Cpu} (h : ¬ c.Runs) (addresses : Dict ℤ String) :
    readBlock addresses c.text = some addresses := by
  rw [readBlock, search_text]
  split
  · rename_i heq
    exact absurd (Prod.mk.inj (Option.some.inj heq)).2 h
  · rfl

theorem readBlock_runs {c : Cpu} (h : c.Runs) (addresses : Dict ℤ String) : readBlock addresses c.text =
    if (Nat.toDigits 10 c.index).length ≤ maxIntDigits then
      some (addresses.set (c.index : ℤ) (String.ofList c.address)) else none := by
  have hhead : c.text.takeWhile (· ≠ '\n') = Nat.toDigits 10 c.index := by
    rw [Cpu.text, unlines_cons]
    exact takeWhile_run (digits_line c.index).before_newline (by decide) _
  rw [readBlock, search_text, h, hhead, int_toDigits]
  split_ifs <;> rfl

/-! ## The whole text -/

theorem filter_unlines (lineEnd : LineEnd) {ls : List (List Char)} (h : ∀ l ∈ ls, IsLine l) :
    (ls.flatMap (· ++ lineEnd.chars)).filter (· ≠ '\r') = unlines ls := by
  have hend : lineEnd.chars.filter (· ≠ '\r') = ['\n'] := by
    cases lineEnd with
    | lf => rfl
    | crlf => rfl
  have hline : ∀ l, IsLine l → l.filter (· ≠ '\r') = l := fun l hl =>
    List.filter_eq_self.2 fun c hc => decide_eq_true fun heq => hl.carriageReturn (heq ▸ hc)
  induction ls with
  | nil => rfl
  | cons l ls ih =>
    rw [List.flatMap_cons, List.filter_append, List.filter_append, hline l (h l List.mem_cons_self), hend,
      ih fun l hl => h l (List.mem_cons_of_mem _ hl), unlines_cons, List.append_assoc]
    rfl

theorem lines_line (c : Cpu) : ∀ l ∈ c.lines, IsLine l := by
  have hmark : IsLine cpuMark := ⟨by decide, by decide⟩
  refine List.forall_mem_cons.2 ⟨hmark.append (digits_line c.index), fun l hl => ?_⟩
  rcases List.mem_append.1 hl with hl | hl
  · exact (c.before_registers l hl).toIsLine
  · rcases List.mem_cons.1 hl with rfl | hl
    · exact ipLine_line c
    · exact (c.after_registers l hl).toIsLine

theorem unlines_lines (cpus : List Cpu) : unlines (cpus.flatMap Cpu.lines) =
    (cpus.map Cpu.block).flatMap fun b => cpuMark ++ unlines (b.head :: b.body) := by
  induction cpus with
  | nil => rfl
  | cons c cpus ih =>
    have hblock : unlines c.lines = cpuMark ++ c.text := by
      rw [Cpu.lines, Cpu.text, unlines_cons, unlines_cons, List.append_assoc]
    rw [List.flatMap_cons, unlines_append, ih, hblock]
    rfl

/-- the printed text is read block by block -/
theorem runningAddresses_eq (lineEnd : LineEnd) {preamble : List (List Char)}
    (hpreamble : ∀ l ∈ preamble, IsLine l ∧ ¬ cpuMark <+: l) (cpus : List Cpu) :
    runningAddresses (printed lineEnd preamble cpus) = (cpus.map Cpu.text).foldlM readBlock ∅ := by
  have hlines : ∀ l ∈ preamble ++ cpus.flatMap Cpu.lines, IsLine l := by
    intro l hl
    rcases List.mem_append.1 hl with hl | hl
    · exact (hpreamble l hl).1
    · obtain ⟨c, -, hl⟩ := List.mem_flatMap.1 hl
      exact lines_line c l hl
  have hother : ∀ l ∈ preamble, Other cpuMark l := fun l hl => ⟨(hpreamble l hl).1.newline, (hpreamble l hl).2⟩
  rw [runningAddresses, printed, String.toList_ofList, filter_unlines lineEnd hlines, unlines_append, unlines_lines,
    split_blocks (by decide) (by decide) hother, List.drop_one, List.tail_cons, List.map_map]
  rfl

theorem foldlM_readBlock {cpus : List Cpu}
    (h : ∀ c ∈ cpus, c.Runs → (Nat.toDigits 10 c.index).length ≤ maxIntDigits) (addresses : Dict ℤ String) :
    (cpus.map Cpu.text).foldlM readBlock addresses =
      some ((running cpus).foldl (fun addresses e => addresses.set e.1 e.2) addresses) := by
  induction cpus generalizing addresses with
  | nil => rfl
  | cons c cpus ih =>
    have hrest := ih fun c hc => h c (List.mem_cons_of_mem _ hc)
    rw [List.map_cons, List.foldlM_cons]
    by_cases hruns : c.Runs
    · have hrunning : running (c :: cpus) = ((c.index : ℤ), String.ofList c.address) :: running cpus := by
        rw [running, List.filter_cons, if_pos (decide_eq_true hruns)]
        rfl
      rw [readBlock_runs hruns, if_pos (h c List.mem_cons_self hruns), hrunning, List.foldl_cons]
      exact hrest _
    · have hrunning : running (c :: cpus) = running cpus := by
        rw [running, List.filter_cons, if_neg (by simpa using hruns)]
        rfl
      rw [readBlock_halted hruns, hrunning]
      exact hrest addresses

theorem foldlM_long {cpus : List Cpu} (h : ∃ c ∈ cpus, c.Runs ∧ maxIntDigits < (Nat.toDigits 10 c.index).length)
    (addresses : Dict ℤ String) : (cpus.map Cpu.text).foldlM readBlock addresses = none := by
  induction cpus generalizing addresses with
  | nil =>
    obtain ⟨c, hc, -⟩ := h
    cases hc
  | cons c cpus ih =>
    rw [List.map_cons, List.foldlM_cons]
    obtain ⟨far, hmem, hruns, hlong⟩ := h
    rcases List.mem_cons.1 hmem with rfl | hmem
    · rw [readBlock_runs hruns, if_neg (not_le.2 hlong)]
      rfl
    · have hrest := ih ⟨far, hmem, hruns, hlong⟩
      cases readBlock addresses c.text with
      | none => rfl
      | some next => exact hrest next

theorem attributes_running {cpus : List Cpu} (hnodup : (cpus.map Cpu.index).Nodup) :
    Attributes ((running cpus).foldl (fun addresses e => addresses.set e.1 e.2) ∅) cpus := by
  have hkeys : ((∅ : Dict ℤ String).keys ++ (running cpus).map Prod.fst).Nodup := by
    have hsub : ((cpus.filter fun c => c.Runs).map Cpu.index).Sublist (cpus.map Cpu.index) :=
      (List.filter_sublist).map Cpu.index
    have hcast : (running cpus).map Prod.fst = ((cpus.filter fun c => c.Runs).map Cpu.index).map Nat.cast := by
      rw [running, List.map_map, List.map_map]
      rfl
    rw [Dict.keys_empty, List.nil_append, hcast]
    exact (hsub.nodup hnodup).map Nat.cast_injective
  intro i a
  rw [← Dict.mem_entries, Dict.foldl_set_entries _ _ hkeys, Dict.entries_empty, List.nil_append, running, List.mem_map]
  constructor
  · intro h
    obtain ⟨c, hc, heq⟩ := h
    rw [List.mem_filter, decide_eq_true_iff] at hc
    exact ⟨c, hc.1, hc.2, (Prod.mk.inj heq).1, (Prod.mk.inj heq).2⟩
  · intro h
    obtain ⟨c, hc, hruns, rfl, rfl⟩ := h
    exact ⟨c, List.mem_filter.2 ⟨hc, decide_eq_true hruns⟩, rfl⟩

/-- **The running addresses are those of the CPUs that run.** For CPUs of distinct indices, printed with either line end behind
a preamble in which no line begins with `CPU#`: the result has the address of each CPU that is not halted under its own index
and nothing else, unless the index of such a CPU has more digits than `int` takes. Then it is `ValueError`. -/
theorem running_addresses_printed (lineEnd : LineEnd) (preamble : List (List Char)) (cpus : List Cpu)
    (hpreamble : ∀ l ∈ preamble, IsLine l ∧ ¬ cpuMark <+: l) (hnodup : (cpus.map Cpu.index).Nodup) :
    ((∀ c ∈ cpus, c.Runs → (Nat.toDigits 10 c.index).length ≤ maxIntDigits) →
      ∃ addresses, runningAddresses (printed lineEnd preamble cpus) = some addresses ∧ Attributes addresses cpus) ∧
    ((∃ c ∈ cpus, c.Runs ∧ maxIntDigits < (Nat.toDigits 10 c.index).length) →
      runningAddresses (printed lineEnd preamble cpus) = none) := by
  rw [runningAddresses_eq lineEnd hpreamble]
  exact ⟨fun hshort => ⟨_, foldlM_readBlock hshort ∅, attributes_running hnodup⟩, fun hlong => foldlM_long hlong ∅⟩

def sampleCpu (index : ℕ) (width : Width) (digit hlt : Char) (hdigit : isLowerHex digit = true)
    (hhlt : isDecimal hlt = true) : Cpu where
  index := index
  width := width
  address := digit :: "e0".toList
  fields := "RFL=2 SMM=0".toList
  hlt := hlt
  before := ["RAX=0".toList]
  after := ["ES =0".toList]
  address_ne := List.cons_ne_nil _ _
  address_hex := List.forall_mem_cons.2 ⟨hdigit, List.all_eq_true.1 (by decide)⟩
  fields_line := ⟨by decide, by decide⟩
  hlt_digit := hhlt
  before_registers := List.forall_mem_singleton.2 ⟨⟨by decide, by decide⟩, by decide, by decide, by decide⟩
  after_registers := List.forall_mem_singleton.2 ⟨⟨by decide, by decide⟩, by decide, by decide, by decide⟩

def sampleCpus : List Cpu :=
  [sampleCpu 0 .bits64 'a' '0' (by decide) (by decide), sampleCpu 2 .bits64 'b' '1' (by decide) (by decide),
    sampleCpu 13 .bits32 'c' '0' (by decide) (by decide)]

/-- The instruction pointer of a preamble belongs to no CPU, and of three CPUs the second is halted. -/
theorem running_addresses_printed_crlf :
    running sampleCpus = [(0, "ae0"), (13, "ce0")] ∧
      ∃ addresses, runningAddresses (printed .crlf ["RIP=de0 RFL=2 HLT=0".toList] sampleCpus) = some addresses ∧
        Attributes addresses sampleCpus :=
  ⟨by decide, (running_addresses_printed .crlf ["RIP=de0 RFL=2 HLT=0".toList] sampleCpus
    (List.forall_mem_singleton.2 ⟨⟨by decide, by decide⟩, by decide⟩) (by decide)).1 (by decide)⟩

example : (runningAddresses "CPU#3\r\nRIP=f0 A=1 HLT=0\r\n").map Dict.entries = some [(3, "f0")] := by decide +kernel

def haltedCpu : Cpu := sampleCpu 1 .bits32 'a' '1' (by decide) (by decide)

/-- the same CPU, as it was before it halted -/
def earlierCpu : Cpu := sampleCpu 1 .bits32 'd' '0' (by decide) (by decide)

/-- a CPU whose index has one digit more than `int` takes -/
def farCpu : Cpu := sampleCpu (10 ^ maxIntDigits) .bits64 'a' '0' (by decide) (by decide)

/-- A preamble can be a block itself: what it says of an instruction pointer then goes to the index it names. And no
dictionary comes of an index that is too long. -/
theorem running_addresses_misread :
    (¬ ∃ addresses, runningAddresses (printed .lf earlierCpu.lines [haltedCpu]) = some addresses ∧
      Attributes addresses [haltedCpu]) ∧
    ¬ ∃ addresses, runningAddresses (printed .lf [] [farCpu]) = some addresses ∧ Attributes addresses [farCpu] := by
  refine ⟨fun h => ?_, fun h => ?_⟩
  · obtain ⟨addresses, hread, hattributes⟩ := h
    have hblocks : printed .lf earlierCpu.lines [haltedCpu] = printed .lf [] [earlierCpu, haltedCpu] := by
      rw [printed, printed, List.nil_append, List.flatMap_cons, List.flatMap_cons]
      rfl
    rw [hblocks, runningAddresses_eq .lf (List.forall_mem_nil _), foldlM_readBlock (by decide), Option.some.injEq] at hread
    have hget : addresses.get? 1 = some "de0" := by
      rw [← hread]
      decide
    obtain ⟨c, hc, hruns, -⟩ := (hattributes 1 "de0").1 hget
    rw [List.mem_singleton.1 hc] at hruns
    exact absurd hruns (by decide)
  · obtain ⟨addresses, hread, -⟩ := h
    have hlong : maxIntDigits < (Nat.toDigits 10 farCpu.index).length :=
      not_le.1 fun hle => lt_irrefl _ ((Nat.length_toDigits_le_iff (by norm_num) (by decide)).1 hle)
    rw [runningAddresses_eq .lf (List.forall_mem_nil _),
      foldlM_long ⟨farCpu, List.mem_singleton_self farCpu, rfl, hlong⟩] at hread
    cases hread

end DrtmTest.Registers
