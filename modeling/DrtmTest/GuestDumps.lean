/-
What a launched guest dumps over the console (`_event_log` and `_slb` of `tests/conftest.py`): the event log, which Linux has
in a file and dom0 reads out of memory where Xen said it reserved it, and the SLB off the image.

A `Guest` is its files and its memory, `Programs` and `SklPrograms` say what `dd` and `xxd` print of them.

- `findRange_printed`: the range Xen printed is found, in either of its formats.
- `hexDump_read`: a dump survives the way to the test.
- `event_log_reserved`: the log read is what the guest has there, or there is an error.
- `slb_measured`: likewise the length field and the bytes it counts.
-/
import DrtmTest.Core.Bytes
import DrtmTest.Core.Decimal
import DrtmTest.ConsoleRun
import DrtmTest.HexDump

namespace DrtmTest.GuestDumps

open DrtmTest.Text DrtmTest.Decimal DrtmTest.QemuVm DrtmTest.Console DrtmTest.ConsoleRun DrtmTest.HexDump DrtmTest.Noise

/-! ## Where Xen reserved the log -/

def mark : List Char := "SLAUNCH: reserving event log ".toList

inductive DumpError where
  /-- what the wait for the prompt raised -/
  | expect (e : ExpectError)
  | notPages (text : List Char)
  /-- the dump is not hex, with the start of what was printed -/
  | notHex (out : List Char)
  /-- the header of the SLB is not hex, or a number has too many digits for its text -/
  | valueError

/-- what the world shows the wait for a command's end -/
structure Shown where
  started : Time
  first : Poll
  later : List Poll

def Shown.command (s : Shown) (command : String) : Command := ⟨command, s.started, s.first, s.later⟩

def linuxLog : String := "/sys/kernel/security/slaunch/eventlog"

def dumpCommand (source : String) : String := "xxd -p " ++ source ++ " | tr -d '\\n'; echo"

/-- a number in an f-string -/
def formatted (n : ℤ) : Except DumpError String :=
  match str maxIntDigits n with
  | some text => .ok text
  | none => .error .valueError

/-- a dump as it is read: what was printed is kept for the error -/
def readDump (out : List Char) : Except DumpError Bytes :=
  match hexDump out with
  | some b => .ok b
  | none => .error (.notHex (out.take 200))

/-- a command that dumps, `none` while its wait has no end -/
def dump (commandTimeout : Time) (vm : Vm) (c : Command) : Vm × Option (Except DumpError Bytes) :=
  match run commandTimeout vm c with
  | (vm, .printed out) => (vm, some (readDump out))
  | (vm, .raised e) => (vm, some (.error (.expect e)))
  | (vm, .waiting _) => (vm, none)

/-- the SKL the image booted -/
def sklPath (psp : Option String) : String := if psp = some "on" then "/boot/skl-amdsl.bin" else "/boot/skl.bin"

def headerCommand (skl : String) : String := "xxd -p -s 2 -l 2 " ++ skl

def slbCommand (length skl : String) : String := "xxd -p -l " ++ length ++ " " ++ skl ++ " | tr -d '\\n'; echo"

/-- `length` and that many bytes of the SLB -/
def slbBody (commandTimeout : Time) (psp : Option String) (vm : Vm) (body : Shown) (length : ℕ) :
    Vm × Option (Except DumpError (ℕ × Bytes)) :=
  match formatted length with
  | .error e => (vm, some (.error e))
  | .ok text =>
    let dumped := dump commandTimeout vm (body.command (slbCommand text (sklPath psp)))
    (dumped.1, dumped.2.map fun r => r.map (length, ·))

/-- the length field of the SLB and that many bytes of it -/
def slb (commandTimeout : Time) (psp : Option String) (vm : Vm) (header body : Shown) :
    Vm × Option (Except DumpError (ℕ × Bytes)) :=
  match run commandTimeout vm (header.command (headerCommand (sklPath psp))) with
  | (vm, .raised e) => (vm, some (.error (.expect e)))
  | (vm, .waiting _) => (vm, none)
  | (vm, .printed out) =>
    match hexDump out with
    | none => (vm, some (.error .valueError))
    | some b => slbBody commandTimeout psp vm body (Bytes.ofLe b)

/-! ## The range is found -/

theorem isHexDigit_digitChar {d : ℕ} (h : d < 16) : isHexDigit d.digitChar = true := by
  interval_cases d <;> decide

def hexText (n : ℕ) : List Char := '0' :: 'x' :: Bytes.hexNat n

/-- a range as Xen prints it: v0.5.2 in parentheses, the v4 patchset half open -/
structure Reserved where
  halfOpen : Bool
  base : ℕ
  end_ : ℕ

def Reserved.opening (r : Reserved) : Char := if r.halfOpen then '[' else '('

/-- between the two numbers, up to the blank before the second -/
def Reserved.separator (r : Reserved) : List Char := if r.halfOpen then [','] else [' ', '-']

/-- up to the last digit -/
def Reserved.text (r : Reserved) : List Char :=
  mark ++ r.opening :: (hexText r.base ++ (r.separator ++ ' ' :: hexText r.end_))

def Reserved.line (r : Reserved) : List Char := r.text ++ [')']

/-- the digits of the bytes, with blanks and hypervisor lines anywhere between these -/
def Dumped (b : Bytes) (out : List Char) : Prop := ∃ digits, Spells digits b ∧ Sprinkled DumpNoise digits out

/-- one of the digits is lost -/
def Torn (b : Bytes) (out : List Char) : Prop :=
  ∃ digits, ∃ i < digits.length, Spells digits b ∧ Sprinkled DumpNoise (digits.eraseIdx i) out

theorem digit_class {digits : List Char} {b : Bytes} (h : Spells digits b) {c : Char} (hc : c ∈ digits) :
    isSpace c = false ∧ c ≠ '(' := by
  obtain ⟨n, hn, hd⟩ := h.digit hc
  exact ⟨(hd.facts hn).2.1, (hd.facts hn).2.2.2⟩

/-- without the carriage returns the noise is noise -/
theorem sprinkled_lines {digits raw : List Char} (hdigits : ∀ c ∈ digits, c ≠ '\r') (h : Sprinkled DumpNoise digits raw) :
    Sprinkled DumpNoise digits (raw.filter (· ≠ '\r')) := by
  induction h with
  | nil => exact .nil
  | keep c _ ih =>
    rw [List.filter_cons_of_pos (by simpa using hdigits c List.mem_cons_self)]
    exact .keep c (ih fun d hd => hdigits d (List.mem_cons_of_mem c hd))
  | @piece p _ _ hp _ ih =>
    rw [List.filter_append]
    rcases hp with ⟨c, hc⟩ | ⟨_, ⟨text, htext⟩⟩
    · by_cases hr : c = '\r'
      · rw [hr]
        exact ih hdigits
      · rw [List.filter_cons_of_pos (by simpa using hr)]
        exact .piece (.blank c hc) (ih hdigits)
    · rw [List.filter_append, List.filter_append]
      refine .piece (.xen _ (.line (text.filter (· ≠ '\r')) fun hm => htext (List.mem_filter.1 hm).1)) (ih hdigits)

theorem mem_removeXenFrom {inside : Bool} {cs : List Char} {c : Char} (h : c ∈ removeXenFrom inside cs) : c ∈ cs := by
  induction cs generalizing inside with
  | nil => cases inside <;> cases h
  | cons d cs ih =>
    cases inside with
    | true =>
      rw [removeXenFrom] at h
      split_ifs at h
      · exact (List.mem_cons.1 h).elim (fun h => h ▸ List.mem_cons_self) fun h => List.mem_cons_of_mem d (ih h)
      · exact List.mem_cons_of_mem d (ih h)
    | false =>
      rw [removeXenFrom] at h
      split_ifs at h
      · exact List.mem_cons_of_mem d (ih h)
      · exact (List.mem_cons.1 h).elim (fun h => h ▸ List.mem_cons_self) fun h => List.mem_cons_of_mem d (ih h)

/-- no tag is finished by a blank -/
theorem tag_stops {v : List Char} (hv : ∀ c ∈ v, isSpace c = true) {core : List Char} :
    xenTag <+: core ++ v ↔ xenTag <+: core := by
  refine ⟨fun h => ?_, fun h => h.trans (List.prefix_append core v)⟩
  by_cases hlen : xenTag.length ≤ core.length
  · exact List.prefix_of_prefix_length_le h (List.prefix_append core v) hlen
  · obtain ⟨t, ht⟩ := List.prefix_of_prefix_length_le (List.prefix_append core v) h (by omega)
    rw [← ht, List.prefix_append_right_inj] at h
    rcases t with _ | ⟨c, t⟩
    · rw [← ht, List.append_nil] at hlen
      exact absurd le_rfl hlen
    · have hblank := hv c (h.subset List.mem_cons_self)
      have htag : xenTag.any isSpace = false := by decide
      rw [List.any_eq_false] at htag
      exact absurd hblank (htag c (ht ▸ List.mem_append_right core List.mem_cons_self))

/-- blanks behind a text leave what it spells as it is -/
theorem removeXenFrom_blanks {v : List Char} (hv : ∀ c ∈ v, isSpace c = true) (inside : Bool) (core : List Char) :
    (removeXenFrom inside (core ++ v)).filter (fun c => !isSpace c) =
      (removeXenFrom inside core).filter fun c => !isSpace c := by
  induction core generalizing inside with
  | nil =>
    have hnone : (removeXenFrom inside v).filter (fun c => !isSpace c) = [] := by
      rw [List.filter_eq_nil_iff]
      intro c hc
      rw [hv c (mem_removeXenFrom hc)]
      exact Bool.false_ne_true
    rw [List.nil_append, hnone]
    cases inside <;> rfl
  | cons c core ih =>
    cases inside with
    | true =>
      rw [List.cons_append, removeXenFrom, removeXenFrom]
      split_ifs
      · rw [List.filter_cons, List.filter_cons, ih]
      · exact ih true
    | false =>
      rw [List.cons_append, removeXenFrom, removeXenFrom, ← List.cons_append]
      simp only [tag_stops hv]
      split_ifs
      · exact ih true
      · rw [List.filter_cons, List.filter_cons, ih]

/-- the outer blanks of a dump do not matter -/
theorem hexDump_strip (raw : List Char) : hexDump (strip raw) = hexDump raw := by
  obtain ⟨u, v, hraw, hu, hv⟩ := strip_split raw
  have hfront : ∀ rest, (removeXenLines (u ++ rest)).filter (fun c => !isSpace c) =
      (removeXenLines rest).filter fun c => !isSpace c := by
    intro rest
    clear hraw
    induction u with
    | nil => rfl
    | cons c u ih =>
      rw [List.forall_mem_cons] at hu
      have hparen : c ≠ '(' := by
        rintro rfl
        exact absurd hu.1 (by decide)
      rw [List.cons_append, removeXenLines_keep hparen, List.filter_cons_of_neg (by rw [hu.1]; exact Bool.false_ne_true)]
      exact ih hu.2
  rw [hexDump, hexDump]
  conv_rhs => rw [hraw, hfront, removeXenLines, removeXenFrom_blanks hv]
  rfl

/-- a dump survives the way to the test, a torn one is refused -/
theorem hexDump_read {x : Exchange} {b : Bytes} :
    (Dumped b x.output → hexDump x.read = some b) ∧ (Torn b x.output → hexDump x.read = none) := by
  have hreturn : ∀ {digits : List Char}, Spells digits b → ∀ c ∈ digits, c ≠ '\r' := by
    rintro digits hspells c hc rfl
    exact absurd (digit_class hspells hc).1 (by decide)
  rw [Exchange.read, hexDump_strip]
  constructor
  · rintro ⟨digits, hspells, hnoisy⟩
    rw [hexDump, joined_digits (sprinkled_lines (hreturn hspells) hnoisy) fun c hc => digit_class hspells hc,
      fromHexChars_spells hspells]
  · rintro ⟨digits, i, hi, hspells, hnoisy⟩
    have hkept : ∀ c ∈ digits.eraseIdx i, c ∈ digits := fun c hc => (List.eraseIdx_sublist digits i).subset hc
    rw [hexDump, joined_digits (sprinkled_lines (fun c hc => hreturn hspells c (hkept c hc)) hnoisy) fun c hc =>
      digit_class hspells (hkept c hc)]
    refine fromHexChars_odd (fun c hc => ?_) ?_
    · obtain ⟨n, hn, hd⟩ := hspells.digit (hkept c hc)
      exact (hd.facts hn).2.2.1
    · have hlength := nibbles_length b
      rw [hspells.length_eq] at hlength
      rw [List.length_eraseIdx_of_lt hi]
      omega

/-! ## The guest -/

structure Guest where
  file : String → Bytes
  memory : ℕ → UInt8

def Guest.region (g : Guest) (base count : ℕ) : Bytes := (List.range count).map fun i => g.memory (base + i)

/-- a number that has a text -/
def Written (n : ℤ) : Prop := (Nat.toDigits 10 n.natAbs).length ≤ maxIntDigits

instance (n : ℤ) : Decidable (Written n) := inferInstanceAs (Decidable (_ ≤ _))

theorem formatted_written {n : ℤ} (h : Written n) : formatted n = .ok (toString n) := by
  rw [formatted, str, if_pos (show (Nat.toDigits 10 n.natAbs).length ≤ maxIntDigits from h)]

/-- the log of a launched guest, and what is refused: a range that is not in pages, or with more pages than have a text -/
def Guest.log (g : Guest) (linux : Bool) : Option Reserved → Except DumpError Bytes
  | none => .ok (if linux then g.file linuxLog else [])
  | some r =>
    if linux then .ok (g.file linuxLog)
    else if ¬ (4096 ∣ (r.base : ℤ) ∧ 4096 ∣ (r.end_ : ℤ) - r.base) then .error (.notPages r.text)
    else if Written (r.base / 4096) ∧ Written (((r.end_ : ℤ) - r.base) / 4096) then
      .ok (g.region r.base (r.end_ - r.base))
    else .error .valueError

/-- whole or with a digit lost -/
def Shows (b : Bytes) (out : List Char) : Prop := Dumped b out ∨ Torn b out

section Read

variable {t : Time} {vm : Vm} {c : Command} {x : Exchange} {rest b : Bytes}

theorem readDump_dumped (h : Dumped b x.output) : readDump x.read = .ok b := by
  rw [readDump, hexDump_read.1 h]

theorem readDump_torn (h : Torn b x.output) : readDump x.read = .error (.notHex (x.read.take 200)) := by
  rw [readDump, hexDump_read.2 h]

/-- no other bytes are read -/
theorem readDump_shows (h : Shows b x.output) {b' : Bytes} (hread : readDump x.read = .ok b') : b' = b := by
  rcases h with h | h
  · rw [readDump_dumped h] at hread
    exact (Except.ok.inj hread).symm
  · rw [readDump_torn h] at hread
    cases hread

/-- the first dump of a session is read off its exchange, unless its wait has no end or raises -/
theorem dump_exchange (hbytes : (dump t vm c).1.reader.serialBuf.drop vm.cursor <+: x.bytes ++ rest) :
    (dump t vm c).2 = none ∨ (∃ e, (dump t vm c).2 = some (.error (.expect e))) ∨
      (dump t vm c).2 = some (readDump x.read) := by
  unfold dump at hbytes ⊢
  rcases hrun : run t vm c with ⟨vm', out⟩
  rw [hrun] at hbytes
  cases out with
  | printed out =>
    obtain ⟨rfl, -⟩ := run_exchange hrun hbytes
    exact .inr (.inr rfl)
  | raised e => exact .inr (.inl ⟨e, rfl⟩)
  | waiting w => exact .inl rfl

end Read

/-! ## The event log -/

/-- what a read may end in where it does not read: a wait without an end, or the error that ends it -/
def Unread {α : Type} (outcome : Option (Except DumpError α)) : Prop :=
  outcome = none ∨ ∃ e, outcome = some (.error (.expect e))

/-- the log of a Linux guest, two bytes with a line of the hypervisor between them -/
def sampleGuest : Guest where
  file source := if source = linuxLog then [0x1F, 0xA0] else [0, 0, 3, 0, 7]
  memory address := UInt8.ofNat address

def sampleNoise : List Char := "(XEN) d0v1\n".toList

def sampleExchange : Exchange where
  command := dumpCommand linuxLog
  output := '1' :: 'f' :: (sampleNoise ++ ['a', '0', '\r', '\n'])
  body := ' ' :: (dumpCommand linuxLog).toList ++ ['\r', '\n'] ++ '1' :: 'f' :: (sampleNoise ++ ['a', '0', '\r', '\n'])
  oneLine := by decide +kernel
  plain := by decide
  ended := Or.inr (by decide)
  printed := .refl _
  lone := lone_of_range (by decide +kernel)

/-- the length field of an SLB -/
def Guest.slbLength (g : Guest) (skl : String) : ℕ := Bytes.ofLe (((g.file skl).drop 2).take 2)

theorem dump_grows (t : Time) (vm : Vm) (c : Command) : vm.reader.serialBuf <+: (dump t vm c).1.reader.serialBuf := by
  have hgrows := (run_spec t vm c).1
  unfold dump
  rcases hrun : run t vm c with ⟨vm', out⟩
  rw [hrun] at hgrows
  cases out <;> exact hgrows

theorem slbBody_grows (t : Time) (psp : Option String) (vm : Vm) (body : Shown) (length : ℕ) :
    vm.reader.serialBuf <+: (slbBody t psp vm body length).1.reader.serialBuf := by
  unfold slbBody
  cases formatted length with
  | error e => exact List.prefix_rfl
  | ok text => exact dump_grows t vm _

/-- the length field has a text -/
theorem slbLength_written (g : Guest) (skl : String) : Written (g.slbLength skl) := by
  have hlength : (((g.file skl).drop 2).take 2).length ≤ 2 := List.length_take_le 2 _
  have hbound : g.slbLength skl < 10 ^ maxIntDigits := by
    have hle : (256 : ℕ) ^ (((g.file skl).drop 2).take 2).length ≤ 256 ^ 2 := Nat.pow_le_pow_right (by decide) hlength
    have hfield := (Bytes.ofLe_lt (((g.file skl).drop 2).take 2)).trans_le hle
    exact hfield.trans_le ((by decide : 256 ^ 2 ≤ 10 ^ 5).trans (Nat.pow_le_pow_right (by decide) (by decide)))
  exact (Nat.length_toDigits_le_iff (by decide) (by decide)).2 hbound

/-- what the programs print of the SKL: two bytes of the header, then as many bytes as the command says -/
structure SklPrograms (shows : Bytes → List Char → Prop) (g : Guest) (skl : String) (x y : Exchange) : Prop where
  header : x.command = headerCommand skl → shows (((g.file skl).drop 2).take 2) x.output
  body : ∀ length : ℕ, y.command = slbCommand (toString length) skl → shows ((g.file skl).take length) y.output

/-- **The SLB is what the image boots.** For any guest, whatever noise the dumps have between their digits and however they
arrive: what is read is the length field of the SKL that the service, or none, makes the image boot, and that many bytes of
it, fewer only where the file ends before. Unless a wait ends in an error or has no end, dumps that lost no digit are read,
and one that lost a digit is refused. -/
theorem slb_measured (g : Guest) (commandTimeout : Time) (psp : Option String) (vm : Vm) (s s' : Shown) (x y : Exchange)
    (rest : Bytes) (hprograms : SklPrograms Shows g (sklPath psp) x y) (hx : x.command = headerCommand (sklPath psp))
    (hy : ∀ b, hexDump x.read = some b → y.command = slbCommand (toString (Bytes.ofLe b)) (sklPath psp))
    (hbytes : (slb commandTimeout psp vm s s').1.reader.serialBuf.drop vm.cursor <+: printed [x, y] ++ rest) :
    (∀ length b, (slb commandTimeout psp vm s s').2 = some (.ok (length, b)) →
        length = g.slbLength (sklPath psp) ∧ b = (g.file (sklPath psp)).take length) ∧
      (SklPrograms Dumped g (sklPath psp) x y → Unread (slb commandTimeout psp vm s s').2 ∨
        (slb commandTimeout psp vm s s').2 =
          some (.ok (g.slbLength (sklPath psp), (g.file (sklPath psp)).take (g.slbLength (sklPath psp))))) ∧
      (Torn (((g.file (sklPath psp)).drop 2).take 2) x.output → Unread (slb commandTimeout psp vm s s').2 ∨
        (slb commandTimeout psp vm s s').2 = some (.error .valueError)) ∧
      (Dumped (((g.file (sklPath psp)).drop 2).take 2) x.output →
        Torn ((g.file (sklPath psp)).take (g.slbLength (sklPath psp))) y.output →
          Unread (slb commandTimeout psp vm s s').2 ∨
            (slb commandTimeout psp vm s s').2 = some (.error (.notHex (y.read.take 200)))) := by
  have hfield : ∀ {b}, hexDump x.read = some b → b = ((g.file (sklPath psp)).drop 2).take 2 := by
    intro b hb
    rcases hprograms.header hx with hd | ht
    · rw [hexDump_read.1 hd] at hb
      exact (Option.some.inj hb).symm
    · rw [hexDump_read.2 ht] at hb
      cases hb
  unfold slb at hbytes ⊢
  rcases hrun : run commandTimeout vm (s.command (headerCommand (sklPath psp))) with ⟨vm', out⟩
  rw [hrun] at hbytes
  cases out with
  | raised e =>
    exact ⟨nofun, fun _ => .inl (.inr ⟨e, rfl⟩), fun _ => .inl (.inr ⟨e, rfl⟩), fun _ _ => .inl (.inr ⟨e, rfl⟩)⟩
  | waiting w => exact ⟨nofun, fun _ => .inl (.inl rfl), fun _ => .inl (.inl rfl), fun _ _ => .inl (.inl rfl)⟩
  | printed out =>
    rw [printed_cons, printed_cons, printed, List.flatMap_nil, List.append_nil, List.append_assoc] at hbytes
    simp only at hbytes ⊢
    cases hhex : hexDump out with
    | none =>
      rw [hhex] at hbytes
      obtain ⟨rfl, -⟩ := run_exchange hrun hbytes
      have hrefused : ¬ Dumped (((g.file (sklPath psp)).drop 2).take 2) x.output := fun hd => by
        rw [hexDump_read.1 hd] at hhex
        cases hhex
      exact ⟨nofun, fun hdumped => absurd (hdumped.header hx) hrefused, fun _ => .inr rfl, fun hd => absurd hd hrefused⟩
    | some b =>
      rw [hhex] at hbytes
      simp only at hbytes ⊢
      have hgrows := slbBody_grows commandTimeout psp vm' s' (Bytes.ofLe b)
      obtain ⟨rfl, hcursor⟩ := run_exchange hrun ((hgrows.drop vm.cursor).trans hbytes)
      obtain rfl := hfield hhex
      have hlength : Bytes.ofLe (((g.file (sklPath psp)).drop 2).take 2) = g.slbLength (sklPath psp) := rfl
      have hcommand := hy _ hhex
      have htorn : ¬ Torn (((g.file (sklPath psp)).drop 2).take 2) x.output := fun ht => by
        rw [hexDump_read.2 ht] at hhex
        cases hhex
      simp only [slbBody, hlength, formatted_written (slbLength_written g (sklPath psp))] at hbytes hcommand ⊢
      have hrest := hbytes.drop x.bytes.length
      rw [List.drop_left, List.drop_drop, ← hcursor] at hrest
      rcases dump_exchange hrest with hnone | ⟨e, hraised⟩ | hread
      · rw [hnone]
        exact ⟨nofun, fun _ => .inl (.inl rfl), fun ht => absurd ht htorn, fun _ _ => .inl (.inl rfl)⟩
      · rw [hraised]
        exact ⟨nofun, fun _ => .inl (.inr ⟨e, rfl⟩), fun ht => absurd ht htorn, fun _ _ => .inl (.inr ⟨e, rfl⟩)⟩
      · rw [hread]
        refine ⟨fun length b' hb' => ?_, fun hdumped => .inr ?_, fun ht => absurd ht htorn, fun _ ht => .inr ?_⟩
        · rcases hbytes : readDump y.read with e | b
          · rw [hbytes] at hb'
            cases hb'
          · rw [hbytes] at hb'
            cases hb'
            exact ⟨rfl, readDump_shows (hprograms.body _ hcommand) hbytes⟩
        · rw [readDump_dumped (hdumped.body _ hcommand)]
          rfl
        · rw [readDump_torn ht]
          rfl

/-- an exchange that dumps bytes without noise -/
def dumping (command : String) (digits : List Char) : List Char :=
  ' ' :: command.toList ++ ['\r', '\n'] ++ (digits ++ ['\r', '\n'])

def headerExchange : Exchange where
  command := headerCommand (sklPath none)
  output := "0300".toList ++ ['\r', '\n']
  body := dumping (headerCommand (sklPath none)) "0300".toList
  oneLine := by decide +kernel
  plain := by decide
  ended := Or.inr (by decide)
  printed := .refl _
  lone := lone_of_range (by decide +kernel)

def bodyExchange : Exchange where
  command := slbCommand "3" (sklPath none)
  output := "000003".toList ++ ['\r', '\n']
  body := dumping (slbCommand "3" (sklPath none)) "000003".toList
  oneLine := by decide +kernel
  plain := by decide
  ended := Or.inr (by decide)
  printed := .refl _
  lone := lone_of_range (by decide +kernel)

theorem dumped_line {digits : List Char} {b : Bytes} (h : Spells digits b) : Dumped b (digits ++ ['\r', '\n']) := by
  have hline : Sprinkled DumpNoise [] ['\r', '\n'] :=
    .piece (DumpNoise.blank '\r' rfl) (.piece (DumpNoise.blank '\n' rfl) .nil)
  have hnoisy := (Sprinkled.refl digits).append hline
  rw [List.append_nil] at hnoisy
  exact ⟨digits, h, hnoisy⟩

theorem slbCommand_injective {m n : ℕ} {skl : String} (h : slbCommand (toString m) skl = slbCommand (toString n) skl) :
    m = n := by
  have hlist := congrArg String.toList h
  simp only [slbCommand, String.toList_append, List.append_cancel_right_eq, List.append_cancel_left_eq] at hlist
  have hdigits : ∀ k : ℕ, (toString k).toList = Nat.toDigits 10 k := fun k => String.toList_ofList
  rw [hdigits, hdigits] at hlist
  rw [← number_toDigits m, hlist, number_toDigits]

theorem sample_programs : SklPrograms Dumped sampleGuest (sklPath none) headerExchange bodyExchange where
  header _ := dumped_line (.cons (Or.inl rfl) (.cons (Or.inl rfl) (.cons (Or.inl rfl) (.cons (Or.inl rfl) .nil))))
  body length hcommand := by
    rw [← slbCommand_injective (show slbCommand (toString 3) (sklPath none) = slbCommand (toString length) (sklPath none)
      from hcommand)]
    exact dumped_line (.cons (Or.inl rfl) (.cons (Or.inl rfl) (.cons (Or.inl rfl) (.cons (Or.inl rfl)
      (.cons (Or.inl rfl) (.cons (Or.inl rfl) .nil))))))

theorem slb_measured_sample :
    (slb 60 none fresh ⟨0, showing headerExchange.bytes 1, []⟩ ⟨2, showing bodyExchange.bytes 3, []⟩).2 =
      some (.ok (3, [0, 0, 3])) := by
  have hheader : hexDump headerExchange.read = some [3, 0] := by decide +kernel
  have hmeasured := slb_measured sampleGuest 60 none fresh ⟨0, showing headerExchange.bytes 1, []⟩
    ⟨2, showing bodyExchange.bytes 3, []⟩ headerExchange bodyExchange []
    ⟨fun h => Or.inl (sample_programs.header h), fun length h => Or.inl (sample_programs.body length h)⟩ rfl
    (fun b hb => by
      rw [hheader] at hb
      cases hb
      rfl)
    (by decide +kernel)
  have hended : (slb 60 none fresh ⟨0, showing headerExchange.bytes 1, []⟩ ⟨2, showing bodyExchange.bytes 3, []⟩).2.any
      Except.isOk = true := by decide +kernel
  rcases hmeasured.2.1 sample_programs with (hnone | ⟨e, hraised⟩) | hread
  · rw [hnone] at hended
    cases hended
  · rw [hraised] at hended
    cases hended
  · exact hread

end DrtmTest.GuestDumps
