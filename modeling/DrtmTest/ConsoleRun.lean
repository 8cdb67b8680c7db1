/-
Commands at the guest's shell: what each `run` returns of a whole session.

An `Exchange` is what the shell prints for one command behind its prompt: a space, the echo, the output and the prompt, with
terminal sequences anywhere outside the prompt. The bytes of a session are those of its exchanges, however they arrive.

- `commandOutput_exchange`: what `run` makes of the bytes of one exchange is its output without carriage returns and outer
  blanks.
- `run_spec`: a command that returns has cut the console behind the leftmost prompt.
- `each_output_whole`: over any session, the k-th command returns the k-th output, and once all bytes have arrived each
  command returns unless its wait is ended by an error.
- `private_mode_left`: a terminal's sequence of another form stays in the output.
-/
import DrtmTest.Ansi
import DrtmTest.ConsoleCursor

namespace DrtmTest.ConsoleRun

open DrtmTest.Find DrtmTest.Text DrtmTest.QemuVm DrtmTest.Console DrtmTest.ConsoleCursor DrtmTest.Noise DrtmTest.Ansi

/-- what the shell prints for one command, from behind a prompt to behind the next -/
structure Exchange where
  command : String
  output : List Char
  /-- the space, the echo and the output as they are printed, terminal sequences among them -/
  body : List Char
  oneLine : '\n' ∉ command.toList
  plain : '\x1b' ∉ output
  ended : output = [] ∨ output.getLast? = some '\n'
  printed : Sprinkled AnsiSequence ((' ' :: command.toList ++ ['\r', '\n']) ++ output) body
  /-- the prompt stands nowhere but at the end -/
  lone : ∀ i, At (encode shellPrompt) (encodeChars body ++ encode shellPrompt) i → i = (encodeChars body).length

def Exchange.bytes (x : Exchange) : Bytes := encodeChars x.body ++ encode shellPrompt

/-- the output without carriage returns and outer blanks -/
def Exchange.read (x : Exchange) : List Char := strip (x.output.filter (· ≠ '\r'))

/-- the commands in order; an error or a wait without an end is the last of them -/
def runAll (commandTimeout : Time) : Vm → List Command → Vm × List Ran
  | vm, [] => (vm, [])
  | vm, c :: cs =>
    match run commandTimeout vm c with
    | (vm, .printed out) => ((runAll commandTimeout vm cs).1, .printed out :: (runAll commandTimeout vm cs).2)
    | (vm, end_) => (vm, [end_])

/-! ## One exchange -/

theorem strip_newline (cs : List Char) : strip (cs ++ ['\n']) = strip cs := by
  have hspace : isSpace '\n' = true := by decide
  have hdrop : (cs ++ ['\n']).dropWhile isSpace = if cs.dropWhile isSpace = [] then [] else cs.dropWhile isSpace ++ ['\n'] := by
    rw [List.dropWhile_append]
    simp [hspace]
  rw [strip, strip, hdrop]
  split_ifs with h
  · rw [h]
  · rw [List.reverse_append, List.reverse_singleton, List.singleton_append, List.dropWhile_cons_of_pos hspace]

/-- the lines between the first and the last -/
theorem middle_lines {first output last : List Char} (hfirst : '\n' ∉ first) (hlast : '\n' ∉ last)
    (hended : output = [] ∨ output.getLast? = some '\n') :
    strip (['\n'].intercalate (((first ++ '\n' :: (output ++ last)).splitOn '\n').drop 1).dropLast) = strip output := by
  rw [List.splitOn_append_cons_self_of_not_mem hfirst, List.drop_one, List.tail_cons]
  rcases hended with rfl | hended
  · rw [List.nil_append, List.splitOn_eq_singleton hlast]
    rfl
  · obtain ⟨lines, rfl⟩ := List.getLast?_eq_some_iff.1 hended
    rw [List.append_assoc, List.singleton_append, List.splitOn_append_cons_self, List.splitOn_eq_singleton hlast,
      List.dropLast_concat, List.intercalate_splitOn, strip_newline]

/-- **One exchange.** What is read of its bytes is its output, whatever stands on the echoed line and wherever terminal
sequences come between. -/
theorem commandOutput_exchange (x : Exchange) : commandOutput (decodeReplace x.bytes) = x.read := by
  have hdecode : decodeReplace x.bytes = x.body ++ shellPrompt.toList := by
    rw [Exchange.bytes, encode, ← encodeChars_append, decodeReplace_encodeChars]
  have hbase : (' ' :: x.command.toList ++ ['\r', '\n']) ++ x.output =
      (' ' :: x.command.toList ++ ['\r']) ++ '\n' :: x.output := by simp
  obtain ⟨echo, rest, hbody, hecho, hrest⟩ := (hbase ▸ x.printed).split
  obtain ⟨before, out, rfl, hbefore, hout⟩ := hrest.at_head
  have hline : '\n' ∉ echo ++ before := by
    have hcommand : '\n' ∉ ' ' :: x.command.toList ++ ['\r'] := by simp [x.oneLine]
    rw [List.mem_append, not_or]
    exact ⟨hecho.not_mem hcommand fun _ hp => hp.newline_not_mem,
      hbefore.not_mem List.not_mem_nil fun _ hp => hp.newline_not_mem⟩
  have hfirst : '\n' ∉ stripAnsi (echo ++ before) := fun h => hline (mem_of_mem_stripAnsiFrom h)
  have hstrip := stripAnsi_newline hline (out ++ shellPrompt.toList)
  have htext : stripAnsi (x.body ++ shellPrompt.toList) = stripAnsi (echo ++ before) ++ '\n' :: (x.output ++ shellPrompt.toList) := by
    have hprompt : stripAnsi shellPrompt.toList = shellPrompt.toList := stripAnsi_plain (by decide)
    rw [hbody, ← hprompt, ← stripAnsi_sprinkled hout x.plain, hprompt, ← hstrip]
    simp only [List.append_assoc, List.cons_append]
  have hended : x.output.filter (· ≠ '\r') = [] ∨ (x.output.filter (· ≠ '\r')).getLast? = some '\n' := by
    rcases x.ended with h | h
    · exact Or.inl (by rw [h]; rfl)
    · obtain ⟨lines, hlines⟩ := List.getLast?_eq_some_iff.1 h
      exact Or.inr (by simp [hlines])
  have hkept : ∀ cs : List Char, '\n' ∉ cs → '\n' ∉ cs.filter (· ≠ '\r') := fun cs h hm => h (List.mem_filter.1 hm).1
  rw [hdecode, commandOutput, htext, List.filter_append, List.filter_cons_of_pos (by decide), List.filter_append]
  exact middle_lines (hkept _ hfirst) (hkept _ (by decide)) hended

theorem cut_exchange (x : Exchange) (rest : Bytes) : cut (encode shellPrompt) (x.bytes ++ rest) = some (x.bytes, rest) := by
  have hat : At (encode shellPrompt) x.bytes (encodeChars x.body).length := by
    refine ⟨by rw [Exchange.bytes, List.length_append]; omega, ?_⟩
    rw [Exchange.bytes, List.drop_left]
  have hfind : find (encode shellPrompt) x.bytes = some (encodeChars x.body).length :=
    find_eq_some.2 ⟨hat, fun j hj hat' => absurd (x.lone j hat') hj.ne⟩
  have hlength : (encodeChars x.body).length + (encode shellPrompt).length = x.bytes.length := by
    rw [Exchange.bytes, List.length_append]
  rw [cut_found (find_extend (List.prefix_append _ _) hfind), hlength, List.take_left, List.drop_left]

/-- an exchange that has arrived has its prompt -/
theorem find_exchange (x : Exchange) (rest : Bytes) : find (encode shellPrompt) (x.bytes ++ rest) ≠ none := by
  intro hnone
  have hcut := cut_exchange x rest
  rw [cut, ends, hnone] at hcut
  cases hcut

/-! ## One command -/

/-- a command that returns has cut the console behind the leftmost prompt; one that does not has found none -/
theorem run_spec (commandTimeout : Time) (vm : Vm) (c : Command) :
    vm.reader.serialBuf <+: (run commandTimeout vm c).1.reader.serialBuf ∧
      match run commandTimeout vm c with
      | (vm', .printed out) => ∃ slice, out = commandOutput (decodeReplace slice) ∧
          vm'.cursor = vm.cursor + slice.length ∧
          cut (encode shellPrompt) (vm'.reader.serialBuf.drop vm.cursor) = some (slice, vm'.unread)
      | (vm', _) => find (encode shellPrompt) (vm'.reader.serialBuf.drop vm.cursor) = none := by
  let vm₀ : Vm := { vm with sent := vm.sent ++ [encode c.command ++ carriageReturn] }
  let s : Scripted := ⟨waitCall shellPrompt commandTimeout, c.started, c.first, c.later⟩
  have hgrows := expect_grows vm₀ s
  have hspec := expect_spec vm₀ s
  have hmissed : (∀ slice, (expect vm₀ s).2 ≠ .returned slice) →
      find (encode shellPrompt) (expect vm₀ s).1.unread = none := expect_missed (show shellPrompt ≠ "" by decide)
  rw [run]
  rcases he : expect vm₀ s with ⟨vm', out⟩
  rw [he] at hgrows hspec hmissed
  cases out with
  | returned slice => exact ⟨hgrows, slice, rfl, hspec.1, hspec.2⟩
  | _ =>
    refine ⟨hgrows, ?_⟩
    have hnone := hmissed fun slice h => by cases h
    rw [Vm.unread, show vm'.cursor = vm.cursor from hspec] at hnone
    exact hnone

theorem runAll_grows (commandTimeout : Time) (vm : Vm) (cs : List Command) :
    vm.reader.serialBuf <+: (runAll commandTimeout vm cs).1.reader.serialBuf := by
  induction cs generalizing vm with
  | nil => exact List.prefix_rfl
  | cons c cs ih =>
    have hgrows := (run_spec commandTimeout vm c).1
    rcases hrun : run commandTimeout vm c with ⟨vm', out⟩
    rw [hrun] at hgrows
    simp only [runAll, hrun]
    cases out with
    | printed out => exact hgrows.trans (ih vm')
    | _ => exact hgrows

/-! ## A session -/

/-- the bytes of a session -/
def printed (xs : List Exchange) : Bytes := xs.flatMap Exchange.bytes

theorem printed_cons (x : Exchange) (xs : List Exchange) : printed (x :: xs) = x.bytes ++ printed xs := List.flatMap_cons

/-- the first command of a session that returns takes the bytes of its exchange -/
theorem run_exchange {commandTimeout : Time} {vm vm' : Vm} {c : Command} {x : Exchange} {rest out : _}
    (hrun : run commandTimeout vm c = (vm', .printed out))
    (hbytes : vm'.reader.serialBuf.drop vm.cursor <+: x.bytes ++ rest) :
    out = x.read ∧ vm'.cursor = vm.cursor + x.bytes.length := by
  have hspec := (run_spec commandTimeout vm c).2
  rw [hrun] at hspec
  obtain ⟨slice, hout, hcur, hcut⟩ := hspec
  have hslice := cut_extend hbytes hcut
  rw [cut_exchange x rest] at hslice
  obtain ⟨rfl, -⟩ := Prod.mk.inj (Option.some.inj hslice)
  exact ⟨hout.trans (commandOutput_exchange x), hcur⟩

/-- **Each command gets its own output, whole.** For every session, whatever the commands and their outputs, wherever
terminal sequences stand and however the bytes arrive: the `k`-th command that returns returns the `k`-th output, and
once all bytes have arrived every command returns, unless a wait ends in an error. -/
theorem each_output_whole (commandTimeout : Time) (vm : Vm) (xs : List Exchange) (cs : List Command)
    (hcommands : cs.map Command.command = xs.map Exchange.command) (rest : Bytes)
    (hbytes : (runAll commandTimeout vm cs).1.reader.serialBuf.drop vm.cursor <+: printed xs ++ rest) :
    (∀ (k : ℕ) out, (runAll commandTimeout vm cs).2[k]? = some (.printed out) → some out = (xs[k]?).map Exchange.read) ∧
      (printed xs <+: (runAll commandTimeout vm cs).1.reader.serialBuf.drop vm.cursor →
        (∀ e, .raised e ∉ (runAll commandTimeout vm cs).2) →
        (runAll commandTimeout vm cs).2 = xs.map fun x => .printed x.read) := by
  have hlength : cs.length = xs.length := by
    rw [← List.length_map Command.command, hcommands, List.length_map]
  clear hcommands
  induction cs generalizing vm xs with
  | nil =>
    obtain rfl : xs = [] := List.length_eq_zero_iff.1 hlength.symm
    exact ⟨(fun k out h => by cases h), fun _ _ => rfl⟩
  | cons c cs ih =>
    obtain ⟨x, xs, rfl⟩ := List.exists_cons_of_length_eq_add_one hlength.symm
    rw [printed_cons, List.append_assoc] at hbytes
    rw [printed_cons]
    have hmissed := (run_spec commandTimeout vm c).2
    rcases hrun : run commandTimeout vm c with ⟨vm', out⟩
    rw [hrun] at hmissed
    have hgrows := runAll_grows commandTimeout vm' cs
    simp only [runAll, hrun] at hbytes ⊢
    cases out with
    | printed out =>
      obtain ⟨hout, hcur⟩ := run_exchange hrun ((hgrows.drop vm.cursor).trans hbytes)
      have hdrop : (runAll commandTimeout vm' cs).1.reader.serialBuf.drop vm'.cursor =
          ((runAll commandTimeout vm' cs).1.reader.serialBuf.drop vm.cursor).drop x.bytes.length := by
        rw [hcur, List.drop_drop]
      have hrest := hbytes.drop x.bytes.length
      rw [← hdrop, List.drop_left] at hrest
      obtain ⟨heach, hall⟩ := ih vm' xs hrest (Nat.succ.inj hlength)
      constructor
      · intro k out' hk
        rcases k with _ | k
        · cases hk
          exact congrArg some hout
        · exact heach k out' hk
      · intro harrived hraised
        have harrived' := harrived.drop x.bytes.length
        rw [← hdrop, List.drop_left] at harrived'
        have hrests := hall harrived' fun e he => hraised e (List.mem_cons_of_mem _ he)
        exact List.cons_eq_cons.2 ⟨congrArg Ran.printed hout, hrests⟩
    | raised e =>
      refine ⟨fun k out' hk => ?_, fun _ hraised => absurd (List.mem_singleton_self _) (hraised e)⟩
      rcases k with _ | k <;> cases hk
    | waiting w =>
      refine ⟨fun k out' hk => ?_, fun harrived _ => ?_⟩
      · rcases k with _ | k <;> cases hk
      · obtain ⟨more, hmore⟩ := harrived
        have hnone : find (encode shellPrompt) (vm'.reader.serialBuf.drop vm.cursor) = none := hmissed
        rw [← hmore, List.append_assoc] at hnone
        exact absurd hnone (find_exchange x _)

theorem lone_of_range {before : Bytes}
    (h : ∀ i ∈ List.range (before.length + (encode shellPrompt).length + 1),
      encode shellPrompt <+: (before ++ encode shellPrompt).drop i → i = before.length) (i : ℕ)
    (hat : At (encode shellPrompt) (before ++ encode shellPrompt) i) : i = before.length := by
  refine h i (List.mem_range.2 (Nat.lt_succ_of_le ?_)) hat.2
  rw [← List.length_append]
  exact hat.1

/-- a PCR read with the shell's mode switch between the echo and the output -/
def readExchange : Exchange where
  command := "tpm2_pcrread sha256:17"
  output := "  sha256:\r\n    17: 0x1F\r\n".toList
  body := (' ' :: "tpm2_pcrread sha256:17".toList ++ ['\r', '\n']) ++
    ('\x1b' :: '[' :: "?2004".toList ++ ['l'] ++ "  sha256:\r\n    17: 0x1F\r\n".toList)
  oneLine := by decide
  plain := by decide
  ended := Or.inr (by decide)
  printed := (Sprinkled.refl _).append (.piece (.control "?2004".toList 'l' (List.all_eq_true.1 (by decide)) (by decide)) (.refl _))
  lone := lone_of_range (by decide +kernel)

/-- a command without output -/
def silentExchange : Exchange where
  command := "sync"
  output := []
  body := ' ' :: "sync".toList ++ ['\r', '\n'] ++ []
  oneLine := by decide
  plain := by decide
  ended := Or.inl rfl
  printed := .refl _
  lone := lone_of_range (by decide +kernel)

/-- the read with its prompt split over two chunks, then the command without output -/
def twoCommands : List Command :=
  [⟨"tpm2_pcrread sha256:17", 0, showing (readExchange.bytes.take 70) 1, [showing (readExchange.bytes.drop 70) 2]⟩,
    ⟨"sync", 3, showing silentExchange.bytes 4, []⟩]

def isRaised : Ran → Bool
  | .raised _ => true
  | _ => false

theorem each_output_whole_two : (runAll 60 fresh twoCommands).2 =
    [.printed "sha256:\n    17: 0x1F".toList, .printed []] := by
  have hbytes : (runAll 60 fresh twoCommands).1.reader.serialBuf.drop fresh.cursor =
      printed [readExchange, silentExchange] := by decide +kernel
  have hraised : (runAll 60 fresh twoCommands).2.any isRaised = false := by decide +kernel
  have hall := (each_output_whole 60 fresh [readExchange, silentExchange] twoCommands rfl []
    (by rw [hbytes, List.append_nil])).2 (by rw [hbytes]) fun e he => by
      rw [List.any_eq_false] at hraised
      exact hraised _ he rfl
  have hread : readExchange.read = "sha256:\n    17: 0x1F".toList := by decide +kernel
  rw [hall, ← hread]
  rfl

/-- the body of a command whose output stands behind a private mode, a complete sequence `_ANSI_RE` does not spell -/
def privateBody : List Char := (' ' :: "cat log".toList ++ ['\r', '\n']) ++ ("\x1b[=3h".toList ++ "ok\r\n".toList)

/-- the output of a session of one command -/
def onlyOutput : List Ran → Option (List Char)
  | [.printed o] => some o
  | _ => none

/-- everything else is as an exchange has it, and `run` returns the sequence with the output -/
theorem private_mode_left :
    Sprinkled TerminalSequence ((' ' :: "cat log".toList ++ ['\r', '\n']) ++ "ok\r\n".toList) privateBody ∧
      '\x1b' ∉ "ok\r\n".toList ∧ "ok\r\n".toList.getLast? = some '\n' ∧
      (∀ i, At (encode shellPrompt) (encodeChars privateBody ++ encode shellPrompt) i → i = (encodeChars privateBody).length) ∧
      onlyOutput (runAll 60 fresh [⟨"cat log", 0, showing (encodeChars privateBody ++ encode shellPrompt) 1, []⟩]).2 =
        some "\x1b[=3hok".toList ∧ strip ("ok\r\n".toList.filter (· ≠ '\r')) = "ok".toList := by
  refine ⟨(Sprinkled.refl _).append (.piece ?_ (.refl _)), by decide, by decide, lone_of_range (by decide +kernel),
    by decide +kernel, by decide⟩
  exact .control ['=', '3'] [] 'h' (by simp) (by simp) (by decide)

end DrtmTest.ConsoleRun
