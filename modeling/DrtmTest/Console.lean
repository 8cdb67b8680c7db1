/-
Lean model of the boot sequence of `drtmtest/console.py`: the waits it makes, what it reads off the GRUB menu, and
`select_entry` as a program that one poll after the other drives.

- `menuTitles`: the titles of one menu render, in their order and each once.
- `run`: one command at the shell, and what its output is read as.
- `selectPoll`: one pass of the wait `select_entry` is in, and what it does with the end of it: the next wait, the key it
  presses, the error it raises.
-/
import DrtmTest.QemuVm

namespace DrtmTest.Console

open DrtmTest.Text DrtmTest.QemuVm

def bootPrompt : String := "ENTER to boot directly"

def menuReady : String := "The highlighted entry will be executed automatically"

def anyKey : String := "Press any key to continue"

def xenBanner : String := "Xen version "

def linuxBanner : String := "Linux version"

def loginPrompt : String := "login:"

def shellPrompt : String := "root@tb:~#"

/-- what ends a boot early -/
def failures : List String := ["Panic on CPU", "Kernel panic", "doesn't exist or does not contain a /dev"]

def carriageReturn : Bytes := [0x0D]

/-- how long GRUB may take to draw the highlight after a key -/
def keyTimeout : Time := 10

/-- the two waits of `wait_for_login` -/
def waitForLogin (bootTimeout : Time) (banner : String) : List Call :=
  [⟨banner, bootTimeout, failures, Dict.empty.set anyKey carriageReturn, idleTimeout⟩,
    ⟨loginPrompt, bootTimeout, failures, ∅, idleTimeout⟩]

/-! ## The menu -/

def isUpper (c : Char) : Bool := 'A' ≤ c ∧ c ≤ 'Z'

def isLower (c : Char) : Bool := 'a' ≤ c ∧ c ≤ 'z'

def isDigit (c : Char) : Bool := '0' ≤ c ∧ c ≤ '9'

/-- how long the terminal escape at the head is -/
def escapeLength : List Char → Option ℕ
  | '\x1b' :: '[' :: cs =>
    let parameters := cs.takeWhile fun c => isDigit c || c = ';' || c = '?'
    match cs.drop parameters.length with
    | c :: _ => if isUpper c || isLower c then some (parameters.length + 3) else none
    | [] => none
  | '\x1b' :: c :: d :: _ =>
    if c = '(' ∨ c = ')' then (if isUpper d || isDigit d then some 3 else none)
    else if c = '=' ∨ c = '>' then some 2 else none
  | ['\x1b', c] => if c = '=' ∨ c = '>' then some 2 else none
  | _ => none

/-- `skip` characters are still part of an escape -/
def stripAnsiFrom : ℕ → List Char → List Char
  | _, [] => []
  | skip + 1, _ :: cs => stripAnsiFrom skip cs
  | 0, c :: cs =>
    match escapeLength (c :: cs) with
    | some n => stripAnsiFrom (n - 1) cs
    | none => c :: stripAnsiFrom 0 cs

def stripAnsi (text : List Char) : List Char := stripAnsiFrom 0 text

def isTitleChar (c : Char) : Bool := isUpper c || isLower c || isDigit c || c = ' ' || c = '(' || c = ')'

/-- the shortest run of title characters with two blanks behind it, and how much the run and its blanks take -/
def titleBody : List Char → List Char → Option (List Char × ℕ)
  | _, [] => none
  | body, c :: cs =>
    if isTitleChar c then
      if 2 ≤ (cs.takeWhile isSpace).length then
        some (body ++ [c], body.length + 1 + (cs.takeWhile isSpace).length)
      else titleBody (body ++ [c]) cs
    else none

/-- the title at the head, behind the marker if there is one, and how much it takes -/
def titleAt (cs : List Char) : Option (List Char × ℕ) :=
  let marker := if cs.head? = some '*' then 1 else 0
  let word := "Boot ".toList
  if word <+: cs.drop marker then
    (titleBody [] (cs.drop (marker + word.length))).map fun t => (word ++ t.1, marker + word.length + t.2)
  else none

/-- `_TITLE_RE.findall`: `skip` characters are still part of a match -/
def findTitlesFrom : ℕ → List Char → List (List Char)
  | _, [] => []
  | skip + 1, _ :: cs => findTitlesFrom skip cs
  | 0, c :: cs =>
    match titleAt (c :: cs) with
    | some (t, n) => t :: findTitlesFrom (n - 1) cs
    | none => findTitlesFrom 0 cs

/-- the titles in the order GRUB lists them, from one menu render -/
def menuTitles (menu : List Char) : List String :=
  ((findTitlesFrom 0 (stripAnsi menu)).map String.ofList).eraseDups

/-! ## Commands at the shell -/

def waitCall (needle : String) (timeout : Time) : Call := ⟨needle, timeout, [], ∅, idleTimeout⟩

/-- the text up to the prompt without the echoed command line and the prompt that ends the output -/
def commandOutput (out : List Char) : List Char :=
  let lines := ((stripAnsi out).filter (· ≠ '\r')).splitOn '\n'
  strip (['\n'].intercalate (lines.drop 1).dropLast)

/-- what a command printed, or how the wait for its end stands -/
inductive Ran where
  | printed (out : List Char)
  | raised (e : ExpectError)
  | waiting (w : Wait)

/-- a command, and what the world shows the wait for its end -/
structure Command where
  command : String
  started : Time
  first : Poll
  later : List Poll

/-- one command at the shell -/
def run (commandTimeout : Time) (vm : Vm) (c : Command) : Vm × Ran :=
  let vm := { vm with sent := vm.sent ++ [encode c.command ++ carriageReturn] }
  match expect vm ⟨waitCall shellPrompt commandTimeout, c.started, c.first, c.later⟩ with
  | (vm, .returned slice) => (vm, .printed (commandOutput (decodeReplace slice)))
  | (vm, .raised e) => (vm, .raised e)
  | (vm, .waiting w) => (vm, .waiting w)

/-! ## What a command prints -/

def xenTag : List Char := "(XEN)".toList

/-- `_XEN_LINE_RE.sub`: the flag is set inside a hypervisor line -/
def removeXenFrom : Bool → List Char → List Char
  | _, [] => []
  | true, c :: cs => if c = '\n' then c :: removeXenFrom false cs else removeXenFrom true cs
  | false, c :: cs => if xenTag <+: c :: cs then removeXenFrom true cs else c :: removeXenFrom false cs

def removeXenLines (out : List Char) : List Char := removeXenFrom false out

/-- the bytes a hex dump spells, `none` for `ValueError` -/
def hexDump (out : List Char) : Option Bytes :=
  Bytes.fromHexChars ((removeXenLines out).filter fun c => !isSpace c)

def isHexDigit (c : Char) : Bool := isDigit c || ('a' ≤ c ∧ c ≤ 'f') || ('A' ≤ c ∧ c ≤ 'F')

/-- what stands behind the mark between an index and its value -/
def afterMark : List Char → Option (List Char)
  | ':' :: ' ' :: '0' :: 'x' :: cs => some cs
  | _ => none

/-- `_PCR_RE` at the head: the index, the value and the text behind them -/
def pcrAt (cs : List Char) : Option ((List Char × List Char) × List Char) :=
  match afterMark ((cs.dropWhile isDecimal).dropWhile isSpace) with
  | none => none
  | some rest =>
    let index := cs.takeWhile isDecimal
    let value := rest.takeWhile isHexDigit
    if index ≠ [] ∧ value ≠ [] then some ((index, value), rest.dropWhile isHexDigit) else none

/-- `_PCR_RE.findall`: `skip` characters are still part of a match -/
def findPcrsFrom : ℕ → List Char → List (List Char × List Char)
  | _, [] => []
  | skip + 1, _ :: cs => findPcrsFrom skip cs
  | 0, c :: cs =>
    match pcrAt (c :: cs) with
    | some (entry, rest) => entry :: findPcrsFrom (cs.length - rest.length) cs
    | none => findPcrsFrom 0 cs

def findPcrs (out : List Char) : List (List Char × List Char) := findPcrsFrom 0 out

/-- the most digits `int` reads -/
def maxIntDigits : ℕ := 4300

inductive PcrsError where
  /-- what the wait for the prompt raised -/
  | expect (e : ExpectError)
  | lookupError (missing : List ℕ) (out : List Char)
  /-- `int` of too many digits -/
  | valueError (digits : ℕ)

/-- the PCRs by index from what `tpm2_pcrread` printed -/
def readPcrs (indices : List ℕ) (out : List Char) : Except PcrsError (Dict ℕ (List Char)) :=
  match (findPcrs out).find? fun e => maxIntDigits < e.1.length with
  | some e => .error (.valueError e.1.length)
  | none =>
    let found := Dict.ofPairs ((findPcrs out).map fun e => (number e.1, e.2.map Char.toLower))
    let missing := indices.filter fun i => i ∉ found.keys
    if missing ≠ [] then .error (.lookupError missing out)
    else .ok (Dict.ofKeys indices fun i => (found.get? i).getD [])

def pcrread (indices : List ℕ) (bank : String) : String :=
  "tpm2_pcrread " ++ bank ++ ":" ++ ",".intercalate (indices.map toString)

/-- `pcrs`, `none` while its wait has no end -/
def pcrs (commandTimeout : Time) (vm : Vm) (indices : List ℕ) (bank : String) (started : Time) (first : Poll)
    (later : List Poll) : Vm × Option (Except PcrsError (Dict ℕ (List Char))) :=
  match run commandTimeout vm ⟨pcrread indices bank, started, first, later⟩ with
  | (vm, .printed out) => (vm, some (readPcrs indices out))
  | (vm, .raised e) => (vm, some (.error (.expect e)))
  | (vm, .waiting _) => (vm, none)

/-! ## `select_entry` -/

inductive SelectError where
  /-- what a wait raised -/
  | expect (e : ExpectError)
  | lookupError (title : String) (titles : List String)
  /-- GRUB did not move the highlight -/
  | runtimeError (expected : String)

/-- what `select_entry` writes to the serial port -/
inductive Press where
  /-- the answer to the firmware's prompt -/
  | answer
  /-- the Down of one step, the second time when `again` -/
  | down (step : ℕ) (again : Bool)
  | enter
  deriving DecidableEq

/-- where `select_entry` is -/
inductive Select where
  | prompt (w : Wait)
  | menu (w : Wait)
  | moving (titles : List String) (step : ℕ) (again : Bool) (w : Wait)
  | done (titles : List String)
  | failed (e : SelectError)

/-- the entry a step moves to -/
def expected (titles : List String) (step : ℕ) : String := titles.getD (step + 1) ""

def moveCall (titles : List String) (step : ℕ) : Call := waitCall ("*" ++ expected titles step) keyTimeout

def selectBegin (boot : Bool) (bootTimeout : Time) (cursor : ℕ) (now : Time) : Select :=
  if boot then .prompt (begin (waitCall bootPrompt bootTimeout) cursor now)
  else .menu (begin (waitCall menuReady bootTimeout) cursor now)

/-- one press of `_move_down` -/
def press (titles : List String) (step : ℕ) (again : Bool) (cursor : ℕ) (now : Time) : Select × Option Press :=
  (.moving titles step again (begin (moveCall titles step) cursor now), some (.down step again))

/-- the head of the loop over the steps -/
def nextStep (title : String) (titles : List String) (step : ℕ) (cursor : ℕ) (now : Time) : Select × Option Press :=
  if step < titles.idxOf title then press titles step false cursor now else (.done titles, some .enter)

/-- what follows the firmware's prompt. `now` is the clock where the next wait begins. -/
def afterPrompt (bootTimeout : Time) (cursor : ℕ) (now : Time) : Outcome → Select × Option Press
  | .waiting w => (.prompt w, none)
  | .raised e => (.failed (.expect e), none)
  | .returned _ => (.menu (begin (waitCall menuReady bootTimeout) cursor now), some .answer)

def afterMenu (title : String) (cursor : ℕ) (now : Time) : Outcome → Select × Option Press
  | .waiting w => (.menu w, none)
  | .raised e => (.failed (.expect e), none)
  | .returned slice =>
    let titles := menuTitles (decodeReplace slice)
    if title ∈ titles then nextStep title titles 0 cursor now else (.failed (.lookupError title titles), none)

def afterMove (title : String) (titles : List String) (step : ℕ) (again : Bool) (cursor : ℕ) (now : Time) :
    Outcome → Select × Option Press
  | .waiting w => (.moving titles step again w, none)
  | .raised (.timedOut _ _ _) =>
    if again then (.failed (.runtimeError (expected titles step)), none) else press titles step true cursor now
  | .raised e => (.failed (.expect e), none)
  | .returned _ => nextStep title titles (step + 1) cursor now

/-- one pass of the wait `select_entry` is in, and what follows it -/
def selectPoll (title : String) (bootTimeout : Time) (vm : Vm) (p : Poll) (now : Time) :
    Select → Vm × Select × Option Press
  | .prompt w =>
    let (vm, out) := pass (waitCall bootPrompt bootTimeout) vm w p
    (vm, afterPrompt bootTimeout vm.cursor now out)
  | .menu w =>
    let (vm, out) := pass (waitCall menuReady bootTimeout) vm w p
    (vm, afterMenu title vm.cursor now out)
  | .moving titles step again w =>
    let (vm, out) := pass (moveCall titles step) vm w p
    (vm, afterMove title titles step again vm.cursor now out)
  | s => (vm, s, none)

end DrtmTest.Console
