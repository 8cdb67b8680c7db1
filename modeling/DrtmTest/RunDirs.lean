/-
Lean model of the numbered log directories of a session (`_next_run_number` and `run_log_dir` of `drtmtest/session.py`).

The logs directory is a dictionary of names, `none` where it does not exist. Sessions run one after the other; between two of
them anything may be made in the directory and nothing is deleted.

- `nextRunNumber_isNext`: the next number is one more than the largest a run directory carries.
- `runNumber_runDirName`: the name of a run directory reads back as its number, up to the limit.
- `runSession_spec`: a session makes one new directory with the next number, or exits and makes none.
- `run_numbers_grow`: so over any sequence of sessions the numbers grow, no directory is used twice, and behind run 9999
  every session exits.
-/
import DrtmTest.Core.Decimal
import DrtmTest.Core.Dict

namespace DrtmTest.RunDirs

open DrtmTest.Text DrtmTest.Decimal

/-! ## Model -/

structure Date where
  year : ℕ
  month : ℕ
  day : ℕ

/-- `date.isoformat()` -/
def Date.isoformat (d : Date) : List Char :=
  zeroPadded 4 d.year ++ '-' :: (zeroPadded 2 d.month ++ '-' :: zeroPadded 2 d.day)

/-- a `datetime`: its date, and its time and offset as `isoformat` writes them -/
structure Moment where
  date : Date
  time : String

def Moment.isoformat (now : Moment) : String := String.ofList now.date.isoformat ++ "T" ++ now.time

/-- what the logs directory has under a name -/
inductive Node where
  | file
  /-- a directory, with what `run_log_dir` writes into it -/
  | dir (files : Dict String String)

def Node.isDir : Node → Bool
  | .file => false
  | .dir _ => true

/-- the logs directory, if it exists -/
abbrev Logs := Option (Dict String Node)

def maxRunNumber : ℕ := 9999

/-- `_RUN_DIR_RE.match`, and the number in it -/
def runNumber (name : String) : Option ℕ :=
  let cs := name.toList
  if (cs.take 4).all isDecimal = true ∧ cs[4]? = some '-' then some (number (cs.take 4)) else none

def nextRunNumber : Logs → ℕ
  | none => 1
  | some entries => (entries.entries.filterMap fun e => if e.2.isDir then runNumber e.1 else none).foldr max 0 + 1

def runDirName (number : ℕ) (date : Date) : String := String.ofList (zeroPadded 4 number ++ '-' :: date.isoformat)

/-- `mkdir(parents=True)`: the entries behind it, `none` for `FileExistsError` -/
def mkdir (logs : Logs) (name : String) : Option (Dict String Node) :=
  if name ∈ (logs.getD ∅).keys then none else some ((logs.getD ∅).set name (.dir ∅))

inductive RunError where
  /-- `pytest.exit` -/
  | exit (reason : String) (returncode : ℕ)
  | fileExists (name : String)

def limitReason (logsDir : String) : String :=
  logsDir ++ " has reached run " ++ toString maxRunNumber ++
    ", the 4-digit limit. Clean out old runs before testing again."

/-- the logs directory, and the run directory the session has made, if it has -/
structure State where
  logs : Logs
  runLogDir : Option String

/-- `run_log_dir`: the name of the run directory in the logs directory `logsDir` -/
def runLogDir (logsDir : String) (s : State) (now : Moment) : Except RunError String × State :=
  match s.runLogDir with
  | some name => (.ok name, s)
  | none =>
    let number := nextRunNumber s.logs
    if maxRunNumber < number then (.error (.exit (limitReason logsDir) 1), s)
    else
      let name := runDirName number now.date
      match mkdir s.logs name with
      | none => (.error (.fileExists name), s)
      | some entries =>
        (.ok name, ⟨some (entries.set name (.dir (Dict.empty.set "timestamp.txt" (now.isoformat ++ "\n")))), some name⟩)

/-! ## Sessions -/

/-- a session: what has been made in the logs directory since the one before, and when it asks for its run directory -/
structure Session where
  made : List (String × Node)
  first : Moment
  later : List Moment

/-- something is made under a name that is free -/
def make (logs : Logs) (e : String × Node) : Logs := some ((logs.getD ∅).setdefault e.1 e.2)

/-- what the calls of a session return, and the state behind them -/
def calls (logsDir : String) : State → List Moment → List (Except RunError String) × State
  | s, [] => ([], s)
  | s, now :: later =>
    let (answer, s) := runLogDir logsDir s now
    let (answers, s) := calls logsDir s later
    (answer :: answers, s)

/-- a session that has run: the logs directory where it first asks for its run directory, what it got, and the logs
directory behind it -/
structure Ran where
  before : Logs
  answers : List (Except RunError String)
  after : Logs

def runSession (logsDir : String) (logs : Logs) (s : Session) : Ran :=
  let before := s.made.foldl make logs
  let (answers, state) := calls logsDir ⟨before, none⟩ (s.first :: s.later)
  ⟨before, answers, state.logs⟩

def runSessions (logsDir : String) : Logs → List Session → List Ran
  | _, [] => []
  | logs, s :: ss =>
    let r := runSession logsDir logs s
    r :: runSessions logsDir r.after ss

/-- a run directory carries the number -/
def Carries (logs : Logs) (n : ℕ) : Prop :=
  ∃ entries name files, logs = some entries ∧ entries.get? name = some (.dir files) ∧ runNumber name = some n

/-- one more than the largest number a run directory carries, 1 where none does -/
def IsNext (logs : Logs) (n : ℕ) : Prop :=
  (∃ m, Carries logs m ∧ (∀ k, Carries logs k → k ≤ m) ∧ n = m + 1) ∨ (∀ k, ¬ Carries logs k) ∧ n = 1

/-- no file is named like a run directory -/
def Plain (logs : Logs) : Prop := ∀ entries name, logs = some entries → entries.get? name = some .file → runNumber name = none

/-- the session made one new directory, which carries `n`, and got it from every call -/
def Makes (r : Ran) (n : ℕ) (name : String) : Prop :=
  runNumber name = some n ∧ (∀ a ∈ r.answers, a = .ok name) ∧ name ∉ (r.before.getD ∅).keys ∧
    ∃ files, r.after = some ((r.before.getD ∅).set name (.dir files))

/-- every call of the session ended it, and no directory was made -/
def Exits (r : Ran) : Prop := (∀ a ∈ r.answers, ∃ reason, a = .error (.exit reason 1)) ∧ r.after = r.before

/-- `n` is the next number, and the session made the directory that carries it or, behind the limit, exited -/
def Numbered (r : Ran) (n : ℕ) : Prop :=
  IsNext r.before n ∧ r.answers ≠ [] ∧ ((n ≤ maxRunNumber ∧ ∃ name, Makes r n name) ∨ (maxRunNumber < n ∧ Exits r))

/-! ## The next number -/

theorem carries_iff {entries : Dict String Node} {n : ℕ} : Carries (some entries) n ↔
    n ∈ entries.entries.filterMap fun e => if e.2.isDir then runNumber e.1 else none := by
  rw [List.mem_filterMap]
  constructor
  · intro h
    obtain ⟨_, name, files, heq, hget, hname⟩ := h
    cases heq
    exact ⟨(name, .dir files), Dict.mem_entries.2 hget, hname⟩
  · intro h
    obtain ⟨⟨name, node⟩, hmem, hname⟩ := h
    cases node with
    | file => cases hname
    | dir files => exact ⟨entries, name, files, rfl, Dict.mem_entries.1 hmem, hname⟩

/-- the largest of a list, where it has one -/
theorem foldr_max (l : List ℕ) : (∀ n ∈ l, n ≤ l.foldr max 0) ∧ (l = [] ∨ l.foldr max 0 ∈ l) := by
  induction l with
  | nil => exact ⟨List.forall_mem_nil _, Or.inl rfl⟩
  | cons a l ih =>
    rw [List.foldr_cons]
    refine ⟨List.forall_mem_cons.2 ⟨Nat.le_max_left _ _, fun n hn => (ih.1 n hn).trans (Nat.le_max_right _ _)⟩, Or.inr ?_⟩
    rcases ih.2 with rfl | hmem
    · exact List.mem_singleton.2 (Nat.max_zero a)
    · rcases Nat.le_total a (l.foldr max 0) with hle | hle
      · rw [Nat.max_eq_right hle]
        exact List.mem_cons_of_mem a hmem
      · rw [Nat.max_eq_left hle]
        exact List.mem_cons_self

theorem nextRunNumber_isNext (logs : Logs) : IsNext logs (nextRunNumber logs) := by
  cases logs with
  | none =>
    refine Or.inr ⟨fun k h => ?_, rfl⟩
    obtain ⟨_, _, _, hnone, -⟩ := h
    cases hnone
  | some entries =>
    obtain ⟨hle, hmem⟩ := foldr_max (entries.entries.filterMap fun e => if e.2.isDir then runNumber e.1 else none)
    rcases hmem with hnil | hmem
    · refine Or.inr ⟨fun k h => ?_, ?_⟩
      · rw [carries_iff, hnil] at h
        cases h
      · rw [nextRunNumber, hnil]
        rfl
    · exact Or.inl ⟨_, carries_iff.2 hmem, fun k h => hle k (carries_iff.1 h), rfl⟩

theorem IsNext.lt {logs : Logs} {n k : ℕ} (h : IsNext logs n) (hk : Carries logs k) : k < n := by
  rcases h with ⟨m, -, hle, rfl⟩ | ⟨hnone, -⟩
  · exact Nat.lt_succ_of_le (hle k hk)
  · exact absurd hk (hnone k)

/-! ## The name of a run directory -/

/-- The name reads back as the number: up to the limit it has four digits. -/
theorem runNumber_runDirName {n : ℕ} (h : n ≤ maxRunNumber) (date : Date) : runNumber (runDirName n date) = some n := by
  have hlength : (zeroPadded 4 n).length = 4 := zeroPadded_length (by norm_num) (Nat.lt_succ_of_le h)
  have htake : (zeroPadded 4 n ++ '-' :: date.isoformat).take 4 = zeroPadded 4 n := List.take_left' hlength
  have hmark : (zeroPadded 4 n ++ '-' :: date.isoformat)[4]? = some '-' := by
    rw [List.getElem?_append_right hlength.le, hlength]
    rfl
  have hall : (zeroPadded 4 n).all isDecimal = true := List.all_eq_true.2 fun _ => isDecimal_zeroPadded
  rw [runNumber, runDirName, String.toList_ofList]
  simp only [htake, hmark, hall, and_self, if_true, number_zeroPadded]

/-! ## One session -/

theorem mkdir_new {logs : Logs} {name : String} (h : name ∉ (logs.getD ∅).keys) :
    mkdir logs name = some ((logs.getD ∅).set name (.dir ∅)) := if_neg h

/-- Nothing has the name yet: a directory with it carries a smaller number, and a file is not named so. -/
theorem runDirName_new {logs : Logs} (hlogs : Plain logs) (h : nextRunNumber logs ≤ maxRunNumber) (date : Date) :
    runDirName (nextRunNumber logs) date ∉ (logs.getD ∅).keys := by
  intro hmem
  cases logs with
  | none => cases hmem
  | some entries =>
    have hread := runNumber_runDirName h date
    obtain ⟨node, hget⟩ := Dict.mem_keys.1 hmem
    cases node with
    | file =>
      have hnone := hlogs entries _ rfl hget
      rw [hread] at hnone
      cases hnone
    | dir files => exact lt_irrefl _ ((nextRunNumber_isNext (some entries)).lt ⟨entries, _, files, rfl, hget, hread⟩)

theorem runLogDir_exit {logs : Logs} (h : maxRunNumber < nextRunNumber logs) (logsDir : String) (now : Moment) :
    runLogDir logsDir ⟨logs, none⟩ now = (.error (.exit (limitReason logsDir) 1), ⟨logs, none⟩) := if_pos h

theorem runLogDir_make {logs : Logs} (hlogs : Plain logs) (h : nextRunNumber logs ≤ maxRunNumber) (logsDir : String)
    (now : Moment) : ∃ files, runLogDir logsDir ⟨logs, none⟩ now = (.ok (runDirName (nextRunNumber logs) now.date),
      ⟨some ((logs.getD ∅).set (runDirName (nextRunNumber logs) now.date) (.dir files)),
        some (runDirName (nextRunNumber logs) now.date)⟩) := by
  refine ⟨Dict.empty.set "timestamp.txt" (now.isoformat ++ "\n"), ?_⟩
  simp only [runLogDir, if_neg (not_lt.2 h), mkdir_new (runDirName_new hlogs h now.date), Dict.set_set]

/-- behind the first call every call returns the same directory -/
theorem calls_made (logsDir : String) (logs : Logs) (name : String) (moments : List Moment) :
    calls logsDir ⟨logs, some name⟩ moments = (moments.map fun _ => .ok name, ⟨logs, some name⟩) := by
  induction moments with
  | nil => rfl
  | cons now later ih => simp only [calls, runLogDir, ih, List.map_cons]

theorem calls_exit {logs : Logs} (h : maxRunNumber < nextRunNumber logs) (logsDir : String) (moments : List Moment) :
    calls logsDir ⟨logs, none⟩ moments =
      (moments.map fun _ => .error (.exit (limitReason logsDir) 1), ⟨logs, none⟩) := by
  induction moments with
  | nil => rfl
  | cons now later ih => simp only [calls, runLogDir_exit h, ih, List.map_cons]

theorem exits_of_lt {logs : Logs} {s : Session} (logsDir : String)
    (h : maxRunNumber < nextRunNumber (s.made.foldl make logs)) : Exits (runSession logsDir logs s) := by
  rw [runSession]
  simp only [calls_exit h]
  refine ⟨fun a ha => ?_, rfl⟩
  obtain ⟨_, -, rfl⟩ := List.mem_map.1 ha
  exact ⟨limitReason logsDir, rfl⟩

theorem makes_of_le {logs : Logs} {s : Session} (logsDir : String) (hlogs : Plain (s.made.foldl make logs))
    (h : nextRunNumber (s.made.foldl make logs) ≤ maxRunNumber) :
    ∃ name, Makes (runSession logsDir logs s) (nextRunNumber (s.made.foldl make logs)) name := by
  obtain ⟨files, hcall⟩ := runLogDir_make hlogs h logsDir s.first
  refine ⟨runDirName (nextRunNumber (s.made.foldl make logs)) s.first.date, ?_⟩
  rw [runSession]
  simp only [calls, hcall, calls_made]
  refine ⟨runNumber_runDirName h s.first.date, fun a ha => ?_, runDirName_new hlogs h s.first.date, files, rfl⟩
  rcases List.mem_cons.1 ha with rfl | ha
  · rfl
  · obtain ⟨_, -, rfl⟩ := List.mem_map.1 ha
    rfl

theorem runSession_spec {logs : Logs} {s : Session} (logsDir : String) (hlogs : Plain (s.made.foldl make logs)) :
    Numbered (runSession logsDir logs s) (nextRunNumber (s.made.foldl make logs)) := by
  refine ⟨nextRunNumber_isNext _, List.cons_ne_nil _ _, ?_⟩
  rcases Nat.lt_or_ge maxRunNumber (nextRunNumber (s.made.foldl make logs)) with h | h
  · exact Or.inr ⟨h, exits_of_lt logsDir h⟩
  · exact Or.inl ⟨h, makes_of_le logsDir hlogs h⟩

/-! ## What is kept -/

theorem carries_make {logs : Logs} {k : ℕ} (h : Carries logs k) (e : String × Node) : Carries (make logs e) k := by
  obtain ⟨entries, name, files, rfl, hget, hname⟩ := h
  refine ⟨entries.setdefault e.1 e.2, name, files, rfl, ?_, hname⟩
  have hold : name ∈ entries.keys := Dict.mem_keys.2 ⟨_, hget⟩
  rw [Dict.get?_setdefault, if_neg, hget]
  rintro ⟨rfl, hnew⟩
  exact hnew hold

theorem plain_make {logs : Logs} {e : String × Node} (h : Plain logs) (he : e.2 = .file → runNumber e.1 = none) :
    Plain (make logs e) := by
  intro entries name heq hget
  cases heq
  rw [Dict.get?_setdefault] at hget
  split_ifs at hget with hnew
  · obtain ⟨rfl, -⟩ := hnew
    exact he (Option.some.inj hget)
  · cases logs with
    | none => cases hget
    | some entries => exact h entries name rfl hget

theorem carries_made {logs : Logs} {k : ℕ} (h : Carries logs k) (made : List (String × Node)) :
    Carries (made.foldl make logs) k := by
  induction made generalizing logs with
  | nil => exact h
  | cons e made ih => exact ih (carries_make h e)

theorem plain_made {logs : Logs} {made : List (String × Node)} (h : Plain logs)
    (hmade : ∀ e ∈ made, e.2 = .file → runNumber e.1 = none) : Plain (made.foldl make logs) := by
  induction made generalizing logs with
  | nil => exact h
  | cons e made ih => exact ih (plain_make h (hmade e List.mem_cons_self)) fun e he => hmade e (List.mem_cons_of_mem _ he)

theorem Numbered.carries {r : Ran} {n k : ℕ} (h : Numbered r n) (hk : Carries r.before k) : Carries r.after k := by
  obtain ⟨-, -, ⟨-, name, -, -, hnew, files, hafter⟩ | ⟨-, -, hafter⟩⟩ := h
  · obtain ⟨entries, old, oldFiles, hbefore, hget, hread⟩ := hk
    rw [hbefore, Option.getD_some] at hnew hafter
    refine ⟨_, old, oldFiles, hafter, ?_, hread⟩
    rw [Dict.get?_set, if_neg, hget]
    rintro rfl
    exact hnew (Dict.mem_keys.2 ⟨_, hget⟩)
  · rw [hafter]
    exact hk

theorem Numbered.plain {r : Ran} {n : ℕ} (h : Numbered r n) (hbefore : Plain r.before) : Plain r.after := by
  obtain ⟨-, -, ⟨-, name, -, -, -, files, hafter⟩ | ⟨-, -, hafter⟩⟩ := h
  · intro entries old heq hget
    rw [hafter] at heq
    cases heq
    rw [Dict.get?_set] at hget
    split_ifs at hget
    · cases hget
    · cases hlogs : r.before with
      | none =>
        rw [hlogs] at hget
        cases hget
      | some entries =>
        rw [hlogs, Option.getD_some] at hget
        exact hbefore entries old hlogs hget
  · rw [hafter]
    exact hbefore

/-- the directory a session made is there, under its number -/
theorem Makes.carries {r : Ran} {n : ℕ} {name : String} (h : Makes r n name) : Carries r.after n := by
  obtain ⟨hread, -, -, files, hafter⟩ := h
  exact ⟨_, name, files, hafter, by rw [Dict.get?_set, if_pos rfl], hread⟩

/-- what a session made has its number -/
theorem Numbered.eq {r : Ran} {m n : ℕ} {name : String} (h : Numbered r m) (hmakes : Makes r n name) : m = n := by
  obtain ⟨-, hne, h⟩ := h
  obtain ⟨hread, hall, -⟩ := hmakes
  obtain ⟨a, ha⟩ := List.exists_mem_of_ne_nil _ hne
  rcases h with ⟨-, name', hread', hall', -⟩ | ⟨-, hall', -⟩
  · have hname : name' = name := Except.ok.inj ((hall' a ha).symm.trans (hall a ha))
    rw [hname, hread] at hread'
    exact (Option.some.inj hread').symm
  · obtain ⟨reason, heq⟩ := hall' a ha
    rw [hall a ha] at heq
    cases heq

theorem Numbered.exits {r : Ran} {n : ℕ} (h : Numbered r n) (hk : Carries r.before maxRunNumber) : Exits r := by
  obtain ⟨hnext, -, ⟨hle, -⟩ | ⟨-, hexits⟩⟩ := h
  · exact absurd (hnext.lt hk) (not_lt.2 hle)
  · exact hexits

theorem plain_iff {entries : Dict String Node} :
    Plain (some entries) ↔ ∀ e ∈ entries.entries, e.2.isDir = false → runNumber e.1 = none := by
  constructor
  · intro h e he hfile
    obtain ⟨name, node⟩ := e
    cases node with
    | file => exact h entries name rfl (Dict.mem_entries.1 he)
    | dir files => cases hfile
  · intro h _ name heq hget
    cases heq
    exact h (name, .file) (Dict.mem_entries.2 hget) rfl

/-! ## Sessions one after the other -/

section Sessions

variable {logsDir : String} {logs : Logs} {ss : List Session}

/-- One session keeps what the numbers rest on. -/
theorem runSession_step (logsDir : String) {s : Session} (hlogs : Plain logs) (hmade : ∀ e ∈ s.made, e.2 = .file → runNumber e.1 = none) :
    ∃ n, Numbered (runSession logsDir logs s) n ∧ Plain (runSession logsDir logs s).after := by
  have hbefore : Plain (s.made.foldl make logs) := plain_made hlogs hmade
  exact ⟨_, runSession_spec logsDir hbefore, (runSession_spec logsDir hbefore).plain hbefore⟩

theorem runSessions_numbered (hlogs : Plain logs)
    (hmade : ∀ s ∈ ss, ∀ e ∈ s.made, e.2 = .file → runNumber e.1 = none) :
    ∀ r ∈ runSessions logsDir logs ss, ∃ n, Numbered r n := by
  induction ss generalizing logs with
  | nil => exact List.forall_mem_nil _
  | cons s ss ih =>
    obtain ⟨n, hn, hafter⟩ := runSession_step logsDir hlogs (hmade s List.mem_cons_self)
    exact List.forall_mem_cons.2 ⟨⟨n, hn⟩, ih hafter fun s hs => hmade s (List.mem_cons_of_mem _ hs)⟩

/-- a number that is carried once is carried where any later session starts -/
theorem runSessions_carries (hlogs : Plain logs)
    (hmade : ∀ s ∈ ss, ∀ e ∈ s.made, e.2 = .file → runNumber e.1 = none) {k : ℕ} (hk : Carries logs k) :
    ∀ r ∈ runSessions logsDir logs ss, Carries r.before k := by
  induction ss generalizing logs with
  | nil => exact List.forall_mem_nil _
  | cons s ss ih =>
    obtain ⟨n, hn, hafter⟩ := runSession_step logsDir hlogs (hmade s List.mem_cons_self)
    have hbefore : Carries (runSession logsDir logs s).before k := carries_made hk s.made
    exact List.forall_mem_cons.2 ⟨hbefore, ih hafter (fun s hs => hmade s (List.mem_cons_of_mem _ hs)) (hn.carries hbefore)⟩

theorem runSessions_pairwise (hlogs : Plain logs)
    (hmade : ∀ s ∈ ss, ∀ e ∈ s.made, e.2 = .file → runNumber e.1 = none) :
    (runSessions logsDir logs ss).Pairwise fun r r' => ∀ k, Carries r.after k → Carries r'.before k := by
  induction ss generalizing logs with
  | nil => exact List.Pairwise.nil
  | cons s ss ih =>
    obtain ⟨n, hn, hafter⟩ := runSession_step logsDir hlogs (hmade s List.mem_cons_self)
    have hlater : ∀ s ∈ ss, ∀ e ∈ s.made, e.2 = .file → runNumber e.1 = none :=
      fun s hs => hmade s (List.mem_cons_of_mem _ hs)
    exact List.pairwise_cons.2 ⟨fun r hr k hk => runSessions_carries hafter hlater hk r hr, ih hafter hlater⟩

end Sessions

/-- **Run numbers grow and read back.** Whatever is in the logs directory, and whatever else is made there between the
sessions, as long as no file is named like a run directory: each session takes one more than the largest number a run
directory carries and makes one new directory, whose name reads back as that number, or exits where the number is beyond the
limit. A later session has a larger number and another directory, and where run 9999 exists a session exits. -/
theorem run_numbers_grow (logsDir : String) (logs : Logs) (ss : List Session) (hlogs : Plain logs)
    (hmade : ∀ s ∈ ss, ∀ e ∈ s.made, e.2 = .file → runNumber e.1 = none) :
    (∀ r ∈ runSessions logsDir logs ss, ∃ n, Numbered r n) ∧
      ((runSessions logsDir logs ss).Pairwise fun r r' =>
        ∀ n n' name name', Makes r n name → Makes r' n' name' → n < n' ∧ name ≠ name') ∧
      (∀ r ∈ runSessions logsDir logs ss, Carries r.before maxRunNumber → Exits r) ∧
      (runSessions logsDir logs ss).Pairwise fun r r' => Carries r.after maxRunNumber → Exits r' := by
  have hnumbered : ∀ r ∈ runSessions logsDir logs ss, ∃ n, Numbered r n := runSessions_numbered hlogs hmade
  have hkept : (runSessions logsDir logs ss).Pairwise fun r r' => ∀ k, Carries r.after k → Carries r'.before k :=
    runSessions_pairwise hlogs hmade
  have hexits : ∀ r ∈ runSessions logsDir logs ss, Carries r.before maxRunNumber → Exits r := by
    intro r hr hlimit
    obtain ⟨_, hn⟩ := hnumbered r hr
    exact hn.exits hlimit
  refine ⟨hnumbered, ?_, hexits, hkept.imp_of_mem fun _ hr' hbefore hlimit => hexits _ hr' (hbefore _ hlimit)⟩
  refine hkept.imp_of_mem fun {r r'} _ hr' hbefore n n' name name' hmakes hmakes' => ?_
  obtain ⟨m, hm⟩ := hnumbered r' hr'
  have hlt : n < n' := hm.eq hmakes' ▸ hm.1.lt (hbefore n hmakes.carries)
  refine ⟨hlt, fun heq => ?_⟩
  have hread := hmakes.1
  rw [heq, hmakes'.1] at hread
  exact hlt.ne' (Option.some.inj hread)

/-- run 9997, a directory and a file that are no runs -/
def sampleLogs : Logs :=
  some (Dict.ofPairs [("9997-2026-06-30", .dir ∅), ("99999-kept", .dir ∅), ("README.txt", .file), ("0042-notes", .dir ∅)])

def sampleSessions : List Session :=
  [⟨[("badges", .dir ∅)], ⟨⟨2026, 7, 1⟩, "08:00:00+02:00"⟩, [⟨⟨2026, 7, 2⟩, "00:01:00+02:00"⟩]⟩,
    ⟨[], ⟨⟨2025, 12, 31⟩, "08:00:00+01:00"⟩, []⟩, ⟨[], ⟨⟨2026, 7, 3⟩, "08:00:00+02:00"⟩, []⟩]

/-- The second call of the first session is on the next day. -/
theorem run_numbers_grow_limit :
    ((runSessions "logs" sampleLogs sampleSessions).map fun r => r.answers.map Except.toOption) =
        [[some "9998-2026-07-01", some "9998-2026-07-01"], [some "9999-2025-12-31"], [none]] ∧
      (∀ r ∈ runSessions "logs" sampleLogs sampleSessions, ∃ n, Numbered r n) ∧
      ((runSessions "logs" sampleLogs sampleSessions).Pairwise fun r r' =>
        ∀ n n' name name', Makes r n name → Makes r' n' name' → n < n' ∧ name ≠ name') ∧
      (∀ r ∈ runSessions "logs" sampleLogs sampleSessions, Carries r.before maxRunNumber → Exits r) ∧
      (runSessions "logs" sampleLogs sampleSessions).Pairwise fun r r' => Carries r.after maxRunNumber → Exits r' :=
  ⟨by decide +kernel, run_numbers_grow "logs" sampleLogs sampleSessions (plain_iff.2 (by decide +kernel))
    (by simp [sampleSessions])⟩

end DrtmTest.RunDirs
