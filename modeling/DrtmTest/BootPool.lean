/-
The boots of a session in their pool, beside the tests that wait for them (`_run`, `booted`, `boot_log_dir`, the end of
`pytest_collection_modifyitems` and the start of `pytest_sessionfinish` in `drtmtest/session.py`), and the size of the pool
(`_workers` of `tests/conftest.py`).

The workers start a boot as soon as it is submitted, while collection still submits the next one. A test takes a boot's
result, waiting for it, or runs a boot that was not submitted on its own thread. The session ends after the last test, at a
failure that stops it, or at an interrupt anywhere before.

- `availableGib_line`, `workers_fit`: as many boots as the processors and the free memory allow, and one at least.
- `step_inv`: what every step of a worker or of the tests keeps.
- `boots_overlap_safely`: whatever the order of the steps.
- `waits_end`: a test waits for no boot forever.
-/
import DrtmTest.Collection
import DrtmTest.Core.Pool
import DrtmTest.Entries

namespace DrtmTest.BootPool

open DrtmTest.Collection DrtmTest.Text DrtmTest.Decimal

/-! ## The size of the pool -/

inductive MeminfoError where
  | indexError
  | valueError (word : String)

def availableMark : List Char := "MemAvailable:".toList

/-- the number in a line of `/proc/meminfo`, in GiB -/
def lineGib (limit : ℕ) (line : List Char) : Except MeminfoError ℤ :=
  match (words line)[1]? with
  | none => .error .indexError
  | some word =>
    match int limit word with
    | none => .error (.valueError (String.ofList word))
    | some n => .ok (n / 2 ^ 20)

/-- the loop over the lines -/
def availableGib (limit : ℕ) : ℤ → List (List Char) → Except MeminfoError ℤ
  | gib, [] => .ok gib
  | gib, line :: lines =>
    if availableMark <+: line then
      match lineGib limit line with
      | .ok gib => availableGib limit gib lines
      | .error e => .error e
    else availableGib limit gib lines

/-- `text.removesuffix(suffix)` -/
def removeSuffix (suffix text : List Char) : List Char :=
  if suffix <:+ text then text.take (text.length - suffix.length) else text

/-- `GUEST_MEM_GIB` -/
def guestMemGib (limit : ℕ) (vendor : String) : Option ℤ :=
  int limit (removeSuffix "G".toList (Machine.memory vendor).toList)

/-- `os.cpu_count() or 1` -/
def cpuCount (cpus : Option ℕ) : ℕ := (cpus.filter (· ≠ 0)).getD 1

/-- `_workers`: `lines` are those of `/proc/meminfo` -/
def workers (limit : ℕ) (cpus : Option ℕ) (guestMem : ℤ) (lines : List (List Char)) : Except MeminfoError ℕ :=
  match availableGib limit 0 lines with
  | .error e => .error e
  | .ok gib => .ok (max 1 (min ((cpuCount cpus : ℤ) / Machine.defaultSmp) (gib / guestMem))).toNat

/-! ## The session -/

/-- `boot_log_dir` in the run's directory -/
def bootLogDir (name : String) : String :=
  "boot-" ++ String.ofList ((removeSuffix "_boot".toList name.toList).map fun c => if c = '_' then '-' else c)

variable {R V : Type}

/-- where the thread of the tests is -/
inductive Thread where
  /-- collection, with what is left to submit -/
  | submitting (left : List String)
  | idle
  /-- in `booted`, for the pool's boot -/
  | waiting (name : String)
  /-- in `booted`, for one of its own -/
  | booting (name : String)
  /-- in the pool's `shutdown` -/
  | finishing
  | ended
  deriving DecidableEq

/-- `R` is what a boot leaves: its `Boot`, or what it raised -/
structure State (R : Type) where
  pool : Pool String R
  thread : Thread
  /-- what `booted` returned or raised, in order -/
  answers : List (String × R)
  /-- the boots run on the tests' thread -/
  own : List String

/-- one step of a worker or of the tests' thread, whose fixtures are for `names` -/
inductive Move (R : Type) (names : List String) where
  | worker (a : Pool.Act String R)
  | submit
  | ask (name : {name // name ∈ names})
  /-- the pool's boot is there -/
  | take
  /-- the thread's own boot ends -/
  | booted (r : R)
  /-- the session stops, or is interrupted -/
  | stop
  /-- no boot is running any more -/
  | join

variable {names : List String}

/-- the next step of a worker, or of the tests' thread if it can make this one -/
def step (s : State R) : Move R names → State R
  | .worker a => { s with pool := s.pool.act a }
  | .submit =>
    match s.thread with
    | .submitting (name :: left) => { s with pool := s.pool.submit name, thread := .submitting left }
    | .submitting [] => { s with thread := .idle }
    | _ => s
  | .ask name =>
    if s.thread = .idle then
      -- `_futures` has what was submitted
      if name.1 ∈ s.pool.submitted then { s with thread := .waiting name }
      else { s with thread := .booting name, own := s.own ++ [name.1] }
    else s
  | .take =>
    match s.thread with
    | .waiting name =>
      match s.pool.result? name with
      | some r => { s with thread := .idle, answers := s.answers ++ [(name, r)] }
      | none => s
    | _ => s
  | .booted r =>
    match s.thread with
    | .booting name => { s with thread := .idle, answers := s.answers ++ [(name, r)] }
    | _ => s
  | .stop =>
    if s.thread = .finishing ∨ s.thread = .ended then s
    else { s with pool := s.pool.shutdown, thread := .finishing }
  | .join => if s.thread = .finishing ∧ s.pool.running = [] then { s with thread := .ended } else s

def after (s : State R) (moves : List (Move R names)) : State R := moves.foldl step s

/-- the boots collection submits -/
def submissions (events : List Event) : List String :=
  events.filterMap fun
    | .submit name => some name
    | .prepare _ => none

/-- the boots these tests need -/
def wanted (names : List String) (items : List (Item V)) : List String :=
  submissions (pytestCollectionModifyitems names true false ∅ items).2

/-- collection has its items, and `prepare` is done -/
def start (workers : ℕ) (wanted : List String) : State R where
  pool := .new workers
  thread := .submitting wanted
  answers := []
  own := []

/-- the boot that goes on the tests' thread -/
def Thread.boots : Thread → List String
  | .booting name => [name]
  | _ => []

/-- the boots going on -/
def State.boots (s : State R) : List String := s.pool.running ++ s.thread.boots

/-! ## The invariant -/

/-- what each place of the tests' thread relies on -/
def Place (names wanted : List String) (s : State R) : Thread → Prop
  | .submitting left => s.pool.shut = false ∧ s.pool.submitted ++ left = wanted
  | .idle => s.pool.shut = false ∧ s.pool.submitted = wanted
  | .waiting name => s.pool.shut = false ∧ s.pool.submitted = wanted ∧ name ∈ wanted
  | .booting name => s.pool.shut = false ∧ s.pool.submitted = wanted ∧ name ∈ names ∧ name ∈ s.own
  | .finishing => s.pool.shut = true
  | .ended => s.pool.shut = true ∧ s.pool.running = []

structure Inv (names : List String) (w : ℕ) (wanted : List String) (s : State R) : Prop where
  workers : s.pool.workers = w
  submitted : s.pool.submitted <+: wanted
  place : Place names wanted s s.thread
  own : ∀ name ∈ s.own, name ∉ wanted
  answers : ∀ name r, (name, r) ∈ s.answers → name ∈ wanted → s.pool.result? name = some r

section Inv

variable {w : ℕ} {wanted : List String} {s : State R}

theorem start_inv (names : List String) (w : ℕ) (wanted : List String) : Inv names w wanted (start w wanted : State R) where
  workers := rfl
  submitted := List.nil_prefix
  place := ⟨rfl, rfl⟩
  own name h := by cases h
  answers name r h := by cases h

theorem Inv.worker (h : Inv names w wanted s) (a : Pool.Act String R) :
    Inv names w wanted { s with pool := s.pool.act a } where
  workers := (Pool.later_act s.pool a).workers.trans h.workers
  submitted := by
    rw [Pool.act_submitted]
    exact h.submitted
  place := by
    have hplace := h.place
    cases hthread : s.thread with
    | ended =>
      rw [hthread] at hplace
      exact ⟨(Pool.act_shut s.pool a).trans hplace.1, Pool.act_still (s.pool.shut_queue hplace.1) hplace.2 a⟩
    | _ =>
      rw [hthread] at hplace
      simpa only [Place, Pool.act_submitted, Pool.act_shut] using hplace
  own := h.own
  answers name r hanswer hname := (Pool.later_act s.pool a).result? (h.answers name r hanswer hname)

theorem Inv.submit (h : Inv names w wanted s) (hnodup : wanted.Nodup) {name : String} {left : List String}
    (hthread : s.thread = .submitting (name :: left)) :
    Inv names w wanted { s with pool := s.pool.submit name, thread := .submitting left } := by
  obtain ⟨hopen, hwanted⟩ : s.pool.shut = false ∧ s.pool.submitted ++ name :: left = wanted := by
    have hplace := h.place
    rwa [hthread] at hplace
  have hnew : name ∉ s.pool.submitted := fun hmem =>
    List.disjoint_of_nodup_append (hwanted ▸ hnodup) hmem List.mem_cons_self
  obtain ⟨hsubmitted, hshut⟩ := Pool.submit_new hnew hopen
  have hlater := Pool.later_submit s.pool name
  have hall : (s.pool.submit name).submitted ++ left = wanted := by
    rw [hsubmitted, List.append_assoc, List.singleton_append, hwanted]
  exact ⟨hlater.workers.trans h.workers, ⟨left, hall⟩, ⟨hshut, hall⟩, h.own, fun other r hanswer hother =>
    hlater.result? (h.answers other r hanswer hother)⟩

/-- a test asks while nothing else is going on -/
theorem Inv.ask (h : Inv names w wanted s) (hidle : s.thread = .idle) (name : {name // name ∈ names}) :
    Inv names w wanted (step s (.ask name)) := by
  obtain ⟨hopen, hwanted⟩ : s.pool.shut = false ∧ s.pool.submitted = wanted := by
    have hplace := h.place
    rwa [hidle] at hplace
  rw [step, if_pos hidle]
  split_ifs with hmem
  · exact { h with place := ⟨hopen, hwanted, hwanted ▸ hmem⟩ }
  · refine { h with place := ⟨hopen, hwanted, name.2, ?_⟩, own := fun other hother => ?_ }
    · exact List.mem_append_right _ List.mem_cons_self
    · rcases List.mem_append.1 hother with hother | hother
      · exact h.own other hother
      · rw [List.mem_singleton.1 hother, ← hwanted]
        exact hmem

/-- `booted` is done -/
theorem Inv.answer (h : Inv names w wanted s) {name : String} {r : R} (hopen : s.pool.shut = false)
    (hwanted : s.pool.submitted = wanted) (hr : name ∈ wanted → s.pool.result? name = some r) :
    Inv names w wanted { s with thread := .idle, answers := s.answers ++ [(name, r)] } := by
  refine { h with place := ⟨hopen, hwanted⟩, answers := fun other r' hmem hother => ?_ }
  rcases List.mem_append.1 hmem with hmem | hmem
  · exact h.answers other r' hmem hother
  · cases List.mem_singleton.1 hmem
    exact hr hother

theorem Inv.stop (h : Inv names w wanted s) :
    Inv names w wanted { s with pool := s.pool.shutdown, thread := .finishing } where
  workers := h.workers
  submitted := by
    rw [Pool.submitted_shutdown]
    exact h.submitted
  place := rfl
  own := h.own
  answers name r hanswer hname := (Pool.later_shutdown s.pool).result? (h.answers name r hanswer hname)

/-- Every step keeps the invariant. -/
theorem step_inv (hnodup : wanted.Nodup) (h : Inv names w wanted s) (move : Move R names) :
    Inv names w wanted (step s move) := by
  have hplace := h.place
  cases move with
  | worker a => exact h.worker a
  | submit =>
    rw [step]
    split
    · rename_i hthread
      exact h.submit hnodup hthread
    · rename_i hthread
      rw [hthread, Place, List.append_nil] at hplace
      exact { h with place := hplace }
    · exact h
  | ask name =>
    by_cases hidle : s.thread = .idle
    · exact h.ask hidle name
    · rwa [step, if_neg hidle]
  | take =>
    rw [step]
    split
    · rename_i name hthread
      rw [hthread] at hplace
      split
      · rename_i r hr
        exact h.answer hplace.1 hplace.2.1 fun _ => hr
      · exact h
    · exact h
  | booted r =>
    rw [step]
    split
    · rename_i name hthread
      rw [hthread] at hplace
      exact h.answer hplace.1 hplace.2.1 fun hname => absurd hname (h.own name hplace.2.2.2)
    · exact h
  | stop =>
    rw [step]
    split_ifs
    · exact h
    · exact h.stop
  | join =>
    rw [step]
    split_ifs with hdone
    · rw [hdone.1] at hplace
      exact { h with place := ⟨hplace, hdone.2⟩ }
    · exact h

theorem after_inv (hnodup : wanted.Nodup) (h : Inv names w wanted s) (moves : List (Move R names)) :
    Inv names w wanted (after s moves) := by
  induction moves generalizing s with
  | nil => exact h
  | cons move moves ih => exact ih (step_inv hnodup h move)

/-! ## What later steps leave -/

/-- the pool goes on as a pool does, answers stay, and once the session stops the tests' thread boots nothing -/
structure Onward (s t : State R) : Prop where
  pool : Pool.Later s.pool t.pool
  answers : s.answers <+: t.answers
  own : s.own <+: t.own
  ended : s.thread = .ended → t = { s with pool := t.pool }

theorem Onward.refl (s : State R) : Onward s s :=
  ⟨Pool.Later.refl _, List.prefix_rfl, List.prefix_rfl, fun _ => rfl⟩

theorem Onward.trans {s t u : State R} (h : Onward s t) (h' : Onward t u) : Onward s u where
  pool := h.pool.trans h'.pool
  answers := h.answers.trans h'.answers
  own := h.own.trans h'.own
  ended hended := by
    have ht := h.ended hended
    have hu := h'.ended (by rw [ht]; exact hended)
    rw [hu, ht]

end Inv

/-! ## The host -/

/-- a `/proc/meminfo` -/
structure Meminfo (limit : ℕ) where
  before : List (List Char)
  /-- the blanks before the number, but one -/
  pad : ℕ
  kib : ℕ
  after : List (List Char)
  digits : (Nat.toDigits 10 kib).length ≤ limit
  before_other : ∀ line ∈ before, ¬ availableMark <+: line
  after_other : ∀ line ∈ after, ¬ availableMark <+: line

namespace Meminfo

variable {limit : ℕ} (m : Meminfo limit)

def line : List Char :=
  availableMark ++ ' ' :: (List.replicate m.pad ' ' ++ (Nat.toDigits 10 m.kib ++ ' ' :: "kB\n".toList))

def lines : List (List Char) := m.before ++ m.line :: m.after

theorem words_line : words m.line = [availableMark, Nat.toDigits 10 m.kib, "kB".toList] := by
  have hmark : words availableMark = [availableMark] := by decide
  have hkb : words "kB\n".toList = ["kB".toList] := by decide
  have hblank : ∀ c ∈ List.replicate m.pad ' ', isSpace c = true := fun c hc => by
    rw [List.eq_of_mem_replicate hc]
    decide
  have hdigits : words (Nat.toDigits 10 m.kib) = [Nat.toDigits 10 m.kib] :=
    words_word Nat.toDigits_ne_nil fun c hc => Bool.eq_false_iff.2 (not_space_of_decimal (isDecimal_toDigits hc))
  rw [line, words_append _ (by decide), words_blanks hblank, words_append _ (by decide), hmark, hdigits, hkb]
  rfl

theorem availableGib_line : availableGib limit 0 m.lines = .ok ((m.kib : ℤ) / 2 ^ 20) := by
  have hline : lineGib limit m.line = .ok ((m.kib : ℤ) / 2 ^ 20) := by
    have hword : (words m.line)[1]? = some (Nat.toDigits 10 m.kib) := by rw [words_line]; rfl
    simp only [lineGib, hword, int_toDigits, if_pos m.digits]
  have hother : ∀ (gib : ℤ) {lines : List (List Char)} (rest : List (List Char)),
      (∀ line ∈ lines, ¬ availableMark <+: line) → availableGib limit gib (lines ++ rest) = availableGib limit gib rest := by
    intro gib lines rest h
    induction lines with
    | nil => rfl
    | cons line lines ih =>
      rw [List.cons_append, availableGib, if_neg (h line List.mem_cons_self)]
      exact ih fun l hl => h l (List.mem_cons_of_mem line hl)
  have hafter := hother ((m.kib : ℤ) / 2 ^ 20) [] m.after_other
  rw [List.append_nil] at hafter
  have hmark : availableMark <+: m.line := List.prefix_append _ _
  rw [lines, hother 0 _ m.before_other, availableGib, if_pos hmark, hline]
  exact hafter

end Meminfo

theorem guestMemGib_pos {limit : ℕ} (hlimit : 0 < limit) (vendor : String) :
    ∃ mem : ℤ, guestMemGib limit vendor = some mem ∧ 0 < mem := by
  have hread (digit : Char) (hdigit : isDecimal digit = true) (hpos : 0 < number [digit]) :
      ∃ mem : ℤ, int limit [digit] = some mem ∧ 0 < mem := by
    refine ⟨number [digit], ?_, by exact_mod_cast hpos⟩
    have hlength : [digit].length ≤ limit := hlimit
    rw [int_decimals (List.cons_ne_nil _ _) (by simpa using hdigit), if_pos hlength]
  unfold guestMemGib Machine.memory
  split_ifs
  · exact hread '3' (by decide) (by decide)
  · exact hread '2' (by decide) (by decide)

/-- as many boots as the processors and the memory allow, and one at least -/
theorem workers_fit {limit : ℕ} (m : Meminfo limit) (cpus : Option ℕ) {mem : ℤ} (hmem : 0 < mem) :
    ∃ w, workers limit cpus mem m.lines = .ok w ∧ 0 < w ∧
      (w = 1 ∨ 2 * w ≤ cpuCount cpus ∧ mem * w * 2 ^ 20 ≤ m.kib) := by
  have hsmp : Machine.defaultSmp = 2 := rfl
  set fit : ℤ := min ((cpuCount cpus : ℤ) / 2) ((m.kib : ℤ) / 2 ^ 20 / mem) with hfit
  refine ⟨(max 1 fit).toNat, by simp only [workers, m.availableGib_line, hsmp, hfit], by omega, ?_⟩
  rcases le_or_gt fit 1 with hle | hlt
  · left
    rw [max_eq_left hle]
    rfl
  · right
    have hcpu : fit ≤ (cpuCount cpus : ℤ) / 2 := min_le_left _ _
    have hgib : fit ≤ (m.kib : ℤ) / 2 ^ 20 / mem := min_le_right _ _
    have hw : ((max 1 fit).toNat : ℤ) = fit := by omega
    refine ⟨by omega, ?_⟩
    have hkib : mem * fit ≤ (m.kib : ℤ) / 2 ^ 20 := by
      rw [mul_comm]
      exact (Int.le_ediv_iff_mul_le hmem).1 hgib
    rw [hw]
    omega

/-! ## Whole sessions -/

theorem wanted_keys (names : List String) (items : List (Item V)) :
    wanted names items = (items.zipIdx.foldl (Collected.see names) ⟨∅, ∅⟩).firstWanted.keys := by
  have hsubmissions : ∀ boots : List String, submissions (boots.map .submit) = boots := fun boots => by
    induction boots with
    | nil => rfl
    | cons boot boots ih => exact congrArg (boot :: ·) ih
  rw [wanted, hook_eq]
  simp only
  split_ifs with hnone
  · exact hnone.symm
  · exact hsubmissions _

theorem wanted_nodup (names : List String) (items : List (Item V)) : (wanted names items).Nodup := by
  rw [wanted_keys]
  exact Dict.keys_nodup _

/-- so many guests fit the host, or it is just one -/
def Fits (cpus : Option ℕ) (mem : ℤ) (kib guests : ℕ) : Prop :=
  guests ≤ 1 ∨ 2 * guests ≤ cpuCount cpus ∧ mem * guests * 2 ^ 20 ≤ kib

theorem Fits.of_le {cpus : Option ℕ} {mem : ℤ} {kib w guests : ℕ} (hmem : 0 < mem)
    (hfit : w = 1 ∨ 2 * w ≤ cpuCount cpus ∧ mem * w * 2 ^ 20 ≤ kib) (hle : guests ≤ w) : Fits cpus mem kib guests := by
  rcases hfit with rfl | ⟨hcpus, hkib⟩
  · exact Or.inl hle
  · refine Or.inr ⟨by omega, ?_⟩
    have hmul : mem * guests ≤ mem * w := Int.mul_le_mul_of_nonneg_left (by exact_mod_cast hle) hmem.le
    omega

/-- of a session at any point: the boots it wants, and the host it runs on -/
structure Safe (cpus : Option ℕ) (mem : ℤ) (kib : ℕ) (wanted : List String) (s : State R) : Prop where
  /-- of the boots going on those the tests wanted fit the host -/
  fits : Fits cpus mem kib (s.boots.filter (· ∈ wanted)).length
  /-- beside them goes at most one that no test wanted, on the tests' own thread -/
  beside : s.boots.filter (· ∉ wanted) = s.thread.boots
  alone : s.thread.boots.length ≤ 1
  begun : s.pool.begun <+: wanted
  /-- the boots going on are different boots, with different log directories -/
  boots : (s.boots.map bootLogDir).Nodup
  /-- the tests' thread runs what no test wanted -/
  own : ∀ name ∈ s.own, name ∉ wanted
  /-- every test gets what the one boot left -/
  answers : ∀ name r, (name, r) ∈ s.answers → name ∈ wanted → (name, r) ∈ s.pool.finished
  finished : (s.pool.finished.map Prod.fst).Nodup
  ended : s.thread = .ended → s.boots = [] ∧ s.pool.shut = true

section Safe

variable {w : ℕ} {wanted : List String} {s : State R}

theorem Inv.running_wanted (h : Inv names w wanted s) : ∀ name ∈ s.pool.running, name ∈ wanted := fun _ hname =>
  (s.pool.begun_prefix.trans h.submitted).subset (Pool.mem_begun.2 (Or.inl hname))

/-- the tests' thread boots an entry that no test wanted, and that the session knows -/
theorem Inv.thread_boots (h : Inv names w wanted s) : ∀ name ∈ s.thread.boots, name ∉ wanted ∧ name ∈ names := by
  have hplace := h.place
  cases hthread : s.thread with
  | booting name =>
    rw [hthread] at hplace
    exact List.forall_mem_singleton.2 ⟨h.own name hplace.2.2.2, hplace.2.2.1⟩
  | _ => exact List.forall_mem_nil _

theorem Inv.boots_wanted (h : Inv names w wanted s) : s.boots.filter (· ∈ wanted) = s.pool.running := by
  rw [State.boots, List.filter_append, List.filter_eq_self.2 fun name hname => decide_eq_true (h.running_wanted name hname),
    List.filter_eq_nil_iff.2 fun name hname => by simpa using (h.thread_boots name hname).1, List.append_nil]

theorem Inv.boots_beside (h : Inv names w wanted s) : s.boots.filter (· ∉ wanted) = s.thread.boots := by
  rw [State.boots, List.filter_append, List.filter_eq_nil_iff.2 fun name hname => by simpa using h.running_wanted name hname,
    List.filter_eq_self.2 fun name hname => decide_eq_true (h.thread_boots name hname).1, List.nil_append]

theorem boots_length (thread : Thread) : thread.boots.length ≤ 1 := by
  cases thread <;> simp [Thread.boots]

theorem boots_nodup (thread : Thread) : thread.boots.Nodup := by
  cases thread <;> simp [Thread.boots]

theorem Inv.safe {kib : ℕ} {cpus : Option ℕ} {mem : ℤ} (h : Inv names w wanted s)
    (hnames : ∀ name ∈ wanted, name ∈ names) (hdirs : (names.map bootLogDir).Nodup) (hmem : 0 < mem)
    (hfit : w = 1 ∨ 2 * w ≤ cpuCount cpus ∧ mem * w * 2 ^ 20 ≤ kib) : Safe cpus mem kib wanted s where
  fits := h.boots_wanted ▸ Fits.of_le hmem hfit (h.workers ▸ s.pool.bound)
  beside := h.boots_beside
  alone := boots_length s.thread
  begun := s.pool.begun_prefix.trans h.submitted
  boots := by
    have hnodup : s.boots.Nodup := List.nodup_append'.2 ⟨s.pool.running_nodup, boots_nodup s.thread,
      fun name hrunning hthread => (h.thread_boots name hthread).1 (h.running_wanted name hrunning)⟩
    have hall : ∀ name ∈ s.boots, name ∈ names := List.forall_mem_append.2
      ⟨fun name hname => hnames name (h.running_wanted name hname), fun name hname => (h.thread_boots name hname).2⟩
    exact hnodup.map_on fun a ha b hb heq => List.inj_on_of_nodup_map hdirs (hall a ha) (hall b hb) heq
  own := h.own
  answers name r hanswer hname := Pool.result?_iff.1 (h.answers name r hanswer hname)
  finished := s.pool.finished_nodup
  ended hended := by
    have hplace := h.place
    rw [hended] at hplace
    rw [State.boots, hended, hplace.2]
    exact ⟨rfl, hplace.1⟩

end Safe

/-- nine gigabytes are free -/
def sampleMeminfo : Meminfo 4300 where
  before := ["MemTotal:       16303428 kB\n".toList, "MemFree:         1302044 kB\n".toList]
  pad := 7
  kib := 9000000
  after := ["Buffers:          131072 kB\n".toList]
  digits := by decide
  before_other := by decide
  after_other := by decide

/-- three tests over three boots -/
def sampleItems : List (Item ℕ) :=
  [⟨"test_a", [.str "xen_efi"], [], []⟩, ⟨"test_b", [.str "tmp_path", .str "linux"], [.other 1, .str "xen_efi"], []⟩,
    ⟨"test_c", [.str "xen_mb2"], [], []⟩]

theorem sample_wanted : wanted Entries.entryNames sampleItems = ["xen_efi", "linux", "xen_mb2"] := by decide +kernel

theorem sample_workers {w : ℕ} {mem : ℤ} (hmem : guestMemGib 4300 "amd" = some mem)
    (hw : workers 4300 (some 4) mem sampleMeminfo.lines = .ok w) : mem = 2 ∧ w = 2 := by
  obtain rfl : 2 = mem := Option.some.inj ((by decide +kernel : guestMemGib 4300 "amd" = some 2).symm.trans hmem)
  have htwo : (workers 4300 (some 4) 2 sampleMeminfo.lines).toOption = some 2 := by decide +kernel
  rw [hw] at htwo
  exact ⟨rfl, Option.some.inj htwo⟩

/-- the workers alone go on -/
def workerMoves (names : List String) (acts : List (Pool.Act String R)) : List (Move R names) := acts.map .worker

theorem after_workers (s : State R) (acts : List (Pool.Act String R)) :
    after s (workerMoves names acts) = { s with pool := acts.foldl Pool.act s.pool } := by
  induction acts generalizing s with
  | nil => rfl
  | cons a acts ih => exact ih { s with pool := s.pool.act a }

theorem Inv.workers_left {w : ℕ} {wanted : List String} {s : State R} (h : Inv names w wanted s) (hpos : 0 < w)
    [Inhabited R] (hnone : ∀ a, ¬ s.pool.Enabled a) : s.pool.queue = [] ∧ s.pool.running = [] := by
  have hno : ∀ name, ¬ (name ∈ s.pool.queue ∨ name ∈ s.pool.running) := fun name hname => by
    obtain ⟨a, ha⟩ := Pool.exists_enabled (h.workers ▸ hpos) hname
    exact hnone a ha
  exact ⟨List.eq_nil_iff_forall_not_mem.2 fun name hname => hno name (Or.inl hname),
    List.eq_nil_iff_forall_not_mem.2 fun name hname => hno name (Or.inr hname)⟩

/-- the boot a test waits for has ended once no worker has anything left -/
theorem Inv.waited {w : ℕ} {wanted : List String} {s : State R} (h : Inv names w wanted s) (hpos : 0 < w) [Inhabited R]
    {name : String} (hthread : s.thread = .waiting name) (hnone : ∀ a, ¬ s.pool.Enabled a) :
    ∃ r, s.pool.result? name = some r := by
  obtain ⟨hqueue, hrunning⟩ := h.workers_left hpos hnone
  have hplace := h.place
  rw [hthread] at hplace
  obtain ⟨hopen, hsubmitted, hname⟩ := hplace
  rw [← hsubmitted, Pool.mem_submitted, hqueue, s.pool.open_cancelled hopen, Pool.mem_begun, hrunning] at hname
  simp only [List.not_mem_nil, false_or, or_false] at hname
  obtain ⟨⟨_, r⟩, hmem, rfl⟩ := List.mem_map.1 hname
  exact ⟨r, Pool.result?_iff.2 hmem⟩

theorem Inv.moves_le {w : ℕ} {wanted : List String} {s : State R} (h : Inv names w wanted s) :
    s.pool.moves ≤ 2 * wanted.length := by
  have hsubmitted := h.submitted.length_le
  have hbegun := s.pool.begun_perm.length_eq
  rw [Pool.submitted, List.length_append, List.length_append] at hsubmitted
  rw [List.length_append] at hbegun
  rw [Pool.moves]
  omega

/-- **No test waits forever.** Whatever happened before: where a test waits for a boot, the workers begin and end at most
twice as many boots as the tests want before it gets its answer, and until then some worker can always go on; and where the
session waits for the boots that are still running, it ends with as many of them as there are workers at most. -/
theorem waits_end [Inhabited R] {limit : ℕ} (m : Meminfo limit) (cpus : Option ℕ) (vendor : String)
    (items : List (Item V)) (moves : List (Move R Entries.entryNames)) :
    ∃ mem w, guestMemGib limit vendor = some mem ∧ workers limit cpus mem m.lines = .ok w ∧
      let wanted := wanted Entries.entryNames items
      let s := after (start w wanted) moves
      (∀ name, s.thread = .waiting name → ∀ acts, s.pool.AllEnabled acts → acts.length ≤ 2 * wanted.length ∧
        let t := after s (workerMoves Entries.entryNames acts)
        (∃ a, t.pool.Enabled a) ∨
          ∃ r, (step t (.take : Move R Entries.entryNames)) = { t with thread := .idle, answers := t.answers ++ [(name, r)] }) ∧
      (s.thread = .finishing → ∀ acts, s.pool.AllEnabled acts → acts.length ≤ w ∧
        let t := after s (workerMoves Entries.entryNames acts)
        (∃ a, t.pool.Enabled a) ∨ (step t (.join : Move R Entries.entryNames)) = { t with thread := .ended }) := by
  have hlimit : 0 < limit := (List.length_pos_of_ne_nil Nat.toDigits_ne_nil).trans_le m.digits
  obtain ⟨mem, hread, hpos⟩ := guestMemGib_pos hlimit vendor
  obtain ⟨w, hw, hwpos, -⟩ := workers_fit m cpus hpos
  have hnodup := wanted_nodup Entries.entryNames items
  have h := after_inv hnodup (start_inv Entries.entryNames w _) moves
  refine ⟨mem, w, hread, hw, fun name hthread acts hacts => ⟨?_, ?_⟩, fun hthread acts hacts => ⟨?_, ?_⟩⟩
  · exact (Pool.length_le_moves hacts).trans h.moves_le
  · have ht := after_inv hnodup h (workerMoves Entries.entryNames acts)
    refine or_iff_not_imp_left.2 fun hnone => ?_
    have hwaiting : (after (after (start w (wanted Entries.entryNames items)) moves)
        (workerMoves Entries.entryNames acts)).thread = .waiting name := by
      rw [after_workers]
      exact hthread
    obtain ⟨r, hr⟩ := ht.waited hwpos hwaiting (not_exists.1 hnone)
    exact ⟨r, by simp only [step, hwaiting, hr]⟩
  · have hplace := h.place
    rw [hthread] at hplace
    have hmoves := Pool.length_le_moves hacts
    rw [Pool.moves, Pool.shut_queue _ hplace, List.length_nil, Nat.mul_zero, Nat.zero_add] at hmoves
    exact hmoves.trans ((Pool.bound _).trans h.workers.le)
  · have ht := after_inv hnodup h (workerMoves Entries.entryNames acts)
    refine or_iff_not_imp_left.2 fun hnone => ?_
    have hfinishing : (after (after (start w (wanted Entries.entryNames items)) moves)
        (workerMoves Entries.entryNames acts)).thread = .finishing := by
      rw [after_workers]
      exact hthread
    simp only [step, hfinishing, (ht.workers_left hwpos (not_exists.1 hnone)).2, and_self, if_true]

/-- a test waits for the boot that is third in line -/
def waitingMoves : List (Move ℕ Entries.entryNames) :=
  [.submit, .submit, .submit, .worker .begin, .submit, .ask ⟨"xen_mb2", by decide⟩, .worker .begin]

/-- a stop while two boots are going on -/
def finishingMoves : List (Move ℕ Entries.entryNames) :=
  [.submit, .worker .begin, .submit, .worker .begin, .submit, .stop, .join]

theorem waits_end_two :
    let s := after (start 2 (wanted Entries.entryNames sampleItems)) waitingMoves
    let t := after (start 2 (wanted Entries.entryNames sampleItems)) finishingMoves
    s.thread = .waiting "xen_mb2" ∧ (∀ acts, s.pool.AllEnabled acts → acts.length ≤ 6) ∧
      t.thread = .finishing ∧ ∀ acts, t.pool.AllEnabled acts → acts.length ≤ 2 := by
  have hwaiting : (after (start 2 (wanted Entries.entryNames sampleItems)) waitingMoves).thread = .waiting "xen_mb2" := by
    rw [sample_wanted]
    decide +kernel
  have hfinishing : (after (start 2 (wanted Entries.entryNames sampleItems)) finishingMoves).thread = .finishing := by
    rw [sample_wanted]
    decide +kernel
  have hlength : (wanted Entries.entryNames sampleItems).length = 3 := by rw [sample_wanted]; rfl
  obtain ⟨mem, w, hmem, hw, hwaits, -⟩ := waits_end sampleMeminfo (some 4) "amd" sampleItems waitingMoves
  obtain ⟨mem', w', hmem', hw', -, hfinishes⟩ := waits_end sampleMeminfo (some 4) "amd" sampleItems finishingMoves
  obtain ⟨rfl, rfl⟩ := sample_workers hmem hw
  obtain ⟨rfl, rfl⟩ := sample_workers hmem' hw'
  refine ⟨hwaiting, fun acts hacts => ?_, hfinishing, fun acts hacts => (hfinishes hfinishing acts hacts).1⟩
  have hle := (hwaits "xen_mb2" hwaiting acts hacts).1
  rwa [hlength] at hle

/-- A stop takes the boots that wait with it. -/
example :
    let moves : List (Move ℕ ["a", "b", "c"]) :=
      [.submit, .worker .begin, .submit, .submit, .worker .begin, .worker .begin, .submit, .ask ⟨"a", by decide⟩,
        .worker (.finish "a" 7), .take, .stop, .join, .worker (.finish "b" 8), .worker .begin, .join]
    let s := after (start 2 ["a", "b", "c"]) moves
    (s.thread, s.answers, s.pool.finished, s.pool.cancelled) = (.ended, [("a", 7)], [("a", 7), ("b", 8)], ["c"]) := by
  decide

end DrtmTest.BootPool
