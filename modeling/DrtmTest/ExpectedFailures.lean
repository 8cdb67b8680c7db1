/-
From a boot to the verdict of its tests: `_boot` keeps what stopped an entry that is known to be broken, the fixture fails the
tests that take it (`_entry_fixture` of `tests/conftest.py`), their marks say what was expected (`expects_boot` and its
siblings), and `_records` of `drtmtest/session.py` writes down how it went.

What pytest reports of a test is a parameter, by what is documented of it (`Reports`): of several marks the first whose
condition holds, a failing phase of a test that must fail as a skip with the reason, and a strict unexpected pass as a failure
whose text is the reason behind its tag.

- `recordOf_reports`: one test's record is its verdict.
- `failures_are_surprises`: the records of a session are the verdicts of its tests, in their order, and what counts as a
  failure is exactly what went against its expectation.
-/
import DrtmTest.Entries
import DrtmTest.Session

namespace DrtmTest.ExpectedFailures

open DrtmTest.Text DrtmTest.Session DrtmTest.Entries

/-! ## A boot and its fixture -/

/-- how the boot of an entry went -/
inductive BootEnd where
  | reached
  | raised (e : String)

def BootEnd.isReached : BootEnd → Bool
  | .reached => true
  | .raised _ => false

/-- `_boot`: the error of the `Boot`, or what is raised -/
def boot (s : Setup) (entry : Entry) : BootEnd → Except String (Option String)
  | .reached => .ok none
  | .raised e => if entry.brokenReason s = none then .error e else .ok (some e)

/-- `wait_for_boot`, with the message of its failure -/
def fixture (entry : Entry) (booted : Except String (Option String)) : Except String Unit := do
  match ← booted with
  | some error => .error ("'" ++ entry.title ++ "' did not reach the shell: " ++ error)
  | none => .ok ()

/-- a boot that did not get there fails the tests that take it, known to be broken or not -/
theorem fixture_boot (s : Setup) (entry : Entry) (e : BootEnd) : (fixture entry (boot s entry e)).isOk = e.isReached := by
  cases e with
  | reached => rfl
  | raised e =>
    unfold boot
    split_ifs <;> rfl

/-! ## A test and its verdict -/

/-- one test of a session: its marks in the order pytest looks at them, and what its own code makes of its boots -/
structure SuiteTest where
  nodeid : String
  boots : List (Entry × BootEnd)
  marks : List Xfail
  /-- the condition of a `skipif` -/
  skips : Bool
  passes : Bool

variable (s : Setup)

def SuiteTest.fails (t : SuiteTest) : Bool := (t.boots.any fun b => !(fixture b.1 (boot s b.1 b.2)).isOk) || !t.passes

/-- why the test must fail -/
def SuiteTest.expected (t : SuiteTest) : Option String := (t.marks.find? Xfail.condition).map Xfail.reason

/-- what the session says of a test -/
def SuiteTest.verdict (t : SuiteTest) : Outcome × Bool × Option String :=
  if t.skips then (.skipped, true, none)
  else
    match t.expected, t.fails s with
    | none, false => (.passed, true, none)
    | none, true => (.failed, false, none)
    | some reason, true => (.xfailed, true, some reason)
    | some reason, false => (.xpassed, false, some (String.ofList (strip reason.toList)))

/-- the test ran and went against its expectation -/
def SuiteTest.surprising (t : SuiteTest) : Bool := !t.skips && (t.expected.isSome != t.fails s)

/-! ## What pytest reports -/

section Reports

variable {D : Type} [Zero D] [Add D]

/-- a phase that passed and says nothing of an expectation -/
structure Clean (nodeid : String) (r : Report D) : Prop where
  nodeid : r.nodeid = nodeid
  outcome : r.outcome = .passed
  wasxfail : r.wasxfail = none

/-- the phase that decides how a test went -/
def Decides (t : SuiteTest) (r : Report D) : Prop :=
  if t.skips then r.outcome = .skipped ∧ r.wasxfail = none
  else
    match t.expected, t.fails s with
    | none, false => r.outcome = .passed ∧ r.wasxfail = none
    | none, true => r.outcome = .failed ∧ ¬ xpassStrict <+: r.longreprtext.toList
    | some reason, true => r.outcome = .skipped ∧ r.wasxfail = some reason
    | some reason, false => r.outcome = .failed ∧ r.longreprtext.toList = xpassStrict ++ ' ' :: reason.toList

/-- what pytest reports of a test, phase by phase -/
inductive Reports (t : SuiteTest) : List (Report D) → Prop
  | mk (before : List (Report D)) (r : Report D) (after : List (Report D)) :
    (∀ x ∈ before, Clean t.nodeid x) → r.nodeid = t.nodeid → Decides s t r → (∀ x ∈ after, Clean t.nodeid x) →
      Reports t (before ++ r :: after)

omit [Zero D] [Add D] in
theorem Reports.nodeid {t : SuiteTest} {rs : List (Report D)} (h : Reports s t rs) : ∀ r ∈ rs, r.nodeid = t.nodeid := by
  obtain ⟨before, r, after, hbefore, hr, -, hafter⟩ := h
  intro x hx
  rcases List.mem_append.1 hx with hx | hx
  · exact (hbefore x hx).nodeid
  · rcases List.mem_cons.1 hx with rfl | hx
    · exact hr
    · exact (hafter x hx).nodeid

omit [Zero D] [Add D] in
theorem Reports.ne_nil {t : SuiteTest} {rs : List (Report D)} (h : Reports s t rs) : rs ≠ [] := by
  obtain ⟨before, r, after, -⟩ := h
  exact List.append_ne_nil_of_right_ne_nil _ (List.cons_ne_nil _ _)

/-! ## One record -/

/-- what a record says -/
def said (record : Record D) : Outcome × Bool × Option String := (record.outcome, record.ok, record.reason)

omit [Zero D] in
theorem recordReport_clean {nodeid : String} {r : Report D} (h : Clean nodeid r) (record : Record D) :
    said (recordReport record r) = said record := by
  simp only [recordReport, h.outcome, h.wasxfail, said]

omit [Zero D] in
theorem foldl_clean {nodeid : String} {rs : List (Report D)} (h : ∀ r ∈ rs, Clean nodeid r) (record : Record D) :
    said (rs.foldl recordReport record) = said record := by
  induction rs generalizing record with
  | nil => rfl
  | cons r rs ih =>
    rw [List.foldl_cons, ih (fun x hx => h x (List.mem_cons_of_mem r hx)), recordReport_clean (h r List.mem_cons_self)]

omit [Zero D] in
theorem recordReport_decides {t : SuiteTest} {r : Report D} (h : Decides s t r) {record : Record D}
    (hnew : said record = (.passed, true, none)) : said (recordReport record r) = t.verdict s := by
  obtain ⟨houtcome, hok, hreason⟩ : record.outcome = .passed ∧ record.ok = true ∧ record.reason = none := by
    simpa only [said, Prod.mk.injEq] using hnew
  unfold Decides at h
  unfold SuiteTest.verdict
  split_ifs at h ⊢
  · simp only [recordReport, h.1, h.2, houtcome, if_pos, said, hok, hreason]
  · revert h
    cases t.expected <;> cases t.fails s
    · rintro ⟨h₁, h₂⟩
      simp only [recordReport, h₁, h₂, said, houtcome, hok, hreason]
    · rintro ⟨h₁, h₂⟩
      simp only [recordReport, h₁, if_neg h₂, said, hreason]
    · rintro ⟨h₁, h₂⟩
      rename_i reason
      have hblank : strip (' ' :: reason.toList) = strip reason.toList := by
        rw [strip, strip, List.dropWhile_cons_of_pos (by decide)]
      simp only [recordReport, h₁, h₂, List.prefix_append, if_pos, List.drop_left, hblank, said]
    · rintro ⟨h₁, h₂⟩
      simp only [recordReport, h₁, h₂, said, hok]

/-- one test's record is its verdict -/
theorem recordOf_reports {t : SuiteTest} {rs : List (Report D)} (h : Reports s t rs) (entries : Dict String (List String)) :
    said (recordOf entries t.nodeid rs) = t.verdict s := by
  obtain ⟨before, r, after, hbefore, -, hdecides, hafter⟩ := h
  have hstart : said (before.foldl recordReport (newRecord entries t.nodeid : Record D)) = (.passed, true, none) :=
    foldl_clean hbefore _
  rw [recordOf, List.foldl_append, List.foldl_cons, foldl_clean hafter, recordReport_decides s hdecides hstart]

/-! ## A session -/

/-- what counts as a failure is what went against its expectation -/
theorem verdict_ok (t : SuiteTest) : (t.verdict s).2.1 = !t.surprising s := by
  unfold SuiteTest.verdict SuiteTest.surprising
  split_ifs with hskips
  · rw [hskips]
    rfl
  · rw [Bool.eq_false_iff.2 hskips]
    cases t.expected <;> cases t.fails s <;> rfl

/-- a test that takes a boot that did not get there fails -/
theorem fails_eq (t : SuiteTest) : t.fails s = ((t.boots.any fun b => !b.2.isReached) || !t.passes) := by
  simp only [SuiteTest.fails, fixture_boot]

/-- the tests of an entry that is known to be broken, and did not boot, fail as expected -/
theorem verdict_broken {t : SuiteTest} (hskips : t.skips = false) {entry : Entry} {reason e : String}
    (hmark : t.marks.head? = some (expectsBoot s entry)) (hbroken : entry.brokenReason s = some reason)
    (hboot : (entry, .raised e) ∈ t.boots) : t.verdict s = (.xfailed, true, some reason) := by
  have hfails : t.fails s = true := by
    rw [fails_eq, Bool.or_eq_true]
    exact .inl (List.any_eq_true.2 ⟨_, hboot, rfl⟩)
  have hexpected : t.expected = some reason := by
    obtain ⟨marks, hmarks⟩ := List.head?_eq_some_iff.1 hmark
    have hholds : (expectsBoot s entry).condition = true := by rw [expectsBoot, hbroken]; rfl
    have hreason : (expectsBoot s entry).reason = reason := by
      by_cases hempty : reason = "" <;> simp [expectsBoot, hbroken, Machine.orElse, Option.filter, hempty]
    rw [SuiteTest.expected, hmarks, List.find?_cons_of_pos hholds, Option.map_some, hreason]
  rw [SuiteTest.verdict, if_neg (by rw [hskips]; exact Bool.false_ne_true), hfails, hexpected]

/-- **Failures are surprises.** Take any session: any tests that take any boots, however these went, under any marks and any
machine, and any reports in which one phase decides how a test went and the others pass. The records are one for each test, in their order, and each says how the test
went against its expectation, where a test fails if a boot it takes did not get there, known to be broken or not. So the tests
of an entry that is known to be broken, and did not boot, are expected failures with its reason, and what counts as failed is
exactly what went against its expectation, the tests that had to fail and passed among them. -/
theorem failures_are_surprises (round : D → D) (entries : Dict String (List String)) (tests : List SuiteTest)
    (hids : (tests.map SuiteTest.nodeid).Nodup) (pytest : SuiteTest → List (Report D))
    (hpytest : ∀ t ∈ tests, Reports s t (pytest t)) :
    (records round entries (tests.flatMap pytest)).map (fun r => (r.id, said r)) =
        tests.map (fun t => (t.nodeid, t.verdict s)) ∧
      (∀ t ∈ tests, t.fails s = ((t.boots.any fun b => !b.2.isReached) || !t.passes)) ∧
      (∀ t ∈ tests, t.skips = false → ∀ entry reason e, t.marks.head? = some (expectsBoot s entry) →
        entry.brokenReason s = some reason → (entry, .raised e) ∈ t.boots → t.verdict s = (.xfailed, true, some reason)) ∧
      (records round entries (tests.flatMap pytest)).countP (fun r => !r.ok) = tests.countP fun t => t.surprising s := by
  have hrecords : (records round entries (tests.flatMap pytest)).map (fun r => (r.id, said r)) =
      tests.map fun t => (t.nodeid, t.verdict s) := by
    have hblocks := Dict.accumulate_blocks Report.nodeid (newRecord entries) recordReport SuiteTest.nodeid pytest hids
      (fun t ht => (hpytest t ht).ne_nil) fun t ht => (hpytest t ht).nodeid
    rw [records, recordsByTest, Dict.values, hblocks, List.map_map, List.map_map, List.map_map]
    refine List.map_congr_left fun t ht => Prod.ext ?_ ?_
    · exact recordOf_id entries t.nodeid (pytest t)
    · exact recordOf_reports s (hpytest t ht) entries
  refine ⟨hrecords, fun t _ => fails_eq s t, fun t _ hskips _ _ _ hmark hbroken hboot =>
    verdict_broken s hskips hmark hbroken hboot, ?_⟩
  have hcount : (records round entries (tests.flatMap pytest)).countP (fun r => !r.ok) =
      ((records round entries (tests.flatMap pytest)).map fun r => (r.id, said r)).countP fun x => !x.2.2.1 := by
    rw [List.countP_map]
    rfl
  rw [hcount, hrecords, List.countP_map]
  refine List.countP_congr fun t _ => ?_
  rw [Function.comp_apply, verdict_ok, Bool.not_not]

end Reports

/-- an upstream release on AMD's machine -/
def sampleSetup : Setup := ⟨"amd", none, ["sha1", "sha256"], true, true⟩

def brokenEntry : Entry := { title := "Boot Linux with TrenchBoot", os := .linux, launch := true, broken := some "panics" }

/-- a launch that does not boot as expected, and a test that passes against its mark -/
def sampleTests : List SuiteTest :=
  [⟨"t.py::a", [(brokenEntry, .raised "no shell")], [expectsBoot sampleSetup brokenEntry], false, true⟩,
    ⟨"t.py::b", [], [⟨false, "other"⟩, ⟨true, "locked"⟩], false, true⟩]

def samplePytest (t : SuiteTest) : List (Report ℕ) :=
  if t.nodeid = "t.py::a" then
    [⟨"t.py::a", .skipped, some "panics", "", 3⟩, ⟨"t.py::a", .passed, none, "", 0⟩]
  else
    [⟨"t.py::b", .passed, none, "", 0⟩, ⟨"t.py::b", .failed, none, "[XPASS(strict)] locked", 1⟩,
      ⟨"t.py::b", .passed, none, "", 0⟩]

theorem failures_are_surprises_two :
    ((records id ∅ (sampleTests.flatMap samplePytest)).map fun r => (r.id, said r)) =
      [("t.py::a", .xfailed, true, some "panics"), ("t.py::b", .xpassed, false, some "locked")] := by
  have hclean : ∀ nodeid, Clean nodeid (⟨nodeid, .passed, none, "", 0⟩ : Report ℕ) := fun _ => ⟨rfl, rfl, rfl⟩
  have hreports : ∀ t ∈ sampleTests, Reports sampleSetup t (samplePytest t) := by
    intro t ht
    rcases List.mem_pair.1 ht with rfl | rfl
    · exact .mk [] _ _ (List.forall_mem_nil _) rfl ⟨rfl, rfl⟩ (List.forall_mem_singleton.2 (hclean _))
    · exact .mk [_] _ _ (List.forall_mem_singleton.2 (hclean _)) rfl ⟨rfl, by decide⟩
        (List.forall_mem_singleton.2 (hclean _))
  have htold := (failures_are_surprises sampleSetup id ∅ sampleTests (by decide) samplePytest hreports).1
  rw [htold]
  decide +kernel

end DrtmTest.ExpectedFailures
