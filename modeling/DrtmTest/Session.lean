/-
Lean model of what a session writes of its tests (`drtmtest/session.py`): `_outcome_per_test` for `results.txt` and
`_records` for `results.json`, two folds over the same phase reports.

Durations are of any type with an addition, rounded by a parameter.

- `recordOf_failed`, `recordOf_unfailed`: the outcome and `ok` of a record in closed form.
- `outcomeOf_eq`: the same for the outcome of `results.txt`.
- `record_consistent_iff`: a record contradicts its `ok` exactly when a report skipped with `wasxfail` comes behind the
  last failed one.
- `files_agree_iff`: the two files list the same tests in the same order, and say the same of a test exactly when no
  skipped report comes behind the last failed one and, without a failed one, no unexpected pass behind the last expected
  failure of a skipped test.
- `xfailed_after_failure`, `skipped_after_failure`: a teardown behind a failed call that turns it into an expected failure
  in one file and into a skip in the other.
-/
import DrtmTest.Core.Dict
import DrtmTest.Core.Find
import DrtmTest.Core.Text
import Mathlib.Data.List.DropRight

namespace DrtmTest.Session

open DrtmTest.Find DrtmTest.Text

/-! ## Reports and records -/

inductive PhaseOutcome where
  | passed
  | failed
  | skipped
  deriving DecidableEq

/-- a phase report of pytest -/
structure Report (D : Type) where
  nodeid : String
  outcome : PhaseOutcome
  wasxfail : Option String
  longreprtext : String
  duration : D

inductive Outcome where
  | passed
  | failed
  | skipped
  | xfailed
  | xpassed
  deriving DecidableEq

/-- one record of `results.json` -/
structure Record (D : Type) where
  id : String
  file : String
  entries : List String
  outcome : Outcome
  ok : Bool
  reason : Option String
  duration : D
  deriving DecidableEq

variable {D : Type}

namespace Report

def isFailed (r : Report D) : Bool := r.outcome = .failed

def isSkipped (r : Report D) : Bool := r.outcome = .skipped

/-- an expected failure -/
def isXfail (r : Report D) : Bool := r.outcome = .skipped ∧ r.wasxfail.isSome

/-- an unexpected pass -/
def isXpass (r : Report D) : Bool := r.outcome = .passed ∧ r.wasxfail.isSome

end Report

variable [Zero D] [Add D]

/-! ## `results.txt` -/

/-- one report into the outcome and the duration of its test -/
def collapse (o : PhaseOutcome × D) (r : Report D) : PhaseOutcome × D :=
  (if r.outcome ≠ .passed then r.outcome else o.1, o.2 + r.duration)

/-- `_outcome_per_test` -/
def outcomePerTest (reports : List (Report D)) : Dict String (PhaseOutcome × D) :=
  Dict.accumulate Report.nodeid (fun _ => (.passed, 0)) collapse reports

/-! ## `results.json` -/

def xpassStrict : List Char := "[XPASS(strict)]".toList

/-- `nodeid.split("::", 1)[0]` -/
def fileOf (nodeid : String) : String :=
  match find "::".toList nodeid.toList with
  | some i => String.ofList (nodeid.toList.take i)
  | none => nodeid

/-- a record before its first report -/
def newRecord (entries : Dict String (List String)) (nodeid : String) : Record D where
  id := nodeid
  file := fileOf nodeid
  entries := (entries.get? nodeid).getD []
  outcome := .passed
  ok := true
  reason := none
  duration := 0

/-- one report into the record of its test -/
def recordReport (record : Record D) (r : Report D) : Record D :=
  let record := { record with duration := record.duration + r.duration }
  let text := r.longreprtext.toList
  match r.outcome, r.wasxfail with
  | .failed, _ =>
    if xpassStrict <+: text then
      { record with
        ok := false
        outcome := .xpassed
        reason := some (String.ofList (strip (text.drop xpassStrict.length))) }
    else { record with ok := false, outcome := .failed }
  | .skipped, some reason => { record with outcome := .xfailed, reason := some reason }
  | .skipped, none => if record.outcome = .passed then { record with outcome := .skipped } else record
  | .passed, some reason => if record.ok then { record with outcome := .xpassed, reason := some reason } else record
  | .passed, none => record

def recordsByTest (entries : Dict String (List String)) (reports : List (Report D)) : Dict String (Record D) :=
  Dict.accumulate Report.nodeid (newRecord entries) recordReport reports

/-- `_records` -/
def records (round : D → D) (entries : Dict String (List String)) (reports : List (Report D)) : List (Record D) :=
  (recordsByTest entries reports).values.map fun record => { record with duration := round record.duration }

/-! ## One test alone -/

/-- the reports of one test, in order -/
def reportsOf (nodeid : String) (reports : List (Report D)) : List (Report D) :=
  reports.filter fun r => r.nodeid = nodeid

/-- a record and the reports of its test -/
def recordOf (entries : Dict String (List String)) (nodeid : String) (rs : List (Report D)) : Record D :=
  rs.foldl recordReport (newRecord entries nodeid)

/-- what `results.txt` says of a test with these reports -/
def outcomeOf (rs : List (Report D)) : PhaseOutcome := (rs.foldl collapse (.passed, 0)).1

omit [Zero D] in
theorem recordReport_id (record : Record D) (r : Report D) : (recordReport record r).id = record.id := by
  unfold recordReport
  simp only
  split
  · split_ifs <;> rfl
  · rfl
  · split_ifs <;> rfl
  · split_ifs <;> rfl
  · rfl

theorem recordOf_snoc (entries : Dict String (List String)) (nodeid : String) (rs : List (Report D)) (r : Report D) :
    recordOf entries nodeid (rs ++ [r]) = recordReport (recordOf entries nodeid rs) r := by
  rw [recordOf, List.foldl_append, recordOf, List.foldl_cons, List.foldl_nil]

theorem recordOf_id (entries : Dict String (List String)) (nodeid : String) (rs : List (Report D)) :
    (recordOf entries nodeid rs).id = nodeid := by
  induction rs using List.reverseRecOn with
  | nil => rfl
  | append_singleton rs r ih => rw [recordOf_snoc, recordReport_id, ih]

theorem outcomeOf_snoc (rs : List (Report D)) (r : Report D) :
    outcomeOf (rs ++ [r]) = if r.outcome ≠ .passed then r.outcome else outcomeOf rs := by
  rw [outcomeOf, List.foldl_append, outcomeOf, List.foldl_cons, List.foldl_nil]
  rfl

theorem recordsByTest_entries {entries : Dict String (List String)} {reports : List (Report D)} {k : String}
    {record : Record D} (h : (k, record) ∈ (recordsByTest entries reports).entries) :
    record = recordOf entries k (reportsOf k reports) := by
  rw [Dict.mem_entries, recordsByTest, Dict.get?_accumulate] at h
  split_ifs at h
  exact (Option.some.inj h).symm

/-- a record of the file is that of its own reports, but for the rounding -/
theorem mem_records {round : D → D} {entries : Dict String (List String)} {reports : List (Report D)} {record : Record D}
    (h : record ∈ records round entries reports) :
    record.outcome = (recordOf entries record.id (reportsOf record.id reports)).outcome ∧
      record.ok = (recordOf entries record.id (reportsOf record.id reports)).ok := by
  obtain ⟨raw, hraw, rfl⟩ := List.mem_map.1 h
  obtain ⟨⟨k, v⟩, hkv, rfl⟩ := List.mem_map.1 hraw
  have hv := recordsByTest_entries hkv
  have hid : v.id = k := by rw [hv, recordOf_id]
  simp only [hid]
  rw [← hv]
  exact ⟨rfl, rfl⟩

/-! ## Closed forms -/

/-- what comes behind the last failed report -/
def behindFailed (rs : List (Report D)) : List (Report D) := rs.rtakeWhile fun r => !r.isFailed

/-- what comes behind the last expected failure -/
def behindXfail (rs : List (Report D)) : List (Report D) := rs.rtakeWhile fun r => !r.isXfail

omit [Zero D] [Add D] in
theorem behindFailed_snoc (rs : List (Report D)) (r : Report D) :
    behindFailed (rs ++ [r]) = if !r.isFailed then behindFailed rs ++ [r] else [] :=
  List.rtakeWhile_concat _ _ _

omit [Zero D] [Add D] in
theorem behindXfail_snoc (rs : List (Report D)) (r : Report D) :
    behindXfail (rs ++ [r]) = if !r.isXfail then behindXfail rs ++ [r] else [] :=
  List.rtakeWhile_concat _ _ _

omit [Zero D] in
theorem recordReport_ok (record : Record D) (r : Report D) :
    (recordReport record r).ok = (record.ok && !r.isFailed) := by
  obtain ⟨id, outcome, wasxfail, text, duration⟩ := r
  simp only [recordReport, Report.isFailed]
  cases outcome <;> cases wasxfail <;> simp <;> split_ifs <;> rfl

omit [Zero D] in
theorem recordReport_outcome (record : Record D) (r : Report D) :
    (recordReport record r).outcome =
      if r.isFailed then if xpassStrict <+: r.longreprtext.toList then .xpassed else .failed
      else if r.isXfail then .xfailed
      else if r.isSkipped then if record.outcome = .passed then .skipped else record.outcome
      else if r.isXpass && record.ok then .xpassed else record.outcome := by
  obtain ⟨id, outcome, wasxfail, text, duration⟩ := r
  simp only [recordReport, Report.isFailed, Report.isXfail, Report.isSkipped, Report.isXpass]
  cases outcome <;> cases wasxfail <;> simp <;> split_ifs <;> rfl

theorem recordOf_ok (entries : Dict String (List String)) (nodeid : String) (rs : List (Report D)) :
    (recordOf entries nodeid rs).ok = !rs.any Report.isFailed := by
  induction rs using List.reverseRecOn with
  | nil => rfl
  | append_singleton rs r ih => simp [recordOf_snoc, recordReport_ok, ih]

theorem recordOf_failed (entries : Dict String (List String)) (nodeid : String) (rs : List (Report D))
    (h : rs.any Report.isFailed = true) :
    if (behindFailed rs).any Report.isXfail then (recordOf entries nodeid rs).outcome = .xfailed
    else (recordOf entries nodeid rs).outcome = .failed ∨ (recordOf entries nodeid rs).outcome = .xpassed := by
  induction rs using List.reverseRecOn with
  | nil => cases h
  | append_singleton rs r ih =>
    rw [recordOf_snoc, recordReport_outcome, behindFailed_snoc]
    cases hf : r.isFailed with
    | true =>
      simp only [Bool.not_true, Bool.false_eq_true, if_false, List.any_nil, if_true]
      split_ifs
      · exact Or.inr rfl
      · exact Or.inl rfl
    | false =>
      have hrs : rs.any Report.isFailed = true := by simpa [hf] using h
      have hok : (recordOf entries nodeid rs).ok = false := by rw [recordOf_ok, hrs]; rfl
      have ih := ih hrs
      simp only [Bool.not_false, if_true, Bool.false_eq_true, if_false, hok, Bool.and_false, List.any_append]
      cases hx : r.isXfail with
      | true => simp [hx]
      | false =>
        simp only [List.any_cons, hx, List.any_nil, Bool.or_false, Bool.false_eq_true, if_false]
        cases hb : (behindFailed rs).any Report.isXfail with
        | true =>
          rw [hb, if_pos rfl] at ih
          simp [ih]
        | false =>
          rw [hb, if_neg Bool.false_ne_true] at ih
          rcases ih with ih | ih <;> simp [ih]

theorem recordOf_unfailed (entries : Dict String (List String)) (nodeid : String) (rs : List (Report D))
    (h : rs.any Report.isFailed = false) :
    (recordOf entries nodeid rs).outcome =
      if (behindXfail rs).any Report.isXpass then .xpassed
      else if rs.any Report.isXfail then .xfailed
      else if rs.any Report.isSkipped then .skipped else .passed := by
  induction rs using List.reverseRecOn with
  | nil => rfl
  | append_singleton rs r ih =>
    rw [List.any_append, Bool.or_eq_false_iff, List.any_cons, List.any_nil, Bool.or_false] at h
    obtain ⟨hrs, hf⟩ := h
    have hok : (recordOf entries nodeid rs).ok = true := by rw [recordOf_ok, hrs]; rfl
    rw [recordOf_snoc, recordReport_outcome, ih hrs, hok, hf, behindXfail_snoc]
    cases hx : r.isXfail with
    | true => simp [hx]
    | false =>
      cases hs : r.isSkipped with
      | true =>
        have hp : r.isXpass = false := by
          simp only [Report.isSkipped, Report.isXpass, decide_eq_true_eq, decide_eq_false_iff_not] at hs ⊢
          simp [hs]
        simp only [hx, hs, hp, Bool.not_false, if_true, Bool.false_eq_true, if_false, List.any_append, List.any_cons,
          List.any_nil, Bool.or_false, Bool.or_true]
        cases (behindXfail rs).any Report.isXpass <;> cases rs.any Report.isXfail <;>
          cases rs.any Report.isSkipped <;> rfl
      | false => cases hp : r.isXpass <;> simp [hx, hs, hp]

/-- `results.txt`: the last report that did not pass -/
theorem outcomeOf_eq (rs : List (Report D)) :
    outcomeOf rs =
      if rs.any Report.isFailed && !(behindFailed rs).any Report.isSkipped then .failed
      else if rs.any Report.isSkipped then .skipped else .passed := by
  induction rs using List.reverseRecOn with
  | nil => rfl
  | append_singleton rs r ih =>
    rw [outcomeOf_snoc, ih, behindFailed_snoc]
    cases ho : r.outcome with
    | failed => simp [Report.isFailed, ho]
    | passed => simp [Report.isFailed, Report.isSkipped, ho]
    | skipped => simp [Report.isFailed, Report.isSkipped, ho]

/-! ## A record and its own `ok` -/

/-- `ok` is false exactly for a test with a failed report, and the outcome does not say otherwise -/
def Consistent (rs : List (Report D)) (record : Record D) : Prop :=
  (record.ok = false ↔ rs.any Report.isFailed = true) ∧
    (rs.any Report.isFailed = true → record.outcome = .failed ∨ record.outcome = .xpassed) ∧
    (rs.any Report.isFailed = false → record.ok = true ∧ record.outcome ≠ .failed)

/-- no report behind the last failed one is skipped with `wasxfail` -/
def FailureKept (rs : List (Report D)) : Prop :=
  rs.any Report.isFailed = true → (behindFailed rs).any Report.isXfail = false

instance (rs : List (Report D)) : Decidable (FailureKept rs) := inferInstanceAs (Decidable (_ → _))

/-- **A record is consistent** exactly when no expected failure comes behind the last failed report. -/
theorem record_consistent_iff (round : D → D) (entries : Dict String (List String)) (reports : List (Report D))
    (record : Record D) (h : record ∈ records round entries reports) :
    Consistent (reportsOf record.id reports) record ↔ FailureKept (reportsOf record.id reports) := by
  obtain ⟨houtcome, hok⟩ := mem_records h
  generalize reportsOf record.id reports = rs at houtcome hok ⊢
  rw [recordOf_ok] at hok
  unfold Consistent FailureKept
  rw [hok, houtcome]
  cases hf : rs.any Report.isFailed with
  | true =>
    have hclosed := recordOf_failed entries record.id rs hf
    cases hb : (behindFailed rs).any Report.isXfail with
    | true =>
      rw [hb, if_pos rfl] at hclosed
      simp [hclosed]
    | false =>
      rw [hb, if_neg Bool.false_ne_true] at hclosed
      simp [hclosed]
  | false =>
    rw [recordOf_unfailed entries record.id rs hf]
    have hne : (if (behindXfail rs).any Report.isXpass then Outcome.xpassed
        else if rs.any Report.isXfail then .xfailed
        else if rs.any Report.isSkipped then .skipped else .passed) ≠ .failed := by
      split_ifs <;> exact Outcome.noConfusion
    simp only [Bool.not_false, Bool.false_eq_true, Bool.true_eq_false, iff_self, false_implies, true_and]
    exact ⟨fun _ => trivial, fun _ _ => hne⟩

/-- two tests, one failed in its call -/
def twoTests : List (Report ℕ) :=
  [⟨"t.py::a", .passed, none, "", 1⟩, ⟨"t.py::b", .skipped, some "no launch", "", 0⟩,
    ⟨"t.py::a", .failed, none, "assert 0", 2⟩, ⟨"t.py::b", .passed, none, "", 0⟩, ⟨"t.py::a", .passed, none, "", 1⟩]

theorem two_tests_consistent :
    Consistent (reportsOf "t.py::a" twoTests) ⟨"t.py::a", "t.py", [], .failed, false, none, 4⟩ :=
  (record_consistent_iff id ∅ twoTests ⟨"t.py::a", "t.py", [], .failed, false, none, 4⟩ (by decide +kernel)).2
    (by decide +kernel)

/-- a strict unexpected pass whose teardown then fails as expected -/
def strictXpass : List (Report ℕ) :=
  [⟨"t.py::a", .passed, none, "", 0⟩, ⟨"t.py::a", .failed, none, "[XPASS(strict)] no launch", 0⟩,
    ⟨"t.py::a", .skipped, some "no launch", "", 0⟩]

theorem xfailed_after_failure : ∃ record ∈ records id ∅ strictXpass,
    record.ok = false ∧ record.outcome = .xfailed ∧ ¬ Consistent (reportsOf record.id strictXpass) record := by
  refine ⟨⟨"t.py::a", "t.py", [], .xfailed, false, some "no launch", 0⟩, by decide +kernel, rfl, rfl, fun h => ?_⟩
  rcases h.2.1 (by decide +kernel) with h | h <;> cases h

/-! ## The two files -/

/-- what `results.txt` says of a test is what its record says -/
def Agrees (o : PhaseOutcome) (record : Record D) : Prop :=
  (o = .failed ↔ record.ok = false) ∧
    (o = .skipped ↔ (record.outcome = .skipped ∨ record.outcome = .xfailed) ∧ record.ok = true) ∧
    (o = .passed ↔ record.outcome = .passed ∨ record.outcome = .xpassed ∧ record.ok = true)

/-- no report behind the last failed one is skipped; and of a test without a failed report but with a skipped one, no unexpected
pass comes behind the last expected failure, nor anywhere where none is one -/
def SameStory (rs : List (Report D)) : Prop :=
  (rs.any Report.isFailed = true → (behindFailed rs).any Report.isSkipped = false) ∧
    (rs.any Report.isFailed = false → rs.any Report.isSkipped = true → (behindXfail rs).any Report.isXpass = false)

theorem outcomePerTest_get? {reports : List (Report D)} {k : String} {o : PhaseOutcome} {d : D}
    (h : (outcomePerTest reports).get? k = some (o, d)) : o = outcomeOf (reportsOf k reports) := by
  rw [outcomePerTest, Dict.get?_accumulate] at h
  split_ifs at h
  exact (congrArg Prod.fst (Option.some.inj h)).symm

theorem records_ids (round : D → D) (entries : Dict String (List String)) (reports : List (Report D)) :
    (records round entries reports).map Record.id = (recordsByTest entries reports).keys := by
  rw [records, Dict.values, List.map_map, List.map_map, Dict.keys]
  apply List.map_congr_left
  intro e he
  obtain ⟨k, record⟩ := e
  simp only [Function.comp_apply]
  rw [recordsByTest_entries he, recordOf_id]

omit [Zero D] [Add D] in
theorem any_isXfail {rs : List (Report D)} (h : rs.any Report.isSkipped = false) : rs.any Report.isXfail = false := by
  rw [List.any_eq_false] at h ⊢
  intro r hr hx
  refine h r hr ?_
  simp only [Report.isXfail, Report.isSkipped, decide_eq_true_eq] at hx ⊢
  exact hx.1

theorem agrees_iff (entries : Dict String (List String)) (nodeid : String) (rs : List (Report D)) :
    Agrees (outcomeOf rs) (recordOf entries nodeid rs) ↔ SameStory rs := by
  unfold Agrees SameStory
  rw [outcomeOf_eq, recordOf_ok]
  cases hf : rs.any Report.isFailed with
  | true =>
    have houtcome : (recordOf entries nodeid rs).outcome ≠ .passed := by
      have hclosed := recordOf_failed entries nodeid rs hf
      split_ifs at hclosed
      · rw [hclosed]
        exact Outcome.noConfusion
      · rcases hclosed with h | h <;> rw [h] <;> exact Outcome.noConfusion
    cases (behindFailed rs).any Report.isSkipped with
    | true => cases rs.any Report.isSkipped <;> simp
    | false => simp [houtcome]
  | false =>
    rw [recordOf_unfailed entries nodeid rs hf]
    cases hs : rs.any Report.isSkipped with
    | true =>
      cases (behindXfail rs).any Report.isXpass with
      | true => simp
      | false => cases rs.any Report.isXfail <;> simp
    | false =>
      rw [any_isXfail hs]
      cases (behindXfail rs).any Report.isXpass <;> simp

/-- **The two files agree.** They list the same tests in the same order, and say the same of a test exactly when its
reports are read as one story by both. -/
theorem files_agree_iff (round : D → D) (entries : Dict String (List String)) (reports : List (Report D)) :
    (outcomePerTest reports).keys = (records round entries reports).map Record.id ∧
      ∀ record ∈ records round entries reports, ∀ o d, (outcomePerTest reports).get? record.id = some (o, d) →
        (Agrees o record ↔ SameStory (reportsOf record.id reports)) := by
  constructor
  · rw [records_ids, outcomePerTest, recordsByTest, Dict.keys_accumulate, Dict.keys_accumulate]
  · intro record h o d hget
    obtain ⟨houtcome, hok⟩ := mem_records h
    rw [outcomePerTest_get? hget, ← agrees_iff entries record.id]
    unfold Agrees
    rw [houtcome, hok]

instance (rs : List (Report D)) : Decidable (SameStory rs) := inferInstanceAs (Decidable ((_ → _) ∧ (_ → _ → _)))

theorem two_tests_agree : Agrees .failed (⟨"t.py::a", "t.py", [], .failed, false, none, 4⟩ : Record ℕ) :=
  ((files_agree_iff id ∅ twoTests).2 ⟨"t.py::a", "t.py", [], .failed, false, none, 4⟩ (by decide +kernel) .failed 4
    (by decide +kernel)).2 (by decide +kernel)

/-- a test that fails and skips in its teardown -/
def failThenSkip : List (Report ℕ) :=
  [⟨"t.py::a", .passed, none, "", 0⟩, ⟨"t.py::a", .failed, none, "assert 0", 0⟩, ⟨"t.py::a", .skipped, none, "", 0⟩]

theorem skipped_after_failure : ∃ record ∈ records id ∅ failThenSkip,
    (outcomePerTest failThenSkip).get? record.id = some (.skipped, 0) ∧ record.ok = false ∧
      ¬ Agrees .skipped record := by
  refine ⟨⟨"t.py::a", "t.py", [], .failed, false, none, 0⟩, by decide +kernel, by decide +kernel, rfl, fun h => ?_⟩
  cases h.1.2 rfl

end DrtmTest.Session
