/-
The notes under the compact table of one configuration, against its results.

- `entryCell_tests`: the tests under an entry and a release are those of the release that name the entry, each once and in
  order, where no test names an entry twice.
- `entryNotes_lines`: what an entry is given under a release: a line for each distinct reason of an expected failure, one for the
  unexpected ones, one for each unexpected pass.
- `summary_counts`: the counts of a release, each outcome once, are all its tests.
- `notes_explain`: the notes are those of the releases and nothing else, and an entry has a line that says it failed under a
  release exactly where its mark there is the fail mark.
-/
import DrtmTest.ReportTables

namespace DrtmTest.ReportNotes

open DrtmTest.Sorted DrtmTest.Session DrtmTest.Report DrtmTest.ReportTables

/-! ## The lines -/

def summaryNote (release : String) (tests : List Test) : String := "- " ++ code release ++ ": " ++ summary tests ++ "."

def absentNote (release : String) : String := "- No results for " ++ code release ++ "."

def expectedNote (entry : String) (reason : Option String) : String :=
  "    - " ++ code entry ++ " expected: " ++ reasonText reason

def failedNote (entry : String) (failed : ℕ) : String :=
  "    - " ++ code entry ++ ": " ++ toString failed ++ " failed unexpectedly"

def passedNote (entry : String) (reason : Option String) : String :=
  "    - " ++ code entry ++ " passed against the expectation: " ++ reasonText reason

/-- the line says that the entry failed, as expected or not -/
def SaysFailed (entry line : String) : Prop := (∃ reason, line = expectedNote entry reason) ∨ ∃ n, line = failedNote entry n

theorem entryNotes_eq (entry : String) (tests : List Test) : entryNotes entry tests =
    (((tests.filter fun t => t.outcome = .xfailed).map Test.reason).eraseDups.map (expectedNote entry)) ++
      (if tests.countP (fun t => t.outcome = .failed) = 0 then []
        else [failedNote entry (tests.countP fun t => t.outcome = .failed)]) ++
      (tests.filter fun t => t.outcome = .xpassed).map fun t => passedNote entry t.reason := rfl

/-- a pass against the expectation does not read as a failure -/
theorem passedNote_silent (entry : String) (reason : Option String) : ¬ SaysFailed entry (passedNote entry reason) := by
  rintro (⟨reason', h⟩ | ⟨n, h⟩)
  · have hchars := congrArg String.toList h
    simp only [passedNote, expectedNote, String.toList_append, List.append_assoc, List.append_cancel_left_eq] at hchars
    have hhead : ' ' :: 'p' :: _ = ' ' :: 'e' :: _ := hchars
    exact absurd (List.cons.inj (List.cons.inj hhead).2).1 (by decide)
  · have hchars := congrArg String.toList h
    simp only [passedNote, failedNote, String.toList_append, List.append_assoc, List.append_cancel_left_eq] at hchars
    have hhead : ' ' :: _ = ':' :: _ := hchars
    exact absurd (List.cons.inj hhead).1 (by decide)

/-- **What an entry is given.** Its lines say it failed exactly where a test of it did. -/
theorem entryNotes_red (entry : String) (tests : List Test) :
    (∃ line ∈ entryNotes entry tests, SaysFailed entry line) ↔ ∃ test ∈ tests, DidFail test := by
  rw [entryNotes_eq]
  constructor
  · rintro ⟨line, hline, hsays⟩
    rcases List.mem_append.1 hline with hline | hline
    · rcases List.mem_append.1 hline with hline | hline
      · obtain ⟨reason, hreason, -⟩ := List.mem_map.1 hline
        obtain ⟨test, htest, -⟩ := List.mem_map.1 (List.mem_eraseDups.1 hreason)
        obtain ⟨hmem, hout⟩ := List.mem_filter.1 htest
        exact ⟨test, hmem, Or.inr (of_decide_eq_true hout)⟩
      · split_ifs at hline with hnone
        · cases hline
        · obtain ⟨test, htest, hout⟩ := List.countP_pos_iff.1 (Nat.pos_of_ne_zero hnone)
          exact ⟨test, htest, Or.inl (of_decide_eq_true hout)⟩
    · obtain ⟨test, -, rfl⟩ := List.mem_map.1 hline
      exact absurd hsays (passedNote_silent entry test.reason)
  · rintro ⟨test, htest, hfailed | hxfailed⟩
    · have hcount : tests.countP (fun t => t.outcome = .failed) ≠ 0 :=
        Nat.pos_iff_ne_zero.1 (List.countP_pos_iff.2 ⟨test, htest, decide_eq_true hfailed⟩)
      refine ⟨failedNote entry (tests.countP fun t => t.outcome = .failed), ?_, Or.inr ⟨_, rfl⟩⟩
      rw [if_neg hcount]
      exact List.mem_append_left _ (List.mem_append_right _ List.mem_cons_self)
    · have hreason : test.reason ∈ ((tests.filter fun t => t.outcome = .xfailed).map Test.reason).eraseDups :=
        List.mem_eraseDups.2 (List.mem_map_of_mem (List.mem_filter.2 ⟨htest, decide_eq_true hxfailed⟩))
      exact ⟨_, List.mem_append_left _ (List.mem_append_left _ (List.mem_map_of_mem hreason)), Or.inl ⟨_, rfl⟩⟩

/-! ## The tests of a cell -/

theorem visits_cons (cells : Dict String Result) (release : String) (releases : List String) :
    visits cells (release :: releases) = (testsOf cells release).map (fun t => (release, t)) ++ visits cells releases := by
  rw [visits, List.flatMap_cons, ← visits, testsOf]
  cases cells.get? release <;> rfl

/-- the tests of one release among the visited, where each release is visited once -/
theorem visits_release {cells : Dict String Result} {releases : List String} (hnodup : releases.Nodup) {release : String}
    (h : release ∈ releases) :
    ((visits cells releases).filter fun x => x.1 = release).map Prod.snd = testsOf cells release := by
  have hother : ∀ rs : List String, release ∉ rs → (visits cells rs).filter (fun x => x.1 = release) = [] := by
    intro rs hrs
    rw [List.filter_eq_nil_iff]
    intro x hx heq
    exact hrs (of_decide_eq_true heq ▸ (mem_visits.1 hx).1)
  have hall : ∀ r : String, ((testsOf cells r).map fun t => (r, t)).filter (fun x => x.1 = release) =
      if r = release then (testsOf cells r).map fun t => (r, t) else [] := by
    intro r
    rw [List.filter_map]
    split_ifs with hr
    · exact congrArg _ (List.filter_eq_self.2 fun _ _ => decide_eq_true hr)
    · exact congrArg _ (List.filter_eq_nil_iff.2 fun _ _ hdec => hr (of_decide_eq_true hdec))
  induction releases with
  | nil => cases h
  | cons r rs ih =>
    obtain ⟨hr, hrs⟩ := List.nodup_cons.1 hnodup
    rw [visits_cons, List.filter_append, List.map_append, hall]
    rcases List.mem_cons.1 h with rfl | hmem
    · rw [if_pos rfl, hother rs hr, List.map_nil, List.append_nil, List.map_map]
      exact List.map_id _
    · have hne : r ≠ release := fun heq => hr (heq ▸ hmem)
      rw [if_neg hne, List.map_nil, List.nil_append]
      exact ih hrs hmem

/-- the tests that name an entry, each once -/
theorem named_once {l : List (String × Test)} (hl : ∀ x ∈ l, x.2.entries.Nodup) (entry : String) :
    ((l.flatMap fun x => x.2.entries.map fun e => (e, x)).filter fun p => p.1 = entry).map Prod.snd =
      l.filter fun x => entry ∈ x.2.entries := by
  induction l with
  | nil => rfl
  | cons x l ih =>
    have hx : ((x.2.entries.map fun e => (e, x)).filter fun p => p.1 = entry).map Prod.snd =
        if entry ∈ x.2.entries then [x] else [] := by
      rw [List.filter_map, List.map_map]
      have hfilter : x.2.entries.filter ((fun p : String × String × Test => decide (p.1 = entry)) ∘ fun e => (e, x)) =
          if entry ∈ x.2.entries then [entry] else [] := by
        have heq : ((fun p : String × String × Test => decide (p.1 = entry)) ∘ fun e => (e, x)) = (· == entry) := by
          funext e
          exact (beq_eq_decide e entry).symm
        rw [heq, List.filter_beq]
        split_ifs with hmem
        · rw [List.count_eq_one_of_mem (hl x List.mem_cons_self) hmem]
          rfl
        · rw [List.count_eq_zero_of_not_mem hmem]
          rfl
      rw [hfilter]
      split_ifs <;> rfl
    rw [List.flatMap_cons, List.filter_append, List.map_append, hx, ih fun y hy => hl y (List.mem_cons_of_mem x hy),
      List.filter_cons]
    by_cases hmem : entry ∈ x.2.entries
    · rw [if_pos hmem, if_pos (decide_eq_true hmem)]
      rfl
    · rw [if_neg hmem, if_neg (by simpa using hmem)]
      rfl

/-- **The tests of a cell** are those of its release that name its entry, in order. -/
theorem entryCell_tests {cells : Dict String Result} {releases : List String} (hnodup : releases.Nodup)
    (hentries : ∀ release, ∀ test ∈ testsOf cells release, test.entries.Nodup) {release : String} (h : release ∈ releases)
    (entry : String) :
    (entryCell cells releases entry release).tests = (testsOf cells release).filter fun t => entry ∈ t.entries := by
  have hvisits : ∀ x ∈ visits cells releases, x.2.entries.Nodup := fun x hx => hentries x.1 x.2 (mem_visits.1 hx).2
  have hcell : (entryCell cells releases entry release).tests =
      (((((visits cells releases).flatMap fun x => x.2.entries.map fun e => (e, x)).filter fun p => p.1 = entry).map
        Prod.snd).filter fun x => x.1 = release).map Prod.snd := cellAt_accumulate Prod.fst Prod.snd _ entry release
  have hswap : ((visits cells releases).filter fun x => entry ∈ x.2.entries).filter (fun x => x.1 = release) =
      ((visits cells releases).filter fun x => x.1 = release).filter fun x => entry ∈ x.2.entries := by
    rw [List.filter_filter, List.filter_filter]
    simp only [Bool.and_comm]
  calc (entryCell cells releases entry release).tests
      = (((visits cells releases).filter fun x => entry ∈ x.2.entries).filter fun x => x.1 = release).map Prod.snd := by
        rw [hcell, named_once hvisits]
    _ = (((visits cells releases).filter fun x => x.1 = release).map Prod.snd).filter (fun t => entry ∈ t.entries) := by
        rw [hswap, List.filter_map]
        rfl
    _ = (testsOf cells release).filter fun t => entry ∈ t.entries := by rw [visits_release hnodup h]

/-! ## The summary -/

/-- the counts are of distinct outcomes, and together they are all tests -/
theorem summary_counts (tests : List Test) : ∃ counts : List (String × ℕ),
    summary tests = ", ".intercalate (counts.map fun c => toString c.2 ++ " " ++ c.1) ∧ (counts.map Prod.fst).Nodup ∧
      (∀ name, name ∈ counts.map Prod.fst ↔ ∃ test ∈ tests, outcomeName test.outcome = name) ∧
      (∀ c ∈ counts, c.2 = tests.countP fun t => outcomeName t.outcome = c.1) ∧
      (counts.map Prod.snd).sum = tests.length := by
  let names := tests.map fun t => outcomeName t.outcome
  let counted := fun name : String => (name, tests.countP fun t => outcomeName t.outcome = name)
  have hfst : ((sortedSet names).map counted).map Prod.fst = sortedSet names := by
    rw [List.map_map]
    exact List.map_id _
  refine ⟨(sortedSet names).map counted, ?_, ?_, ?_, ?_, ?_⟩
  · rw [summary, List.map_map]
    rfl
  · rw [hfst]
    exact sortedSet_nodup names
  · intro name
    rw [hfst, mem_sortedSet, List.mem_map]
  · intro c hc
    obtain ⟨name, -, rfl⟩ := List.mem_map.1 hc
    rfl
  · have hcount : ∀ name : String, (counted name).2 = names.count name := by
      intro name
      rw [List.count, List.countP_map]
      exact List.countP_congr fun t _ => by simp
    calc (((sortedSet names).map counted).map Prod.snd).sum
        = ((sortedSet names).map fun name => names.count name).sum := by
          rw [List.map_map]
          exact congrArg List.sum (List.map_congr_left fun name _ => hcount name)
      _ = (names.dedup.map fun name => names.count name).sum :=
          ((List.perm_insertionSort _ _).map _).sum_eq
      _ = names.length := List.sum_map_count_dedup_eq_length names
      _ = tests.length := List.length_map _

/-! ## The notes -/

/-- the notes of one release -/
def noted (e : Dict String (Dict String Cell)) (cells : Dict String Result) (release : String) : List String :=
  match cells.get? release with
  | none => [absentNote release]
  | some result => summaryNote release result.tests :: e.entries.flatMap fun x => entryNotes x.1 (cellAt x.2 release).tests

/-- the notes are those of the releases, in their order -/
theorem notes_eq (e : Dict String (Dict String Cell)) (cells : Dict String Result) (releases : List String) :
    notes e cells releases = releases.flatMap (noted e cells) ++ [""] := rfl

theorem mem_byEntry (cells : Dict String Result) (releases : List String) (entry : String) :
    entry ∈ (testsByEntry cells releases).keys ↔ ∃ r ∈ releases, ∃ test ∈ testsOf cells r, entry ∈ test.entries := by
  rw [← mem_entryOrder, entryOrder, mem_ordered]

/-- the lines of a release are those of its cells -/
theorem byEntry_lines (cells : Dict String Result) (releases : List String) (release : String) :
    ((testsByEntry cells releases).entries.flatMap fun e => entryNotes e.1 (cellAt e.2 release).tests) =
      (testsByEntry cells releases).keys.flatMap fun entry =>
        entryNotes entry (entryCell cells releases entry release).tests := by
  rw [Dict.keys, List.flatMap_map]
  apply List.flatMap_congr
  intro e he
  have hget : (testsByEntry cells releases).get? e.1 = some e.2 := Dict.mem_entries.1 he
  simp only [entryCell, hget, Option.getD_some]

/-- the lines of an entry, among all tests of a release -/
theorem entryNotes_lines (entry : String) (tests : List Test) : ∃ reasons : List (Option String), reasons.Nodup ∧
    (∀ reason, reason ∈ reasons ↔ ∃ test ∈ tests, entry ∈ test.entries ∧ test.outcome = .xfailed ∧ test.reason = reason) ∧
    entryNotes entry (tests.filter fun t => entry ∈ t.entries) = reasons.map (expectedNote entry) ++
      (let failed := (tests.filter fun t => entry ∈ t.entries).countP fun t => t.outcome = .failed
       if failed = 0 then [] else [failedNote entry failed]) ++
      (tests.filter fun t => entry ∈ t.entries ∧ t.outcome = .xpassed).map fun t => passedNote entry t.reason := by
  have hxpassed : (tests.filter fun t => entry ∈ t.entries).filter (fun t => t.outcome = .xpassed) =
      tests.filter fun t => entry ∈ t.entries ∧ t.outcome = .xpassed := by
    rw [List.filter_filter]
    exact List.filter_congr fun t _ => by simp [and_comm]
  refine ⟨(((tests.filter fun t => entry ∈ t.entries).filter fun t => t.outcome = .xfailed).map
    Test.reason).eraseDups, Dict.eraseDups_nodup _, ?_, ?_⟩
  · intro reason
    simp only [List.mem_eraseDups, List.mem_map, List.mem_filter, decide_eq_true_eq, and_assoc]
  · simp only [entryNotes_eq, hxpassed]

/-- **Every red mark is explained and nothing else is.** The notes are those of the releases, one behind the other, and an empty
line. A release without results has the line that says so. Under a release with results each entry some test names has its
lines: one for each distinct reason of its expected failures, one with the number of its failures when there are any, one
for each of its passes against the expectation. One of them says that the entry failed exactly where its cell in the
compact table has the fail mark. The counts in the release's own line are of distinct outcomes and add up to its tests. -/
theorem notes_explain {cells : Dict String Result} {releases : List String} (hnodup : releases.Nodup)
    (hentries : ∀ release, ∀ test ∈ testsOf cells release, test.entries.Nodup) :
    ∃ (entries : List String) (under : String → List String),
      notes (testsByEntry cells releases) cells releases = releases.flatMap under ++ [""] ∧
      (entries.Nodup ∧ ∀ entry, entry ∈ entries ↔ ∃ r ∈ releases, ∃ test ∈ testsOf cells r, entry ∈ test.entries) ∧
      (∀ release ∈ releases, cells.get? release = none → under release = [absentNote release]) ∧
      ∀ release ∈ releases, ∀ result, cells.get? release = some result →
        ∃ (lines : String → List String) (counts : List (String × ℕ)),
          under release =
            ("- " ++ code release ++ ": " ++ ", ".intercalate (counts.map fun c => toString c.2 ++ " " ++ c.1) ++ ".") ::
              entries.flatMap lines ∧
          (∀ entry, (entry ∈ entries ∧ ∃ line ∈ lines entry, SaysFailed entry line) ↔
            (entryCell cells releases entry release).mark = failMark) ∧
          (∀ entry, ∃ reasons : List (Option String), reasons.Nodup ∧
            (∀ reason, reason ∈ reasons ↔
              ∃ test ∈ result.tests, entry ∈ test.entries ∧ test.outcome = .xfailed ∧ test.reason = reason) ∧
            lines entry = reasons.map (expectedNote entry) ++
              (let failed := (result.tests.filter fun t => entry ∈ t.entries).countP fun t => t.outcome = .failed
               if failed = 0 then [] else [failedNote entry failed]) ++
              (result.tests.filter fun t => entry ∈ t.entries ∧ t.outcome = .xpassed).map fun t =>
                passedNote entry t.reason) ∧
          (counts.map Prod.fst).Nodup ∧
          (∀ name, name ∈ counts.map Prod.fst ↔ ∃ test ∈ result.tests, outcomeName test.outcome = name) ∧
          (∀ c ∈ counts, c.2 = result.tests.countP fun t => outcomeName t.outcome = c.1) ∧
          (counts.map Prod.snd).sum = result.tests.length := by
  refine ⟨(testsByEntry cells releases).keys, noted (testsByEntry cells releases) cells, notes_eq _ _ _,
    ⟨Dict.keys_nodup _, mem_byEntry cells releases⟩, ?_, ?_⟩
  · intro release _ hnone
    simp only [noted, hnone]
  · intro release hrelease result hresult
    have htests : testsOf cells release = result.tests := by rw [testsOf, hresult]
    have hcell : ∀ entry,
        (entryCell cells releases entry release).tests = result.tests.filter fun t => entry ∈ t.entries :=
      fun entry => by rw [entryCell_tests hnodup hentries hrelease, htests]
    obtain ⟨counts, hsummary, hcounts⟩ := summary_counts result.tests
    refine ⟨fun entry => entryNotes entry (entryCell cells releases entry release).tests, counts, ?_, ?_, ?_, hcounts⟩
    · simp only [noted, hresult]
      rw [byEntry_lines, summaryNote, hsummary]
    · intro entry
      rw [entryNotes_red, (mark_cases _).1]
      refine and_iff_right_of_imp fun h => ?_
      obtain ⟨test, htest, -⟩ := h
      rw [mem_entryCell hrelease] at htest
      exact (mem_byEntry cells releases entry).2 ⟨release, hrelease, test, htest⟩
    · intro entry
      simp only [hcell]
      exact entryNotes_lines entry result.tests

/-- a release with an unexpected failure, an expected one and an unexpected pass of one entry -/
def mixedTests : List Test :=
  [sampleTest "test_linux.py::test_launch" ["linux_launch"] .failed,
    { sampleTest "test_linux.py::test_log" ["linux_launch", "xen_efi_launch"] .xfailed with
      reason := some "panics in check_timer" },
    { sampleTest "test_xen.py::test_log" ["xen_efi_launch"] .xpassed with reason := some "no log" }]

theorem notes_explain_mixed :
    let cells : Dict String Result :=
      ⟨[("v0.5.2", sampleResult "v0.5.2" none ["sha256"] mixedTests)], by decide⟩
    ∃ entries : List String, ∃ under lines : String → List String,
      notes (testsByEntry cells ["v0.5.2", "v0.5.3"]) cells ["v0.5.2", "v0.5.3"] =
          under "v0.5.2" ++ ["- No results for `v0.5.3`.", ""] ∧
        (∃ counted, under "v0.5.2" = counted :: entries.flatMap lines) ∧
        ∃ line ∈ lines "linux_launch", SaysFailed "linux_launch" line := by
  intro cells
  have hentries : ∀ release, ∀ test ∈ testsOf cells release, test.entries.Nodup := by
    intro release test htest
    have hkeys : ∀ r ∈ cells.keys, r ∈ ["v0.5.2"] := fun _ h => h
    have hrelease : release = "v0.5.2" := List.mem_singleton.1 (testsOf_release hkeys htest)
    subst hrelease
    have htests : testsOf cells "v0.5.2" = mixedTests := rfl
    have hall : ∀ t ∈ mixedTests, t.entries.Nodup := by decide
    exact hall test (htests ▸ htest)
  have hnodup : ["v0.5.2", "v0.5.3"].Nodup := by decide
  obtain ⟨entries, under, hnotes, -, habsent, hpresent⟩ := notes_explain hnodup hentries
  obtain ⟨lines, counts, hunder, hred, -⟩ := hpresent "v0.5.2" (by decide) _ rfl
  have hmark : (entryCell cells ["v0.5.2", "v0.5.3"] "linux_launch" "v0.5.2").mark = failMark := by decide +kernel
  have hmissing : under "v0.5.3" = ["- No results for `v0.5.3`."] := habsent "v0.5.3" (by decide) rfl
  refine ⟨entries, under, lines, ?_, ⟨_, hunder⟩, ((hred "linux_launch").2 hmark).2⟩
  rw [hnotes, List.flatMap_cons, List.flatMap_cons, List.flatMap_nil, hmissing, List.append_nil, List.append_assoc]
  rfl

end DrtmTest.ReportNotes
