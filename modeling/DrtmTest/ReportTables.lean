/-
The two tables of one configuration: which rows they have and what stands in each cell.

The rows are read out of dictionaries that `_section` fills test by test. Here they are against the results themselves:
`testsOf` are the tests of one release, none where the release has no result.
- `cellAt_append`: what a row holds for a release are the tests collected for it, whatever was collected for others.
- `mem_entryCell`, `mem_testCell`: a cell of the compact table has the tests of its release that name the entry, a cell of
  the full table those of its test id.
- `section_tables`: rows and cells of both tables.
-/
import DrtmTest.Report

namespace DrtmTest.ReportTables

open DrtmTest.Sorted DrtmTest.Session DrtmTest.Report

/-! ## The rows of a section -/

/-- the entries of the results' details, in the order of the releases -/
def knownEntries (cells : Dict String Result) (releases : List String) : List String :=
  ((releases.filterMap cells.get?).flatMap fun r => r.details.entries).eraseDups

def entryOrder (cells : Dict String Result) (releases : List String) : List String :=
  ordered (testsByEntry cells releases).keys (knownEntries cells releases)

def entryCell (cells : Dict String Result) (releases : List String) (entry release : String) : Cell :=
  cellAt (((testsByEntry cells releases).get? entry).getD ∅) release

def testCell (cells : Dict String Result) (releases : List String) (id release : String) : Cell :=
  cellAt (((testsById cells releases).get? id).getD ∅) release

/-! ## What a cell collects -/

/-- the tests of one release -/
def testsOf (cells : Dict String Result) (release : String) : List Test :=
  match cells.get? release with
  | some result => result.tests
  | none => []

theorem mem_visits {cells : Dict String Result} {releases : List String} {x : String × Test} :
    x ∈ visits cells releases ↔ x.1 ∈ releases ∧ x.2 ∈ testsOf cells x.1 := by
  rw [visits, List.mem_flatMap]
  constructor
  · intro h
    obtain ⟨release, hrelease, hx⟩ := h
    cases hget : cells.get? release with
    | none =>
      rw [hget] at hx
      exact absurd hx List.not_mem_nil
    | some result =>
      rw [hget] at hx
      obtain ⟨test, htest, heq⟩ := List.mem_map.1 hx
      subst heq
      exact ⟨hrelease, by rw [testsOf, hget]; exact htest⟩
  · intro h
    refine ⟨x.1, h.1, ?_⟩
    cases hget : cells.get? x.1 with
    | none =>
      rw [testsOf, hget] at h
      exact absurd h.2 List.not_mem_nil
    | some result =>
      rw [testsOf, hget] at h
      exact List.mem_map.2 ⟨x.2, h.2, rfl⟩

theorem foldl_tests (l : List (String × Test)) (cell : Cell) :
    l.foldl (fun c x => (⟨c.tests ++ [x.2]⟩ : Cell)) cell = ⟨cell.tests ++ l.map Prod.snd⟩ := by
  induction l generalizing cell with
  | nil => simp
  | cons x l ih => rw [List.foldl_cons, ih, List.map_cons, List.append_assoc, List.singleton_append]

/-- what is collected for one release is independent of the others -/
theorem cellAt_append (l : List (String × Test)) (release : String) :
    (cellAt (l.foldl append ∅) release).tests = (l.filter fun x => x.1 = release).map Prod.snd := by
  have hacc : l.foldl append ∅ =
      Dict.accumulate Prod.fst (fun _ => ⟨[]⟩) (fun (c : Cell) x => ⟨c.tests ++ [x.2]⟩) l := rfl
  rw [cellAt, hacc, Dict.get?_accumulate]
  split_ifs with h
  · rw [Option.getD_some, foldl_tests, List.nil_append]
  · have hnil : l.filter (fun x => x.1 = release) = [] := by
      rw [List.filter_eq_nil_iff]
      intro x hx he
      exact h (List.mem_map.2 ⟨x, hx, of_decide_eq_true he⟩)
    rw [hnil]
    rfl

/-- what is collected under a key, for a release -/
theorem cellAt_accumulate {ι : Type} (key : ι → String) (visit : ι → String × Test) (l : List ι) (k release : String) :
    (cellAt (((Dict.accumulate key (fun _ => (∅ : Dict String Cell))
        (fun by_release x => append by_release (visit x)) l).get? k).getD ∅) release).tests =
      ((((l.filter fun x => key x = k).map visit).filter fun x => x.1 = release).map Prod.snd) := by
  have hcell : (((Dict.accumulate key (fun _ => (∅ : Dict String Cell))
      (fun by_release x => append by_release (visit x)) l).get? k).getD ∅) =
      ((l.filter fun x => key x = k).map visit).foldl append ∅ := by
    rw [Dict.get?_accumulate, List.foldl_map]
    split_ifs with h
    · rfl
    · have hnil : l.filter (fun x => key x = k) = [] := by
        rw [List.filter_eq_nil_iff]
        intro x hx he
        exact h (List.mem_map.2 ⟨x, hx, of_decide_eq_true he⟩)
      rw [hnil]
      rfl
  rw [hcell, cellAt_append]

/-- the tests collected under a key, for a release -/
theorem mem_cellAt_accumulate {ι : Type} (key : ι → String) (visit : ι → String × Test) {l : List ι} {k : String}
    {release : String} {test : Test} :
    test ∈ (cellAt (((Dict.accumulate key (fun _ => (∅ : Dict String Cell))
        (fun by_release x => append by_release (visit x)) l).get? k).getD ∅) release).tests ↔
      ∃ x ∈ l, key x = k ∧ visit x = (release, test) := by
  rw [cellAt_accumulate]
  simp only [List.mem_map, List.mem_filter, decide_eq_true_eq]
  constructor
  · intro h
    obtain ⟨x, ⟨⟨y, ⟨hy, hk⟩, hv⟩, hrel⟩, htest⟩ := h
    exact ⟨y, hy, hk, by rw [hv, ← hrel, ← htest]⟩
  · intro h
    obtain ⟨y, hy, hk, hv⟩ := h
    exact ⟨(release, test), ⟨⟨y, ⟨hy, hk⟩, hv⟩, rfl⟩, rfl⟩

/-- a cell of the compact table has the tests of its release that name its entry -/
theorem mem_entryCell {cells : Dict String Result} {releases : List String} {entry release : String}
    (hrelease : release ∈ releases) {test : Test} :
    test ∈ (entryCell cells releases entry release).tests ↔ test ∈ testsOf cells release ∧ entry ∈ test.entries := by
  rw [entryCell, testsByEntry, mem_cellAt_accumulate]
  simp only [List.mem_flatMap, List.mem_map, mem_visits]
  constructor
  · intro h
    obtain ⟨x, ⟨v, hv, e, he, hx⟩, hkey, hvisit⟩ := h
    subst hx
    subst hkey
    simp only at hvisit
    subst hvisit
    exact ⟨hv.2, he⟩
  · intro h
    exact ⟨(entry, release, test), ⟨(release, test), ⟨hrelease, h.1⟩, entry, h.2, rfl⟩, rfl, rfl⟩

/-- a cell of the full table has the tests of its release of its id -/
theorem mem_testCell {cells : Dict String Result} {releases : List String} {id release : String}
    (hrelease : release ∈ releases) {test : Test} :
    test ∈ (testCell cells releases id release).tests ↔ test ∈ testsOf cells release ∧ test.id = id := by
  refine Iff.trans (mem_cellAt_accumulate (fun x : String × Test => x.2.id) (fun x => x)
    (l := visits cells releases) (k := id)) ?_
  constructor
  · intro h
    obtain ⟨x, hx, hkey, hvisit⟩ := h
    subst hvisit
    exact ⟨(mem_visits.1 hx).2, hkey⟩
  · intro h
    exact ⟨(release, test), mem_visits.2 ⟨hrelease, h.1⟩, h.2, rfl⟩

/-! ## Rows and cells -/

theorem entryOrder_nodup (cells : Dict String Result) (releases : List String) : (entryOrder cells releases).Nodup :=
  ordered_nodup (Dict.keys_nodup _) (Dict.eraseDups_nodup _)

theorem mem_entryOrder {cells : Dict String Result} {releases : List String} {entry : String} :
    entry ∈ entryOrder cells releases ↔ ∃ release ∈ releases, ∃ test ∈ testsOf cells release, entry ∈ test.entries := by
  rw [entryOrder, mem_ordered, testsByEntry, Dict.keys_accumulate, List.mem_eraseDups]
  simp only [List.mem_map, List.mem_flatMap, mem_visits]
  constructor
  · intro h
    obtain ⟨x, ⟨v, hv, e, he, hx⟩, hkey⟩ := h
    subst hx
    subst hkey
    exact ⟨v.1, hv.1, v.2, hv.2, he⟩
  · intro h
    obtain ⟨release, hrelease, test, htest, he⟩ := h
    exact ⟨(entry, release, test), ⟨(release, test), ⟨hrelease, htest⟩, entry, he, rfl⟩, rfl⟩

theorem mem_testIds {cells : Dict String Result} {releases : List String} {id : String} :
    id ∈ (testsById cells releases).keys ↔ ∃ release ∈ releases, ∃ test ∈ testsOf cells release, test.id = id := by
  rw [testsById, Dict.keys_accumulate, List.mem_eraseDups]
  simp only [List.mem_map, mem_visits]
  constructor
  · intro h
    obtain ⟨v, hv, hid⟩ := h
    exact ⟨v.1, hv.1, v.2, hv.2, hid⟩
  · intro h
    obtain ⟨release, hrelease, test, htest, hid⟩ := h
    exact ⟨(release, test), ⟨hrelease, htest⟩, hid⟩

/-- the boot failed, whatever was expected of it -/
def DidFail (test : Test) : Prop := test.outcome = .failed ∨ test.outcome = .xfailed

def DidPass (test : Test) : Prop := test.outcome = .passed ∨ test.outcome = .xpassed

theorem mark_cases (cell : Cell) :
    (cell.mark = failMark ↔ ∃ test ∈ cell.tests, DidFail test) ∧
      (cell.mark = passMark ↔ (¬ ∃ test ∈ cell.tests, DidFail test) ∧ ∃ test ∈ cell.tests, DidPass test) ∧
      (cell.mark = noneMark ↔ (¬ ∃ test ∈ cell.tests, DidFail test) ∧ ¬ ∃ test ∈ cell.tests, DidPass test) := by
  have hfail : (cell.tests.any fun t => t.outcome = .failed ∨ t.outcome = .xfailed) = true ↔
      ∃ test ∈ cell.tests, DidFail test := by simp [DidFail]
  have hpass : (cell.tests.any fun t => t.outcome = .passed ∨ t.outcome = .xpassed) = true ↔
      ∃ test ∈ cell.tests, DidPass test := by simp [DidPass]
  have hmarks : failMark ≠ passMark ∧ failMark ≠ noneMark ∧ passMark ≠ noneMark := by decide
  obtain ⟨hfp, hfn, hpn⟩ := hmarks
  unfold Cell.mark
  rw [← hfail, ← hpass]
  generalize (cell.tests.any fun t => t.outcome = .failed ∨ t.outcome = .xfailed) = failed
  generalize (cell.tests.any fun t => t.outcome = .passed ∨ t.outcome = .xpassed) = passed
  cases failed <;> cases passed <;> simp [hfp, hfn, hpn, hfp.symm, hfn.symm, hpn.symm]

/-- the cell of the full table, by the outcomes in it -/
theorem outcome_eq (cell : Cell) :
    ∃ outcomes : List String, outcomes.Pairwise (· < ·) ∧
      (∀ name, name ∈ outcomes ↔ ∃ test ∈ cell.tests, outcomeName test.outcome = name) ∧
      outcome cell = if outcomes = [] then noneMark else ", ".intercalate outcomes := by
  refine ⟨_, sortedSet_pairwise (cell.tests.map fun t => outcomeName t.outcome), ?_, ?_⟩
  · intro name
    rw [mem_sortedSet, List.mem_map]
  · have hnil : sortedSet (cell.tests.map fun t => outcomeName t.outcome) = [] ↔ cell.tests = [] := by
      rw [List.eq_nil_iff_forall_not_mem, List.eq_nil_iff_forall_not_mem]
      simp only [mem_sortedSet, List.mem_map, not_exists, not_and]
      exact ⟨fun h t ht => h _ t ht rfl, fun h _ t ht => absurd ht (h t)⟩
    rw [outcome]
    simp only [hnil]

/-- a release with a result -/
theorem testsOf_release {cells : Dict String Result} {releases : List String}
    (h : ∀ release ∈ cells.keys, release ∈ releases) {release : String} {test : Test}
    (ht : test ∈ testsOf cells release) : release ∈ releases := by
  cases hget : cells.get? release with
  | none =>
    rw [testsOf, hget] at ht
    exact absurd ht List.not_mem_nil
  | some result => exact h release (Dict.mem_keys.2 ⟨result, hget⟩)

/-- all tests are those of the releases -/
theorem exists_testsOf {cells : Dict String Result} {releases : List String}
    (h : ∀ release ∈ cells.keys, release ∈ releases) (P : Test → Prop) :
    (∃ release ∈ releases, ∃ test ∈ testsOf cells release, P test) ↔ ∃ release, ∃ test ∈ testsOf cells release, P test := by
  constructor
  · intro hex
    obtain ⟨release, -, hex⟩ := hex
    exact ⟨release, hex⟩
  · intro hex
    obtain ⟨release, test, htest, hp⟩ := hex
    exact ⟨release, testsOf_release h htest, test, htest, hp⟩

/-- the full table's ids, and what stands in its cells -/
theorem testRows_eq (cells : Dict String Result) (releases : List String) :
    ((testsById cells releases).entries.map fun e => code e.1 :: releases.map fun release => outcome (cellAt e.2 release)) =
      (testsById cells releases).keys.map fun id =>
        code id :: releases.map fun release => outcome (testCell cells releases id release) := by
  rw [Dict.keys, List.map_map]
  apply List.map_congr_left
  intro e he
  have hget : (testsById cells releases).get? e.1 = some e.2 := Dict.mem_entries.1 he
  simp only [Function.comp_def, testCell, hget, Option.getD_some]

/-- **Every test lands in the right cells.** For every results of a configuration and every list of releases that has
theirs: the compact table has one row for each entry some test names and no other, the known entries first in their order;
its cells are the fail mark, the pass mark and `-` exactly where the tests of the release that name the entry say so. The
full table has one row for each test id, with the sorted distinct outcomes of the id under each release. -/
theorem section_tables (name : String) (cells : Dict String Result) (releases : List String)
    (hreleases : ∀ release ∈ cells.keys, release ∈ releases) :
    ∃ (entries ids : List String) (mark outcomes : String → String → String),
      configurationSection name cells releases =
        ["### " ++ configurationTitle name (releases.filterMap cells.get?), ""] ++
        table ("Entry" :: releases) (entries.map fun entry => code entry :: releases.map (mark entry)) ++ [""] ++
        notes (testsByEntry cells releases) cells releases ++ ["<details>", "<summary>Every test</summary>", ""] ++
        table ("Test" :: releases) (ids.map fun id => code id :: releases.map (outcomes id)) ++ ["", "</details>", ""] ∧
      entries.Nodup ∧ (∀ entry, entry ∈ entries ↔ ∃ release, ∃ test ∈ testsOf cells release, entry ∈ test.entries) ∧
      (∃ unknown, entries = (knownEntries cells releases).filter (fun entry => entry ∈ entries) ++ unknown ∧
        ∀ entry ∈ unknown, entry ∉ knownEntries cells releases) ∧
      (∀ entry, ∀ release ∈ releases,
        (mark entry release = failMark ↔ ∃ test ∈ testsOf cells release, entry ∈ test.entries ∧ DidFail test) ∧
        (mark entry release = passMark ↔ (¬ ∃ test ∈ testsOf cells release, entry ∈ test.entries ∧ DidFail test) ∧
          ∃ test ∈ testsOf cells release, entry ∈ test.entries ∧ DidPass test) ∧
        (mark entry release = noneMark ↔ (¬ ∃ test ∈ testsOf cells release, entry ∈ test.entries ∧ DidFail test) ∧
          ¬ ∃ test ∈ testsOf cells release, entry ∈ test.entries ∧ DidPass test)) ∧
      ids.Nodup ∧ (∀ id, id ∈ ids ↔ ∃ release, ∃ test ∈ testsOf cells release, test.id = id) ∧
      ∀ id, ∀ release ∈ releases, ∃ names : List String, names.Pairwise (· < ·) ∧
        (∀ n, n ∈ names ↔ ∃ test ∈ testsOf cells release, test.id = id ∧ outcomeName test.outcome = n) ∧
        outcomes id release = if names = [] then noneMark else ", ".intercalate names := by
  refine ⟨entryOrder cells releases, (testsById cells releases).keys,
    fun entry release => (entryCell cells releases entry release).mark,
    fun id release => outcome (testCell cells releases id release), ?_, entryOrder_nodup cells releases, ?_, ?_, ?_,
    Dict.keys_nodup _, ?_, ?_⟩
  · rw [← testRows_eq]
    rfl
  · intro entry
    rw [mem_entryOrder]
    exact exists_testsOf hreleases _
  · refine ⟨(testsByEntry cells releases).keys.filter fun entry => entry ∉ knownEntries cells releases, ?_, ?_⟩
    · conv => lhs; rw [entryOrder, ordered]
      simp only [entryOrder, mem_ordered]
    · intro entry hentry
      exact of_decide_eq_true (List.mem_filter.1 hentry).2
  · intro entry release hrelease
    have hcell (P : Test → Prop) : (∃ test ∈ (entryCell cells releases entry release).tests, P test) ↔
        ∃ test ∈ testsOf cells release, entry ∈ test.entries ∧ P test := by
      simp only [mem_entryCell hrelease, and_assoc]
    have hmark := mark_cases (entryCell cells releases entry release)
    rw [hcell, hcell] at hmark
    exact hmark
  · intro id
    rw [mem_testIds]
    exact exists_testsOf hreleases _
  · intro id release hrelease
    obtain ⟨names, hsorted, hmem, heq⟩ := outcome_eq (testCell cells releases id release)
    refine ⟨names, hsorted, ?_, heq⟩
    intro n
    rw [hmem]
    simp only [mem_testCell hrelease, and_assoc]

/-- one release with a passed and an expectedly failed test of an entry, one without a result -/
theorem section_tables_missing_release :
    let cells : Dict String Result :=
      ⟨[("v0.5.2", sampleResult "v0.5.2" none ["sha256"]
        [sampleTest "test_linux.py::test_launch" ["linux_launch"] .xfailed,
          sampleTest "test_linux.py::test_log" ["linux_launch"] .passed])], by decide⟩
    ∃ rows, table ["Entry", "v0.5.2", "v0.5.3-rc1"] rows <:+:
        configurationSection "classic" cells ["v0.5.2", "v0.5.3-rc1"] ∧
      [code "linux_launch", failMark, noneMark] ∈ rows := by
  intro cells
  obtain ⟨entries, ids, mark, outcomes, heq, -, hmem, -, hmark, -⟩ :=
    section_tables "classic" cells ["v0.5.2", "v0.5.3-rc1"] (by decide)
  have hold := (hmark "linux_launch" "v0.5.2" (by decide)).1.2
    ⟨_, List.mem_cons_self, List.mem_cons_self, Or.inr rfl⟩
  have hnone : testsOf cells "v0.5.3-rc1" = [] := rfl
  have hnew := (hmark "linux_launch" "v0.5.3-rc1" (by decide)).2.2.2 (by simp [hnone])
  have hrow : "linux_launch" ∈ entries := (hmem _).2 ⟨"v0.5.2", _, List.mem_cons_self, List.mem_cons_self⟩
  refine ⟨entries.map fun entry => code entry :: ["v0.5.2", "v0.5.3-rc1"].map (mark entry), ?_, ?_⟩
  · rw [heq]
    simp only [List.append_assoc]
    exact ⟨_, _, List.append_assoc _ _ _⟩
  · refine List.mem_map.2 ⟨"linux_launch", hrow, ?_⟩
    rw [List.map_cons, List.map_cons, List.map_nil, hold, hnew]

end DrtmTest.ReportTables
