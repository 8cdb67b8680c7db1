/-
Lean model of the report (`drtmtest/report.py`): the page and the badges out of the `results.json` contents.

The texts are the source's. A field that `results.json` may lack or hold empty is an `Option`. The rows of a table are as
long as its header, and `render` has nothing to return for no results.

- `byConfiguration`: the results under their configuration and release. A later result of the same two replaces the
  earlier: the page shows the results that are `standing` (`cells_get?`), a badge counts each of them once
  (`onRelease_perm`), and where no two results share both they are all of them (`standing_eq`).
- `render`: the page, section by section, and a badge for each release (`badge`).
- `results_of_configuration`: every section it makes is of some result, so `results[0]` is there to look at.
-/
import DrtmTest.Core.Sorted
import DrtmTest.Matrix
import DrtmTest.Session
import Mathlib.Data.String.Basic

namespace DrtmTest.Report

open DrtmTest.Sorted DrtmTest.Session

/-! ## Results -/

structure Test where
  id : String
  entries : List String
  outcome : Outcome
  ok : Bool
  reason : Option String

structure Details where
  release : Option String
  image : Option String
  configuration : Option String
  vendor : Option String
  psp : Option String
  banks : List String
  qemu : Option String
  qemuBundle : Option String
  swtpm : Option String
  commit : Option String
  /-- the entries the tests take, in order -/
  entries : List String

structure Result where
  finished : String
  details : Details
  tests : List Test

def outcomeName : Outcome → String
  | .passed => "passed"
  | .failed => "failed"
  | .skipped => "skipped"
  | .xfailed => "xfailed"
  | .xpassed => "xpassed"

def passMark : String := "✅"

def failMark : String := "❌"

def noneMark : String := "-"

/-- the tests of one entry, or one test id, under one configuration and release -/
structure Cell where
  tests : List Test

def Cell.mark (cell : Cell) : String :=
  if cell.tests.any fun t => t.outcome = .failed ∨ t.outcome = .xfailed then failMark
  else if cell.tests.any fun t => t.outcome = .passed ∨ t.outcome = .xpassed then passMark else noneMark

/-- `value or default` -/
def orDefault (value : Option String) (default : String) : String :=
  match value with
  | some s => if s = "" then default else s
  | none => default

def release (result : Result) : String := orDefault result.details.release (result.details.image.getD "?")

/-- the matrix configuration, or a hand-made session's own per vendor -/
def configuration (result : Result) : String :=
  orDefault result.details.configuration ("custom-" ++ orDefault result.details.vendor "amd")

def vendor (name : String) (results : List Result) : String :=
  match Matrix.configurations.get? name with
  | some c => c.vendor
  | none => orDefault (results.head?.bind fun r => r.details.vendor) "amd"

/-- of some result, unless the matrix has the configuration: `results[0]` raises `IndexError` else -/
def configurationTitle (name : String) (results : List Result) : String :=
  match Matrix.configurations.get? name with
  | some c => c.title
  | none =>
    "psp=" ++ orDefault (results.head?.bind fun r => r.details.psp) "off" ++ ", banks=" ++
      ",".intercalate ((results.head?.map fun r => r.details.banks).getD [])

/-! ## Tables -/

def code (text : String) : String := "`" ++ text ++ "`"

def ljust (cell : String) (width : ℕ) : String := cell ++ String.ofList (List.replicate (width - cell.length) ' ')

/-- the widest cell of each column -/
def widths (header : List String) (rows : List (List String)) : List ℕ :=
  rows.foldl (fun ws row => List.zipWith max ws (row.map String.length)) (header.map String.length)

def tableLine (widths : List ℕ) (cells : List String) : String :=
  "| " ++ " | ".intercalate (List.zipWith ljust cells widths) ++ " |"

def tableRule (widths : List ℕ) : String :=
  "|" ++ "|".intercalate (widths.map fun w => String.ofList (List.replicate (w + 2) '-')) ++ "|"

def table (header : List String) (rows : List (List String)) : List String :=
  let ws := widths header rows
  tableLine ws header :: tableRule ws :: rows.map (tableLine ws)

/-! ## One configuration -/

/-- `by[key][release].tests.append(test)`, for one key -/
def append (cells : Dict String Cell) (x : String × Test) : Dict String Cell :=
  cells.set x.1 ⟨((cells.get? x.1).getD ⟨[]⟩).tests ++ [x.2]⟩

/-- the tests of the releases that have results, in order -/
def visits (cells : Dict String Result) (releases : List String) : List (String × Test) :=
  releases.flatMap fun release =>
    match cells.get? release with
    | some result => result.tests.map fun test => (release, test)
    | none => []

def testsById (cells : Dict String Result) (releases : List String) : Dict String (Dict String Cell) :=
  Dict.accumulate (fun x : String × Test => x.2.id) (fun _ => ∅) append (visits cells releases)

def testsByEntry (cells : Dict String Result) (releases : List String) : Dict String (Dict String Cell) :=
  Dict.accumulate Prod.fst (fun _ => ∅) (fun by_release x => append by_release x.2)
    ((visits cells releases).flatMap fun x => x.2.entries.map fun entry => (entry, x))

def cellAt (cells : Dict String Cell) (release : String) : Cell := (cells.get? release).getD ⟨[]⟩

def outcome (cell : Cell) : String :=
  if cell.tests = [] then noneMark else ", ".intercalate (sortedSet (cell.tests.map fun t => outcomeName t.outcome))

def summary (tests : List Test) : String :=
  ", ".intercalate ((sortedSet (tests.map fun t => outcomeName t.outcome)).map fun name =>
    toString (tests.countP fun t => outcomeName t.outcome = name) ++ " " ++ name)

def reasonText (reason : Option String) : String := reason.getD "None"

/-- what the suite expected of one entry's marks under one release -/
def entryNotes (entry : String) (tests : List Test) : List String :=
  let reasons := ((tests.filter fun t => t.outcome = .xfailed).map Test.reason).eraseDups
  let failed := tests.countP fun t => t.outcome = .failed
  let xpassed := tests.filter fun t => t.outcome = .xpassed
  (reasons.map fun reason => "    - " ++ code entry ++ " expected: " ++ reasonText reason) ++
    (if failed = 0 then [] else ["    - " ++ code entry ++ ": " ++ toString failed ++ " failed unexpectedly"]) ++
    xpassed.map fun t => "    - " ++ code entry ++ " passed against the expectation: " ++ reasonText t.reason

def notes (entries : Dict String (Dict String Cell)) (cells : Dict String Result) (releases : List String) : List String :=
  (releases.flatMap fun release =>
    match cells.get? release with
    | none => ["- No results for " ++ code release ++ "."]
    | some result =>
      ("- " ++ code release ++ ": " ++ summary result.tests ++ ".") ::
        entries.entries.flatMap fun e => entryNotes e.1 (cellAt e.2 release).tests) ++ [""]

/-- `_section`: the compact table, its notes and the full table. A configuration the matrix has not has some result. -/
def configurationSection (name : String) (cells : Dict String Result) (releases : List String) : List String :=
  let results := releases.filterMap cells.get?
  let entries := testsByEntry cells releases
  let tests := testsById cells releases
  let entryOrder := (results.flatMap fun r => r.details.entries).eraseDups
  let rows := (ordered entries.keys entryOrder).map fun entry =>
    code entry :: releases.map fun release => (cellAt ((entries.get? entry).getD ∅) release).mark
  let testRows := tests.entries.map fun e => code e.1 :: releases.map fun release => outcome (cellAt e.2 release)
  ["### " ++ configurationTitle name results, ""] ++
    table ("Entry" :: releases) rows ++ [""] ++ notes entries cells releases ++
    ["<details>", "<summary>Every test</summary>", ""] ++
    table ("Test" :: releases) testRows ++ ["", "</details>", ""]

/-! ## The header -/

/-- `line.removeprefix(lead).split(",")[0].strip()`, `?` for no line -/
def version (line : Option String) (lead : String) : String :=
  match line with
  | none => "?"
  | some line =>
    if line = "" then "?"
    else
      let cs := line.toList
      let rest := if lead.toList <+: cs then cs.drop lead.toList.length else cs
      String.ofList (Text.strip (rest.takeWhile (· ≠ ',')))

/-- `max` of the texts -/
def latest (texts : List String) : String := texts.foldr max ""

def header (results : List Result) (run runUrl : Option String) : List String :=
  let commits := sortedSet (results.map fun r => orDefault r.details.commit "?")
  let finished := latest (results.map Result.finished)
  let bundles := sortedSet ((results.map fun r => orDefault r.details.qemuBundle "").filter (· ≠ ""))
  let qemus := sortedSet (results.map fun r => version r.details.qemu "QEMU emulator version ")
  let swtpms := sortedSet (results.map fun r => version r.details.swtpm "TPM emulator version ")
  let run := orDefault run ""
  let runUrl := orDefault runUrl ""
  let commit := "Commit " ++ ", ".intercalate (commits.map fun c => code (String.ofList (c.toList.take 12)))
  let runPart :=
    if run = "" then [] else if runUrl = "" then ["run " ++ run] else ["run [" ++ run ++ "](" ++ runUrl ++ ")"]
  let stamp := String.ofList ((finished.toList.take 19).map fun c => if c = 'T' then ' ' else c)
  let qemu := ", ".intercalate qemus
  let qemu :=
    if bundles = [] then qemu else "bundle " ++ ", ".intercalate (bundles.map code) ++ " (" ++ qemu ++ ")"
  ["# Boot matrix results",
    "",
    ", ".intercalate (commit :: runPart ++ ["finished " ++ stamp]) ++ ".",
    "QEMU " ++ qemu ++ ", swtpm " ++ ", ".intercalate swtpms ++ ".",
    "",
    "Rows are the GRUB entries the suite boots, named as their fixtures",
    "in `tests/conftest.py`, columns the releases. " ++ passMark ++ " every test of the",
    "entry passed, " ++ failMark ++ " one failed, " ++ noneMark ++ " nothing ran. A mark says what the",
    "boot did, and the notes under the table what the suite expected of it.",
    ""]

/-! ## The page and the badges -/

def byConfiguration (results : List Result) : Dict String (Dict String Result) :=
  Dict.accumulate configuration (fun _ => ∅) (fun cells result => cells.set (release result) result) results

/-- `by_configuration[name]` -/
def cells (results : List Result) (name : String) : Dict String Result := ((byConfiguration results).get? name).getD ∅

def configurations (results : List Result) : List String :=
  ordered (byConfiguration results).keys Matrix.configurations.keys

def releases (results : List Result) : List String := ordered (sortedSet (results.map release)) Matrix.releases

def vendorOf (results : List Result) (name : String) : String := vendor name (cells results name).values

structure Badge where
  schemaVersion : ℕ
  label : String
  message : String
  color : String
  deriving DecidableEq

def badge (release : String) (cells : String → Dict String Result) (configurations : List String) : Badge :=
  let missing := configurations.countP fun name => ((cells name).get? release).isNone
  let tests := (configurations.filterMap fun name => (cells name).get? release).flatMap Result.tests
  let passed := tests.countP fun t => t.ok
  let failed := tests.countP fun t => !t.ok
  if failed ≠ 0 then ⟨1, release, toString failed ++ " failed", "red"⟩
  else if missing ≠ 0 then ⟨1, release, toString missing ++ " missing", "red"⟩
  else ⟨1, release, toString passed ++ " passed", "brightgreen"⟩

def badges (results : List Result) : Dict String Badge :=
  Dict.ofKeys (releases results) fun release => badge release (cells results) (configurations results)

def vendorSection (results : List Result) (vendor : String) : List String :=
  ["## " ++ (Matrix.vendorTitles.get? vendor).getD vendor, ""] ++
    ((configurations results).filter fun name => vendorOf results name = vendor).flatMap fun name =>
      configurationSection name (cells results name) (releases results)

/-- `"\n".join(lines).rstrip("\n") + "\n"` -/
def joinLines (lines : List String) : String :=
  String.ofList (("\n".intercalate lines).toList.reverse.dropWhile (· = '\n')).reverse ++ "\n"

def page (results : List Result) (run runUrl : Option String) : String :=
  let vendors := ordered (sortedSet ((configurations results).map (vendorOf results))) Matrix.vendors
  joinLines (header results run runUrl ++ vendors.flatMap (vendorSection results))

/-- the page and the badges by release, `none` for the `ValueError` of no results -/
def render (results : List Result) (run runUrl : Option String) : Option (String × Dict String Badge) :=
  if results = [] then none else some (page results run runUrl, badges results)

/-! ## Sample results, shaped like the session writes them -/

/-- `_test` of `tests/test_report.py` -/
def sampleTest (id : String) (entries : List String) (outcome : Outcome) : Test where
  id := id
  entries := entries
  outcome := outcome
  ok := outcome = .passed ∨ outcome = .skipped ∨ outcome = .xfailed
  reason := none

/-- `_result` of `tests/test_report.py`, on a machine of the banks -/
def sampleResult (release : String) (configuration : Option String) (banks : List String) (tests : List Test) :
    Result where
  finished := "2026-09-22T19:40:10+02:00"
  details :=
    { release := some release, image := some release, configuration := configuration, vendor := none, psp := none,
      banks := banks, qemu := some "QEMU emulator version 11.1.1 (v11.1.1-43-gabcdef)",
      qemuBundle := some "drtm-11.1.1-1",
      swtpm := some "TPM emulator version 0.7.3",
      commit := some "0123456789abcdef0123456789abcdef01234567", entries := ["xen_efi_launch", "linux_launch"] }
  tests := tests

/-! ## The results a page shows -/

/-- no two results are of one configuration and release -/
def Distinct (results : List Result) : Prop := (results.map fun r => (configuration r, release r)).Nodup

/-- the results no later one of their configuration and release replaces -/
def standing (results : List Result) : List Result := Dict.standing (fun r => (configuration r, release r)) results

theorem standing_eq {results : List Result} (h : Distinct results) : standing results = results := Dict.standing_eq h

theorem exists_standing {results : List Result} {r : Result} (h : r ∈ results) :
    ∃ s ∈ standing results, configuration s = configuration r ∧ release s = release r := by
  obtain ⟨s, hs, hkey⟩ := Dict.exists_standing (fun r => (configuration r, release r)) h
  exact ⟨s, hs, Prod.mk.inj hkey⟩

theorem byConfiguration_keys (results : List Result) :
    (byConfiguration results).keys = (results.map configuration).eraseDups :=
  Dict.keys_accumulate _ _ _ _

theorem mem_configurations {results : List Result} {name : String} :
    name ∈ configurations results ↔ ∃ r ∈ results, configuration r = name := by
  rw [configurations, mem_ordered, byConfiguration_keys, List.mem_eraseDups, List.mem_map]

theorem configurations_nodup (results : List Result) : (configurations results).Nodup :=
  ordered_nodup (Dict.keys_nodup _) (Dict.keys_nodup _)

theorem cells_eq (results : List Result) (name : String) :
    cells results name = Dict.index release (results.filter fun r => configuration r = name) := by
  rw [cells, byConfiguration, Dict.get?_accumulate]
  split_ifs with h
  · rfl
  · have hnil : results.filter (fun r => decide (configuration r = name)) = [] := by
      rw [List.filter_eq_nil_iff]
      intro r hr he
      exact h (List.mem_map.2 ⟨r, hr, by simpa using he⟩)
    rw [hnil]
    rfl

theorem cells_get? {results : List Result} {name rel : String} {r : Result} :
    (cells results name).get? rel = some r ↔ r ∈ standing results ∧ configuration r = name ∧ release r = rel := by
  have hkey : (results.filter fun r => configuration r = name).filter (fun r => release r = rel) =
      results.filter fun r => (configuration r, release r) = (name, rel) := by
    rw [List.filter_filter]
    apply List.filter_congr
    intro r _
    rw [← Bool.decide_and, decide_eq_decide, Prod.mk.injEq, and_comm]
  rw [cells_eq, Dict.get?_index, hkey, Dict.getLast?_filter_iff, Prod.mk.injEq, standing]

theorem results_of_configuration {results : List Result} {name : String} (h : name ∈ configurations results) :
    (releases results).filterMap (cells results name).get? ≠ [] := by
  obtain ⟨r, hr, rfl⟩ := mem_configurations.1 h
  obtain ⟨s, hs, hconf, hrel⟩ := exists_standing hr
  have hcell : (cells results (configuration r)).get? (release r) = some s := cells_get?.2 ⟨hs, hconf, hrel⟩
  have hmem : release r ∈ releases results := mem_ordered.2 (mem_sortedSet.2 (List.mem_map_of_mem hr))
  exact List.ne_nil_of_mem (List.mem_filterMap.2 ⟨release r, hmem, hcell⟩)

/-- the results a badge counts -/
def onRelease (results : List Result) (rel : String) : List Result :=
  (configurations results).filterMap fun name => (cells results name).get? rel

/-- every result of the release that stands is counted, once -/
theorem onRelease_perm (results : List Result) (rel : String) :
    (onRelease results rel).Perm ((standing results).filter fun r => release r = rel) := by
  have hstanding : (standing results).Nodup := List.Nodup.of_map _ (Dict.standing_map_nodup _ results)
  have hnodup : (onRelease results rel).Nodup := by
    apply (configurations_nodup results).filterMap
    intro name name' r hr hr'
    rw [Option.mem_def, cells_get?] at hr hr'
    exact hr.2.1.symm.trans hr'.2.1
  apply (List.perm_ext_iff_of_nodup hnodup (hstanding.filter _)).2
  intro r
  simp only [onRelease, List.mem_filterMap, cells_get?, List.mem_filter, decide_eq_true_eq]
  constructor
  · rintro ⟨name, -, hr, -, hrel⟩
    exact ⟨hr, hrel⟩
  · rintro ⟨hr, hrel⟩
    exact ⟨configuration r, mem_configurations.2 ⟨r, Dict.mem_of_mem_standing hr, rfl⟩, hr, rfl, hrel⟩

end DrtmTest.Report
