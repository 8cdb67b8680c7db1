/-
Lean model of a run of the boot matrix, from the selection of releases (`releases` and `workflow_matrix` of
`drtmtest/matrix.py`) over the sessions of its cells (what `tests/conftest.py` takes from the environment at its import, and
`_details`) to the report.

A `CellRun` is one session in the environment of a cell, whatever the ambient environment held.

- `setup_cell`, `details_cell`: a session takes its machine and its expectations from its cell, and records it.
- `matrix_run_reported`: so the report of any cells that ran shows each under its own configuration and release, and what
  keeps a badge from green is a failed test, or a configuration another release has results for.
-/
import DrtmTest.Badges
import DrtmTest.Entries
import DrtmTest.Environment
import DrtmTest.ResultsFile

namespace DrtmTest.MatrixRun

open DrtmTest.Sorted DrtmTest.Matrix DrtmTest.Environment DrtmTest.ResultsFile

/-! ## The selection -/

/-- `releases` of `drtmtest/matrix.py` -/
def selectedReleases (selection : String) : Except EnvironmentError (List String) :=
  let wanted := ((split selection).map stripped).filter (· ≠ "")
  if wanted = [] then .ok pinned.keys
  else
    let unknown := wanted.filter (· ∉ pinned.keys)
    if unknown ≠ [] then .error (.systemExit ("not pinned in drtmtest.trenchboot: " ++ ", ".intercalate unknown))
    else .ok wanted

structure WorkflowMatrix where
  release : List String
  configuration : List String

def workflowMatrix (selection : String) : Except EnvironmentError WorkflowMatrix := do
  return ⟨← selectedReleases selection, Matrix.configurations.keys⟩

theorem workflowMatrix_pinned {selection : String} {m : WorkflowMatrix} (h : workflowMatrix selection = .ok m) :
    (∀ tag ∈ m.release, tag ∈ pinned.keys) ∧ m.release ≠ [] ∧ m.configuration = Matrix.configurations.keys := by
  unfold workflowMatrix at h
  rcases hrels : selectedReleases selection with e | rels
  · rw [hrels] at h
    cases h
  · rw [hrels] at h
    cases h
    unfold selectedReleases at hrels
    simp only at hrels
    split_ifs at hrels with hnone hunknown
    · cases hrels
      exact ⟨fun tag htag => htag, by decide, rfl⟩
    · cases hrels
      refine ⟨fun tag htag => ?_, hnone, rfl⟩
      by_contra hno
      have hmem : tag ∈ (((split selection).map stripped).filter (· ≠ "")).filter (· ∉ pinned.keys) :=
        List.mem_filter.2 ⟨htag, by simpa using hno⟩
      rw [not_not.1 hunknown] at hmem
      cases hmem

/-! ## A session -/

inductive SetupError where
  | environment (e : EnvironmentError)
  /-- the release is not pinned -/
  | notPinned (tag : String) (known : List String)

/-- what the host shows a session -/
structure Host where
  /-- what `Path` makes of a text that names a regular file -/
  files : String → Option String
  /-- the modification time of a path -/
  modified : String → String
  legacyBootable : Bool
  qemu : Option String
  qemuBundle : Option String
  swtpm : Option String
  commit : Option String

section

variable (L : Lower) (h : Host) (environ : Dict String String)

/-- whether the image under test is an upstream release -/
def upstream : Except SetupError Bool := do
  match ← (release h.files environ).mapError .environment with
  | none => return false
  | some tag =>
    match pinned.get? tag with
    | none => throw (.notPinned tag pinned.keys)
    | some r => return r.upstream

/-- `VENDOR`, `PSP`, `BANKS` and what the expectations ask of the image -/
def setup : Except SetupError Entries.Setup := do
  let vendor ← (vendor L environ).mapError .environment
  let psp ← (pspMode L environ).mapError .environment
  let upstream ← upstream h environ
  return ⟨vendor, psp, pcrBanks L environ, upstream, h.legacyBootable⟩

/-- what a run booted -/
def description : Except EnvironmentError String := do
  match ← localImage h.files environ with
  | none => return (← release h.files environ).getD "None"
  | some path => return path ++ " (modified " ++ h.modified path ++ ")"

/-- `_details` -/
def details : Except EnvironmentError Details := do
  let release ← release h.files environ
  let image ← description h environ
  let configuration ← current L Matrix.configurations environ
  let vendor ← vendor L environ
  let psp ← pspMode L environ
  return ⟨release, image, configuration, vendor, psp, pcrBanks L environ, h.qemu, h.qemuBundle, h.swtpm, h.commit,
    Entries.entries psp⟩

end

/-! ## The sessions of cells -/

/-- one session of a cell, under any ambient environment -/
structure CellRun (L : Lower) (D : Type) where
  release : String
  configuration : String
  ambient : Dict String String
  environ : Dict String String
  host : Host
  finished : Finished D
  ran : environment pinned Matrix.configurations ambient release configuration = .ok environ
  recorded : details L host environ = .ok finished.details

/-- the banks of the table are lists of plain names -/
theorem configurations_banks (L : Lower) : ∀ x ∈ Matrix.configurations.entries, BanksListed L x.2 := by
  have hname : ∀ name ∈ ["sha1", "sha256", "sha384"], BankName L name := by
    intro name hname
    have hplain : ∀ name ∈ ["sha1", "sha256", "sha384"], Plain name ∧ name ≠ "" ∧ ',' ∉ name.toList := by decide
    obtain ⟨hp, hne, hcomma⟩ := hplain name hname
    exact ⟨hne, lower_plain L hp, fun c hc => ⟨(hp c hc).2.2, fun h => hcomma (h ▸ hc)⟩⟩
  intro x hx banks hb
  have htable : ∀ x ∈ Matrix.configurations.entries, x.2.banks = none ∨ x.2.banks = some (join ["sha256"]) ∨
      x.2.banks = some (join ["sha1", "sha256", "sha384"]) := by decide +kernel
  rcases htable x hx with h | h | h
  · rw [h] at hb
    cases hb
  · rw [h] at hb
    cases hb
    exact ⟨["sha256"], fun name hn => hname name (by simp_all), rfl⟩
  · rw [h] at hb
    cases hb
    exact ⟨["sha1", "sha256", "sha384"], hname, rfl⟩

theorem configurations_vendors : ∀ x ∈ Matrix.configurations.entries, x.2.vendor ∈ vendors := by decide

theorem configurations_identity : (Matrix.configurations.entries.map fun x => identity x.2).Nodup := by decide +kernel

/-- the mode of the service is the one its release needs -/
theorem pspMode_cell (L : Lower) {environ e : Dict String String} {tag : String} {c : Configuration} {r : Release}
    (he : Cell environ tag c r e) : pspMode L e = .ok (ownMode c r) := by
  have hread : read L e "DRTM_PSP" = (ownMode c r).getD "" := by
    apply read_plain L (by rw [he.psp])
    unfold ownMode
    split_ifs <;> decide
  unfold pspMode
  rw [hread, ownMode]
  cases c.psp <;> cases r.upstream <;> rfl

section CellRun

variable {L : Lower} {D : Type} (run : CellRun L D)

/-- the cell of a session -/
theorem CellRun.cell : ∃ c r, Matrix.configurations.get? run.configuration = some c ∧ pinned.get? run.release = some r ∧
    Cell run.ambient run.release c r run.environ := by
  have hran := run.ran
  rcases hr : pinned.get? run.release with _ | r
  · unfold environment at hran
    rw [if_pos (Dict.get?_eq_none.1 hr)] at hran
    cases hran
  · have htag : run.release ∈ pinned.keys := Dict.mem_keys.2 ⟨r, hr⟩
    rcases hc : Matrix.configurations.get? run.configuration with _ | c
    · unfold environment at hran
      rw [if_neg (not_not.2 htag), hc] at hran
      cases hran
    · obtain ⟨e, he, hcell⟩ := environment_cell run.ambient hr hc
      rw [hran] at he
      cases he
      exact ⟨c, r, rfl, rfl, hcell⟩

/-- what a session takes from the environment of its cell -/
theorem setup_cell (h : Host) {environ e : Dict String String} {tag name : String} {c : Configuration} {r : Release}
    (hc : Matrix.configurations.get? name = some c) (hr : pinned.get? tag = some r) (he : Cell environ tag c r e) :
    setup L h e = .ok ⟨c.vendor, ownMode c r, split (wanted c), r.upstream, h.legacyBootable⟩ := by
  have hmem : (name, c) ∈ Matrix.configurations.entries := Dict.mem_entries.2 hc
  have hup : upstream h e = .ok r.upstream := by
    rw [upstream, release_cell h.files he]
    simp only [Except.mapError, bind, Except.bind, hr]
    rfl
  rw [setup, vendor_own L (configurations_vendors _ hmem) he.vendor, pspMode_cell L he, hup,
    pcrBanks_own L (configurations_banks L _ hmem) he.banks]
  rfl

/-- what a session records of its cell -/
theorem details_cell (h : Host) {environ e : Dict String String} {tag name : String} {c : Configuration} {r : Release}
    (hc : Matrix.configurations.get? name = some c) (he : Cell environ tag c r e) :
    details L h e = .ok ⟨some tag, tag, some name, c.vendor, ownMode c r, split (wanted c), h.qemu, h.qemuBundle, h.swtpm,
      h.commit, Entries.entries (ownMode c r)⟩ := by
  have hmem : (name, c) ∈ Matrix.configurations.entries := Dict.mem_entries.2 hc
  have hlocal : localImage h.files e = .ok none := by
    rw [localImage, he.image]
    rfl
  have himage : description h e = .ok tag := by
    rw [description, hlocal, release_cell h.files he]
    rfl
  rw [details, release_cell h.files he, himage, current_cell L configurations_identity hc (configurations_vendors _ hmem)
    (configurations_banks L _ hmem) he, vendor_own L (configurations_vendors _ hmem) he.vendor, pspMode_cell L he,
    pcrBanks_own L (configurations_banks L _ hmem) he.banks]
  rfl

theorem configurations_named : "" ∉ Matrix.configurations.keys := by decide

theorem releases_named : "" ∉ pinned.keys := by decide

/-- the report puts a session in its cell -/
theorem CellRun.reported : Report.configuration run.finished.result = run.configuration ∧
    Report.release run.finished.result = run.release := by
  obtain ⟨c, r, hc, hr, hcell⟩ := run.cell
  have hdetails := run.recorded
  rw [details_cell run.host hc hcell] at hdetails
  have hconf : run.configuration ≠ "" := fun hempty =>
    configurations_named (hempty ▸ Dict.mem_keys.2 ⟨c, hc⟩)
  have hrel : run.release ≠ "" := fun hempty => releases_named (hempty ▸ Dict.mem_keys.2 ⟨r, hr⟩)
  constructor
  · rw [Report.configuration, Finished.result, ← Except.ok.inj hdetails]
    exact if_neg hconf
  · rw [Report.release, Finished.result, ← Except.ok.inj hdetails]
    exact if_neg hrel

end CellRun

/-! ## The report of a run -/

section Report

variable {L : Lower} {D : Type}

/-- what the report reads of the sessions -/
def results (runs : List (CellRun L D)) : List Report.Result := runs.map fun run => run.finished.result

/-- every cell of the matrix has a session -/
def Complete (m : WorkflowMatrix) (runs : List (CellRun L D)) : Prop :=
  ∀ tag ∈ m.release, ∀ name ∈ m.configuration, ∃ run ∈ runs, run.release = tag ∧ run.configuration = name

/-- the badge of a release whose cells all ran -/
def verdict (tag : String) (tests : List Report.Test) : Report.Badge :=
  if tests.countP (fun t => !t.ok) ≠ 0 then ⟨1, tag, toString (tests.countP fun t => !t.ok) ++ " failed", "red"⟩
  else ⟨1, tag, toString (tests.countP fun t => t.ok) ++ " passed", "brightgreen"⟩

theorem mem_results {runs : List (CellRun L D)} {result : Report.Result} (h : result ∈ results runs) :
    ∃ run ∈ runs, run.finished.result = result := List.mem_map.1 h

theorem results_mem {runs : List (CellRun L D)} {run : CellRun L D} (h : run ∈ runs) :
    run.finished.result ∈ results runs := List.mem_map.2 ⟨run, h, rfl⟩

theorem mem_configurations {runs : List (CellRun L D)} {name : String} :
    name ∈ Report.configurations (results runs) ↔ ∃ run ∈ runs, run.configuration = name := by
  rw [Report.mem_configurations]
  constructor
  · rintro ⟨result, hresult, rfl⟩
    obtain ⟨run, hrun, rfl⟩ := mem_results hresult
    exact ⟨run, hrun, run.reported.1.symm⟩
  · rintro ⟨run, hrun, rfl⟩
    exact ⟨_, results_mem hrun, run.reported.1⟩

theorem mem_releases {runs : List (CellRun L D)} {tag : String} :
    tag ∈ Report.releases (results runs) ↔ ∃ run ∈ runs, run.release = tag := by
  rw [Report.releases, mem_ordered, mem_sortedSet, List.mem_map]
  constructor
  · rintro ⟨result, hresult, rfl⟩
    obtain ⟨run, hrun, rfl⟩ := mem_results hresult
    exact ⟨run, hrun, run.reported.2.symm⟩
  · rintro ⟨run, hrun, rfl⟩
    exact ⟨_, results_mem hrun, run.reported.2⟩

/-- a complete run has the page of the matrix -/
theorem complete_configurations {m : WorkflowMatrix} {selection : String} (hm : workflowMatrix selection = .ok m)
    {runs : List (CellRun L D)} (hall : Complete m runs) : Report.configurations (results runs) = m.configuration := by
  obtain ⟨-, hne, hconf⟩ := workflowMatrix_pinned hm
  obtain ⟨tag, htag⟩ := List.exists_mem_of_ne_nil _ hne
  have hknown : ∀ name ∈ (Report.byConfiguration (results runs)).keys, name ∈ Matrix.configurations.keys := by
    intro name hname
    rw [Report.byConfiguration_keys, List.mem_eraseDups, List.mem_map] at hname
    obtain ⟨result, hresult, rfl⟩ := hname
    obtain ⟨run, -, rfl⟩ := mem_results hresult
    obtain ⟨c, -, hc, -⟩ := run.cell
    rw [run.reported.1]
    exact Dict.mem_keys.2 ⟨c, hc⟩
  have hfound : ∀ name ∈ Matrix.configurations.keys, name ∈ (Report.byConfiguration (results runs)).keys := by
    intro name hname
    obtain ⟨run, hrun, -, rfl⟩ := hall tag htag name (hconf ▸ hname)
    have hlisted := mem_configurations.2 ⟨run, hrun, rfl⟩
    rwa [Report.configurations, mem_ordered] at hlisted
  rw [Report.configurations, ordered_known hknown, hconf]
  exact List.filter_eq_self.2 fun name hname => decide_eq_true (hfound name hname)

/-- what is shown in a cell is the last of its sessions -/
theorem cell_shown {runs : List (CellRun L D)} {name tag : String} {result : Report.Result}
    (h : (Report.cells (results runs) name).get? tag = some result) :
    ∃ run ∈ runs, run.configuration = name ∧ run.release = tag ∧ run.finished.result = result := by
  obtain ⟨hstanding, hname, htag⟩ := Report.cells_get?.1 h
  obtain ⟨run, hrun, rfl⟩ := mem_results (Dict.mem_of_mem_standing hstanding)
  exact ⟨run, hrun, run.reported.1.symm.trans hname, run.reported.2.symm.trans htag, rfl⟩

theorem cell_some {runs : List (CellRun L D)} {run : CellRun L D} (h : run ∈ runs) :
    ∃ result, (Report.cells (results runs) run.configuration).get? run.release = some result := by
  obtain ⟨s, hs, hconf, hrel⟩ := Report.exists_standing (results_mem h)
  exact ⟨s, Report.cells_get?.2 ⟨hs, hconf.trans run.reported.1, hrel.trans run.reported.2⟩⟩

/-- nothing is missing for a release all of whose cells ran -/
theorem badge_complete {runs : List (CellRun L D)} {tag : String}
    (h : ∀ run ∈ runs, ∃ run' ∈ runs, run'.configuration = run.configuration ∧ run'.release = tag) :
    Report.badge tag (Report.cells (results runs)) (Report.configurations (results runs)) =
      verdict tag (Badges.testsOf (results runs) tag) := by
  have hmissing : (Report.configurations (results runs)).countP (fun name =>
      ((Report.cells (results runs) name).get? tag).isNone) = 0 := by
    refine Badges.missing_eq_zero.2 fun result hresult => ?_
    obtain ⟨run, hrun, rfl⟩ := mem_results hresult
    obtain ⟨run', hrun', hconf, hrel⟩ := h run hrun
    exact ⟨_, results_mem hrun', by rw [run'.reported.1, run.reported.1, hconf], by rw [run'.reported.2, hrel]⟩
  rw [Badges.badge_eq, if_neg (not_not.2 hmissing)]
  rfl

/-- **A matrix run is reported cell by cell.** Take any selection the matrix accepts and any sessions of its cells, each
under any ambient environment. What the report shows for a configuration and a release is what a session of that cell
recorded, on that cell's machine and with that release's expectations, and every cell that ran is shown. Where all of them
ran, the page has the configurations of the matrix and the releases selected, and the badge of a release says how many tests of
its cells failed, or, with none, how many passed. Where one did not, its release is green only if no other release ran under
its configuration either. -/
theorem matrix_run_reported (L : Lower) {D : Type} (selection : String) (m : WorkflowMatrix)
    (hm : workflowMatrix selection = .ok m) (runs : List (CellRun L D)) (hruns : ∀ run ∈ runs, run.release ∈ m.release) :
    (∀ name tag result, (Report.cells (results runs) name).get? tag = some result →
        ∃ run ∈ runs, run.configuration = name ∧ run.release = tag ∧ run.finished.result = result ∧
          ∃ c r, Matrix.configurations.get? name = some c ∧ pinned.get? tag = some r ∧
            setup L run.host run.environ =
              .ok ⟨c.vendor, ownMode c r, split (wanted c), r.upstream, run.host.legacyBootable⟩) ∧
      (∀ run ∈ runs, ∃ result, (Report.cells (results runs) run.configuration).get? run.release = some result) ∧
      (Complete m runs → Report.configurations (results runs) = m.configuration ∧
        (∀ tag, tag ∈ Report.releases (results runs) ↔ tag ∈ m.release) ∧
        ∀ tag ∈ m.release, (Report.badges (results runs)).get? tag = some (verdict tag (Badges.testsOf (results runs) tag))) ∧
      ∀ tag b, (Report.badges (results runs)).get? tag = some b → b.color = "brightgreen" →
        ∀ run ∈ runs, ∃ run' ∈ runs, run'.configuration = run.configuration ∧ run'.release = tag := by
  refine ⟨fun name tag result h => ?_, fun run hrun => cell_some hrun, fun hall => ?_, fun tag b hb hgreen run hrun => ?_⟩
  · obtain ⟨run, hrun, rfl, rfl, hresult⟩ := cell_shown h
    obtain ⟨c, r, hc, hr, hcell⟩ := run.cell
    exact ⟨run, hrun, rfl, rfl, hresult, c, r, hc, hr, setup_cell run.host hc hr hcell⟩
  · have hconfigurations := complete_configurations hm hall
    have hreleases : ∀ tag, tag ∈ Report.releases (results runs) ↔ tag ∈ m.release := by
      intro tag
      rw [mem_releases]
      constructor
      · rintro ⟨run, hrun, rfl⟩
        exact hruns run hrun
      · intro htag
        obtain ⟨name, hname⟩ := List.exists_mem_of_ne_nil m.configuration (by
          rw [(workflowMatrix_pinned hm).2.2]
          decide)
        obtain ⟨run, hrun, hrel, -⟩ := hall tag htag name hname
        exact ⟨run, hrun, hrel⟩
    refine ⟨hconfigurations, hreleases, fun tag htag => ?_⟩
    rw [Report.badges, Dict.get?_ofKeys, if_pos ((hreleases tag).2 htag), badge_complete]
    intro run hrun
    have hname : run.configuration ∈ m.configuration := hconfigurations ▸ mem_configurations.2 ⟨run, hrun, rfl⟩
    obtain ⟨run', hrun', hrel, hconf⟩ := hall tag htag run.configuration hname
    exact ⟨run', hrun', hconf, hrel⟩
  · rw [Report.badges, Dict.get?_ofKeys] at hb
    split_ifs at hb
    cases hb
    rw [Badges.badge_eq] at hgreen
    split_ifs at hgreen with hfailed hmissing
    · exact absurd hgreen Badges.red_ne
    · exact absurd hgreen Badges.red_ne
    · obtain ⟨result, hresult, hconf, hrel⟩ := Badges.missing_eq_zero.1 (not_not.1 hmissing) _ (results_mem hrun)
      obtain ⟨run', hrun', rfl⟩ := mem_results hresult
      exact ⟨run', hrun', by rw [← run'.reported.1, hconf, run.reported.1], by rw [← run'.reported.2, hrel]⟩

end Report

def sampleHost : Host := ⟨fun _ => none, id, true, some "QEMU emulator version 11.1.1", some "drtm-11.1.1-1", none, none⟩

/-- what a shell leaks into the sessions -/
def ambient : Dict String String := ⟨[("DRTM_VENDOR", "Intel"), ("DRTM_TB_IMAGE", "/tmp/local.wic")], by decide⟩

def cellEnviron (tag name : String) : Dict String String :=
  (environment pinned Matrix.configurations ambient tag name).toOption.getD ∅

theorem cellEnviron_cell {tag name : String} {c : Configuration} {r : Release} (hr : pinned.get? tag = some r)
    (hc : Matrix.configurations.get? name = some c) :
    environment pinned Matrix.configurations ambient tag name = .ok (cellEnviron tag name) ∧
      Cell ambient tag c r (cellEnviron tag name) := by
  obtain ⟨e, he, hcell⟩ := environment_cell ambient hr hc
  rw [cellEnviron, he]
  exact ⟨rfl, hcell⟩

/-- one test in every cell; it fails on the second release with the service -/
def sampleRecord (tag : String) (c : Configuration) : Session.Record ℕ :=
  if c.psp ∧ tag = "v0.5.3-rc1" then ⟨"tests/test_launch.py::test_launch", "tests/test_launch.py", [], .failed, false, none, 3⟩
  else ⟨"tests/test_launch.py::test_launch", "tests/test_launch.py", [], .passed, true, none, 3⟩

def sampleRun {tag name : String} {c : Configuration} {r : Release} (hr : pinned.get? tag = some r)
    (hc : Matrix.configurations.get? name = some c) : CellRun asciiLower ℕ where
  release := tag
  configuration := name
  ambient := ambient
  environ := cellEnviron tag name
  host := sampleHost
  finished := ⟨"2026-09-22T19:40:10+02:00", 0, 80, ⟨some tag, tag, some name, c.vendor, ownMode c r, split (wanted c),
    sampleHost.qemu, sampleHost.qemuBundle, sampleHost.swtpm, sampleHost.commit, Entries.entries (ownMode c r)⟩,
    [sampleRecord tag c]⟩
  ran := (cellEnviron_cell hr hc).1
  recorded := details_cell sampleHost hc (cellEnviron_cell hr hc).2

/-- every cell of a release -/
def releaseRuns {tag : String} {r : Release} (hr : pinned.get? tag = some r) : List (CellRun asciiLower ℕ) :=
  Matrix.configurations.entries.attach.map fun x => sampleRun hr (Dict.mem_entries.1 x.2)

theorem pinned_first : pinned.get? "v0.5.2" = some ((pinned.get? "v0.5.2").get rfl) := rfl

theorem pinned_second : pinned.get? "v0.5.3-rc1" = some ((pinned.get? "v0.5.3-rc1").get rfl) := rfl

def sampleRuns : List (CellRun asciiLower ℕ) := releaseRuns pinned_first ++ releaseRuns pinned_second

theorem releaseRuns_complete {tag name : String} {r : Release} (hr : pinned.get? tag = some r)
    (hname : name ∈ Matrix.configurations.keys) : ∃ run ∈ releaseRuns hr, run.release = tag ∧ run.configuration = name := by
  obtain ⟨c, hc⟩ := Dict.mem_keys.1 hname
  exact ⟨_, List.mem_map.2 ⟨⟨(name, c), Dict.mem_entries.2 hc⟩, List.mem_attach _ _, rfl⟩, rfl, rfl⟩

/-- two releases selected with blanks around them, in an environment that leaks a third: the second fails where the service
is -/
theorem matrix_run_reported_two : Report.configurations (results sampleRuns) = Matrix.configurations.keys ∧
    (Report.badges (results sampleRuns)).get? "v0.5.2" = some ⟨1, "v0.5.2", "8 passed", "brightgreen"⟩ ∧
    (Report.badges (results sampleRuns)).get? "v0.5.3-rc1" = some ⟨1, "v0.5.3-rc1", "2 failed", "red"⟩ ∧
    ∀ run ∈ sampleRuns, ∃ run' ∈ sampleRuns, run'.configuration = run.configuration ∧ run'.release = "v0.5.2" := by
  have hselected : workflowMatrix " v0.5.2, v0.5.3-rc1" = .ok ⟨["v0.5.2", "v0.5.3-rc1"], Matrix.configurations.keys⟩ := by
    have hwanted : ((split " v0.5.2, v0.5.3-rc1").map stripped).filter (· ≠ "") = ["v0.5.2", "v0.5.3-rc1"] := by
      decide +kernel
    rw [workflowMatrix, selectedReleases]
    simp only [hwanted]
    rfl
  have hruns : ∀ run ∈ sampleRuns, run.release ∈ ["v0.5.2", "v0.5.3-rc1"] := by
    intro run hrun
    rcases List.mem_append.1 hrun with h | h
    · obtain ⟨x, -, rfl⟩ := List.mem_map.1 h
      exact List.mem_cons_self
    · obtain ⟨x, -, rfl⟩ := List.mem_map.1 h
      exact List.mem_cons_of_mem _ List.mem_cons_self
  have hcomplete : Complete ⟨["v0.5.2", "v0.5.3-rc1"], Matrix.configurations.keys⟩ sampleRuns := by
    intro tag htag name hname
    rcases List.mem_pair.1 htag with rfl | rfl
    · obtain ⟨run, hrun, hcell⟩ := releaseRuns_complete pinned_first hname
      exact ⟨run, List.mem_append_left _ hrun, hcell⟩
    · obtain ⟨run, hrun, hcell⟩ := releaseRuns_complete pinned_second hname
      exact ⟨run, List.mem_append_right _ hrun, hcell⟩
  obtain ⟨-, -, hall, hgreen⟩ := matrix_run_reported asciiLower " v0.5.2, v0.5.3-rc1" _ hselected sampleRuns hruns
  obtain ⟨hconfigurations, -, hbadges⟩ := hall hcomplete
  have hpassed : verdict "v0.5.2" (Badges.testsOf (results sampleRuns) "v0.5.2") = ⟨1, "v0.5.2", "8 passed", "brightgreen"⟩ := by
    decide +kernel
  have hfailed : verdict "v0.5.3-rc1" (Badges.testsOf (results sampleRuns) "v0.5.3-rc1") =
      ⟨1, "v0.5.3-rc1", "2 failed", "red"⟩ := by decide +kernel
  have hfirst := hbadges "v0.5.2" List.mem_cons_self
  have hsecond := hbadges "v0.5.3-rc1" (List.mem_cons_of_mem _ List.mem_cons_self)
  rw [hpassed] at hfirst
  rw [hfailed] at hsecond
  exact ⟨hconfigurations, hfirst, hsecond, hgreen "v0.5.2" _ hfirst rfl⟩

end DrtmTest.MatrixRun
