/-
`results.json`, from the session that writes it (`pytest_sessionfinish` of `drtmtest/session.py`, with `_details` of
`tests/conftest.py`) to the report that reads it (`load` and what the rest of `drtmtest/report.py` takes of a result).

A duration is what Python rounds it to, with its literal (`Clock`). What the report reads off a file is `resultOf`: none
where a field it needs is not there or is no string, list or flag. `limits` is how long an integer and how deep a value
`json.loads` takes.

- `result_read`: of a file a session wrote the report reads the session's tests and details.
- `loadFile_text`: it loads, the exit status being no longer than an integer may be. A file is four deep.
- `report_reads_sessions`: of a directory of them it reads every one, in the order of their paths.
-/
import DrtmTest.Core.JsonDumps
import DrtmTest.Entries
import DrtmTest.Report

namespace DrtmTest.ResultsFile

open DrtmTest.Session

/-! ## The writing side -/

/-- the literals of durations: of floats, which have no limit of digits -/
structure Clock (D : Type) where
  repr : D → String
  number : ∀ limits d, Json.readsNumber limits (repr d) = true

/-- `_details` -/
structure Details where
  release : Option String
  image : String
  configuration : Option String
  vendor : String
  psp : Option String
  banks : List String
  qemu : Option String
  qemuBundle : Option String
  swtpm : Option String
  commit : Option String
  entries : Dict String Entries.Entry

/-- what a session has when it ends -/
structure Finished (D : Type) where
  finished : String
  exitStatus : ℕ
  duration : D
  details : Details
  records : List (Record D)

/-- `None` or a string -/
def optional (value : Option String) : Json := value.elim .null .str

def strings (values : List String) : Json := .arr (values.map .str)

def firmwareName : Entries.Firmware → String
  | .dasharo => "dasharo"
  | .seabios => "seabios"

def entryJson (entry : Entries.Entry) : Json :=
  .obj [("title", .str entry.title), ("firmware", .str (firmwareName entry.firmware))]

def Details.json (d : Details) : Json :=
  .obj
    [("release", optional d.release), ("image", .str d.image), ("configuration", optional d.configuration),
      ("vendor", .str d.vendor), ("psp", optional d.psp), ("banks", strings d.banks), ("qemu", optional d.qemu),
      ("qemu_bundle", optional d.qemuBundle), ("swtpm", optional d.swtpm), ("commit", optional d.commit),
      ("entries", .obj (d.entries.entries.map fun e => (e.1, entryJson e.2)))]

variable {D : Type}

def recordJson (c : Clock D) (r : Record D) : Json :=
  .obj
    [("id", .str r.id), ("file", .str r.file), ("entries", strings r.entries), ("outcome", .str (Report.outcomeName r.outcome)),
      ("ok", .bool r.ok), ("reason", optional r.reason), ("duration", .num (c.repr r.duration))]

def Finished.json (c : Clock D) (f : Finished D) : Json :=
  .obj
    [("finished", .str f.finished), ("exit_status", .num (toString f.exitStatus)), ("duration", .num (c.repr f.duration)),
      ("details", f.details.json), ("tests", .arr (f.records.map (recordJson c)))]

/-- the text of the file -/
def Finished.text (c : Clock D) (f : Finished D) : List Char := Json.dumps (f.json c) ++ ['\n']

/-! ## The reading side -/

/-- `value.get(key)` -/
def get (key : String) : Json → Option Json
  | .obj fields => (fields.find? fun f => f.1 = key).map Prod.snd
  | _ => none

def str? : Json → Option String
  | .str s => some s
  | _ => none

def bool? : Json → Option Bool
  | .bool b => some b
  | _ => none

def strings? : Json → Option (List String)
  | .arr items => items.mapM str?
  | _ => none

/-- a string that may be missing or `None` -/
def optional? : Option Json → Option (Option String)
  | none | some .null => some none
  | some (.str s) => some (some s)
  | _ => none

def outcome? (name : String) : Option Outcome :=
  [Outcome.passed, .failed, .skipped, .xfailed, .xpassed].find? fun o => Report.outcomeName o = name

def testOf (v : Json) : Option Report.Test := do
  let id ← (← get "id" v) |> str?
  let entries ← (← get "entries" v) |> strings?
  let outcome ← (← (← get "outcome" v) |> str?) |> outcome?
  let ok ← (← get "ok" v) |> bool?
  let reason ← optional? (get "reason" v)
  return ⟨id, entries, outcome, ok, reason⟩

def detailsOf (v : Json) : Option Report.Details := do
  let release ← optional? (get "release" v)
  let image ← optional? (get "image" v)
  let configuration ← optional? (get "configuration" v)
  let vendor ← optional? (get "vendor" v)
  let psp ← optional? (get "psp" v)
  let banks ← ((get "banks" v).getD (.arr [])) |> strings?
  let qemu ← optional? (get "qemu" v)
  let qemuBundle ← optional? (get "qemu_bundle" v)
  let swtpm ← optional? (get "swtpm" v)
  let commit ← optional? (get "commit" v)
  let entries ← match (get "entries" v).getD (.obj []) with
    | .obj fields => some (fields.map Prod.fst)
    | _ => none
  return ⟨release, image, configuration, vendor, psp, banks, qemu, qemuBundle, swtpm, commit, entries⟩

/-- what the report takes of a result -/
def resultOf (v : Json) : Option Report.Result := do
  let finished ← (← get "finished" v) |> str?
  let details ← (← get "details" v) |> detailsOf
  let tests ← match ← get "tests" v with
    | .arr items => items.mapM testOf
    | _ => none
  return ⟨finished, details, tests⟩

inductive LoadError where
  /-- no results.json under the directory -/
  | noResults
  /-- what `json.loads` raises of a file -/
  | json (path : List String) (e : JsonError)

def loadFile (limits : Json.Limits) (file : List String × List Char) : Except LoadError Json :=
  match Json.loads limits file.2 with
  | .ok v => .ok v
  | .error e => .error (.json file.1 e)

/-- `load`, of the paths under the directory, in any order, and what they hold -/
def load (limits : Json.Limits) (files : List (List String × List Char)) : Except LoadError (List Json) :=
  if files = [] then .error .noResults else (files.insertionSort fun a b => a.1 ≤ b.1).mapM (loadFile limits)

/-! ## What is read -/

/-- a record as the report takes it -/
def Record.test (r : Record D) : Report.Test := ⟨r.id, r.entries, r.outcome, r.ok, r.reason⟩

def Details.read (d : Details) : Report.Details :=
  ⟨d.release, some d.image, d.configuration, some d.vendor, d.psp, d.banks, d.qemu, d.qemuBundle, d.swtpm, d.commit,
    d.entries.keys⟩

def Finished.result (f : Finished D) : Report.Result := ⟨f.finished, f.details.read, f.records.map Record.test⟩

theorem strings_read (values : List String) : strings? (strings values) = some values := by
  induction values with
  | nil => rfl
  | cons value values ih =>
    rw [strings, List.map_cons, strings?, List.mapM_cons]
    rw [strings, strings?] at ih
    rw [ih]
    rfl

theorem optional_read (value : Option String) : optional? (some (optional value)) = some value := by
  cases value <;> rfl

theorem outcome_read (o : Outcome) : outcome? (Report.outcomeName o) = some o := by
  cases o <;> decide

theorem test_read (c : Clock D) (r : Record D) : testOf (recordJson c r) = some (Record.test r) := by
  simp [testOf, recordJson, get, str?, bool?, strings_read, optional_read, outcome_read, Record.test]

theorem details_read (d : Details) : detailsOf d.json = some d.read := by
  have hkeys : (d.entries.entries.map fun e => (e.1, entryJson e.2)).map Prod.fst = d.entries.keys := by
    rw [List.map_map]
    rfl
  have himage : optional? (some (.str d.image)) = some (some d.image) := rfl
  have hvendor : optional? (some (.str d.vendor)) = some (some d.vendor) := rfl
  simp [detailsOf, Details.json, get, strings_read, optional_read, himage, hvendor, hkeys, Details.read]

theorem mapM_map {A B C : Type} {f : A → B} {g : B → Option C} {h : A → C} (hg : ∀ a, g (f a) = some (h a)) (l : List A) :
    (l.map f).mapM g = some (l.map h) := by
  induction l with
  | nil => rfl
  | cons a l ih =>
    rw [List.map_cons, List.mapM_cons, hg, ih]
    rfl

/-- what the report reads of a result a session wrote -/
theorem result_read (c : Clock D) (f : Finished D) : resultOf (f.json c) = some f.result := by
  have htests := mapM_map (test_read c) f.records
  simp [resultOf, Finished.json, get, str?, details_read, htests, Finished.result]

/-! ## The text between -/

theorem valid_strings (limits : Json.Limits) {room : ℕ} (hroom : 0 < room) (values : List String) :
    Json.Valid limits room (strings values) := by
  refine ⟨hroom, ?_⟩
  induction values with
  | nil => trivial
  | cons value values ih => exact ⟨trivial, ih⟩

theorem valid_optional (limits : Json.Limits) (room : ℕ) (value : Option String) : Json.Valid limits room (optional value) := by
  cases value <;> trivial

theorem valid_number (c : Clock D) (limits : Json.Limits) (room : ℕ) (d : D) : Json.Valid limits room (.num (c.repr d)) := by
  rw [Json.Valid]
  exact .inr (c.number limits d)

theorem valid_entries (limits : Json.Limits) {room : ℕ} (hroom : 0 < room) (l : List (String × Entries.Entry)) :
    Json.ValidFields limits room (l.map fun e => (e.1, entryJson e.2)) := by
  induction l with
  | nil => trivial
  | cons e l ih => exact ⟨⟨hroom, by simp, trivial, trivial, trivial⟩, ih⟩

theorem valid_details (limits : Json.Limits) {room : ℕ} (hroom : 2 < room) (d : Details) : Json.Valid limits room d.json := by
  have hinside : 1 < room - 1 := by omega
  refine ⟨by omega, by simp, valid_optional _ _ _, trivial, valid_optional _ _ _, trivial, valid_optional _ _ _,
    valid_strings _ (by omega) _, valid_optional _ _ _, valid_optional _ _ _, valid_optional _ _ _, valid_optional _ _ _,
    ⟨by omega, ?_, valid_entries _ (by omega) _⟩, trivial⟩
  rw [List.map_map]
  exact d.entries.nodup

theorem valid_records (c : Clock D) (limits : Json.Limits) {room : ℕ} (hroom : 1 < room) (records : List (Record D)) :
    Json.ValidItems limits room (records.map (recordJson c)) := by
  induction records with
  | nil => trivial
  | cons r records ih =>
    exact ⟨⟨by omega, by simp, trivial, trivial, valid_strings _ (by omega) _, trivial, trivial, valid_optional _ _ _,
      valid_number c _ _ _, trivial⟩, ih⟩

/-- an exit status no longer than an integer may be -/
def Short (limits : Json.Limits) (f : Finished D) : Prop := (toString f.exitStatus).length ≤ limits.digits

instance (limits : Json.Limits) (f : Finished D) : Decidable (Short limits f) := inferInstanceAs (Decidable (_ ≤ _))

theorem valid_result (c : Clock D) {limits : Json.Limits} {room : ℕ} (hroom : 4 ≤ room) {f : Finished D} (h : Short limits f) :
    Json.Valid limits room (f.json c) := by
  have hstatus : Json.Valid limits (room - 1) (.num (toString f.exitStatus)) := by
    rw [Json.Valid]
    exact .inr (Json.readsNumber_nat h)
  exact ⟨by omega, by simp, trivial, hstatus, valid_number c _ _ _, valid_details _ (by omega) _,
    ⟨by omega, valid_records c _ (by omega) _⟩, trivial⟩

theorem loadFile_text (c : Clock D) {limits : Json.Limits} (hdepth : 4 ≤ limits.depth) (path : List String) {f : Finished D}
    (h : Short limits f) : loadFile limits (path, f.text c) = .ok (f.json c) := by
  have hread := Json.loads_dumps (valid_result c hdepth h)
  rw [loadFile, Finished.text, hread]

/-! ## A directory of results -/

/-- what a directory holds -/
def files (c : Clock D) (tree : Dict (List String) (Finished D)) : List (List String × List Char) :=
  tree.entries.map fun e => (e.1, e.2.text c)

/-- its results in the order of their paths -/
def inOrder (tree : Dict (List String) (Finished D)) : List (List String × Finished D) :=
  tree.entries.insertionSort fun a b => a.1 ≤ b.1

theorem inOrder_perm (tree : Dict (List String) (Finished D)) : (inOrder tree).Perm tree.entries :=
  List.perm_insertionSort _ _

theorem inOrder_pairwise (tree : Dict (List String) (Finished D)) : (inOrder tree).Pairwise fun a b => a.1 < b.1 := by
  have hkeys : (inOrder tree).map Prod.fst = tree.keys.insertionSort (· ≤ ·) :=
    List.map_insertionSort _ _ _ _ fun _ _ _ _ => Iff.rfl
  have hsorted : (tree.keys.insertionSort (· ≤ ·)).Pairwise (· ≤ ·) := List.pairwise_insertionSort _ _
  have hnodup : (tree.keys.insertionSort (· ≤ ·)).Nodup := (List.perm_insertionSort _ _).nodup_iff.2 (Dict.keys_nodup tree)
  have hstrict : ((inOrder tree).map Prod.fst).Pairwise (· < ·) := by
    rw [hkeys]
    exact hsorted.imp₂ (fun _ _ hle hne => lt_of_le_of_ne hle hne) hnodup
  exact List.pairwise_map.1 hstrict

theorem inOrder_congr {tree other : Dict (List String) (Finished D)} (h : other.entries.Perm tree.entries) :
    inOrder other = inOrder tree :=
  (((inOrder_perm other).trans h).trans (inOrder_perm tree).symm).eq_of_pairwise
    (fun _ _ _ _ hab hba => absurd hab (lt_asymm hba)) (inOrder_pairwise other) (inOrder_pairwise tree)

theorem load_files (c : Clock D) {limits : Json.Limits} (hdepth : 4 ≤ limits.depth) {tree : Dict (List String) (Finished D)}
    (hshort : ∀ e ∈ tree.entries, Short limits e.2) :
    load limits (files c tree) =
      if tree.entries = [] then .error .noResults else .ok ((inOrder tree).map fun e => e.2.json c) := by
  have hsort : (files c tree).insertionSort (fun a b => a.1 ≤ b.1) = (inOrder tree).map fun e => (e.1, e.2.text c) :=
    (List.map_insertionSort (fun a b => a.1 ≤ b.1) (fun a b => a.1 ≤ b.1)
      (fun e : List String × Finished D => (e.1, e.2.text c)) tree.entries fun _ _ _ _ => Iff.rfl).symm
  have hread : ∀ l : List (List String × Finished D), (∀ e ∈ l, Short limits e.2) →
      (l.map fun e => (e.1, e.2.text c)).mapM (loadFile limits) = .ok (l.map fun e => e.2.json c) := fun l hl => by
    induction l with
    | nil => rfl
    | cons e l ih =>
      obtain ⟨he, hl⟩ := List.forall_mem_cons.1 hl
      rw [List.map_cons, List.mapM_cons, loadFile_text c hdepth e.1 he, ih hl]
      rfl
  have hnil : files c tree = [] ↔ tree.entries = [] := List.map_eq_nil_iff
  rw [load, hsort, hread (inOrder tree) fun e he => hshort e ((inOrder_perm tree).subset he)]
  simp only [hnil]

/-- **The report reads what the sessions wrote.** Of a directory of `results.json` files, in whatever order the file system
lists them, the report takes every session's result once, in the order of their paths: the tests with their outcomes and
reasons as the session recorded them, and its details. Of an empty one it takes nothing. There is stack for a value four
deep, and no exit status is longer than an integer may be. -/
theorem report_reads_sessions (c : Clock D) {limits : Json.Limits} (hdepth : 4 ≤ limits.depth)
    (tree : Dict (List String) (Finished D)) (hshort : ∀ e ∈ tree.entries, Short limits e.2) :
    (load limits (files c tree)).toOption.bind (fun values => values.mapM resultOf) =
        (if tree.entries = [] then none else some ((inOrder tree).map fun e => e.2.result)) ∧
      (inOrder tree).Perm tree.entries ∧ (inOrder tree).Pairwise (fun a b => a.1 < b.1) ∧
      ∀ other : Dict (List String) (Finished D), other.entries.Perm tree.entries →
        load limits (files c other) = load limits (files c tree) := by
  refine ⟨?_, inOrder_perm tree, inOrder_pairwise tree, fun other hperm => ?_⟩
  · rw [load_files c hdepth hshort]
    split_ifs
    · rfl
    · have hread := mapM_map (fun e : List String × Finished D => result_read c e.2) (inOrder tree)
      exact hread
  · have hnil : other.entries = [] ↔ tree.entries = [] :=
      ⟨fun h => (h ▸ hperm).symm.eq_nil, fun h => (h ▸ hperm).eq_nil⟩
    rw [load_files c hdepth hshort, load_files c hdepth fun e he => hshort e (hperm.subset he), inOrder_congr hperm]
    simp only [hnil]

/-- durations of whole seconds -/
def wholeSeconds : Clock ℕ where
  repr n := toString n ++ ".0"
  number := Json.readsNumber_whole

/-- a session on the image of a release, with one test that passed and one that was left out -/
def sampleFinished (release : String) (outcome : Outcome) : Finished ℕ where
  finished := "2026-09-22T19:40:10+02:00"
  exitStatus := 1
  duration := 754
  details :=
    { release := some release, image := release, configuration := none, vendor := "AuthenticAMD", psp := none,
      banks := ["sha1", "sha256"], qemu := some "QEMU emulator version 11.1.1", qemuBundle := none, swtpm := none,
      commit := none, entries := Dict.empty }
  records :=
    [⟨"tests/test_boot.py::test_boots[linux_launch]", "test_boot.py", ["linux_launch"], outcome, outcome != .failed, none, 41⟩,
      ⟨"tests/test_stress.py::test_repeated", "test_stress.py", [], .skipped, true, some "without --stress", 0⟩]

/-- two sessions' directories, the later listed first -/
def sampleTree : Dict (List String) (Finished ℕ) :=
  .ofPairs [(["0.6.1-amd", "results.json"], sampleFinished "0.6.1" .failed),
    (["0.6.0-amd", "results.json"], sampleFinished "0.6.0" .passed)]

theorem report_reads_sessions_two :
    (load ⟨4300, 900⟩ (files wholeSeconds sampleTree)).toOption.bind (fun values => values.mapM resultOf) =
      some [(sampleFinished "0.6.0" .passed).result, (sampleFinished "0.6.1" .failed).result] := by
  have hshort : ∀ e ∈ sampleTree.entries, Short ⟨4300, 900⟩ e.2 := by decide +kernel
  have horder : inOrder sampleTree = [(["0.6.0-amd", "results.json"], sampleFinished "0.6.0" .passed),
      (["0.6.1-amd", "results.json"], sampleFinished "0.6.1" .failed)] := by
    rfl
  have hread := (report_reads_sessions wholeSeconds (by decide) sampleTree hshort).1
  rw [horder, if_neg (by decide +kernel)] at hread
  exact hread

end DrtmTest.ResultsFile
