/-
Lean model of the environment of one matrix cell: what a configuration sets (`Configuration.env` and `environment` of
`drtmtest/matrix.py`) and what a session reads back (`vendor` and `psp_mode` of `drtmtest/machine.py`, `pcr_banks` of
`drtmtest/qemu_vm.py`, `local_image` and `release` of `drtmtest/trenchboot.py`, `current`).

The tables of releases and configurations are parameters, and so are `str.lower` (`Lower`, by the two facts the code
relies on) and the files a path may name.
- `vendor_own`, `pspMode_own`, `pcrBanks_own`: each reader finds what the configuration set, with the default of its own
  where the configuration set nothing.
- `environment_current`: in the environment of a cell the session is that cell, whatever the ambient environment held.
-/
import DrtmTest.Core.Text
import DrtmTest.Matrix

namespace DrtmTest.Environment

open DrtmTest.Text DrtmTest.Matrix

/-! ## Texts -/

/-- `str.lower`: a text is lower-case exactly when each of its characters is, and ASCII is mapped one by one -/
structure Lower where
  lower : String → String
  lower_eq_self : ∀ s, lower s = s ↔ ∀ c ∈ s.toList, lower (String.singleton c) = String.singleton c
  lower_ascii : ∀ c : Char, c.toNat < 128 → lower (String.singleton c) = String.singleton c.toLower

/-- `s.strip()` -/
def stripped (s : String) : String := String.ofList (strip s.toList)

/-- `s.split(",")` -/
def split (s : String) : List String := (s.toList.splitOn ',').map String.ofList

/-- `",".join(names)` -/
def join (names : List String) : String := ",".intercalate names

/-! ## The reading side -/

inductive EnvironmentError where
  /-- `DRTM_VENDOR` is not amd or intel -/
  | vendor (value : String)
  /-- `DRTM_PSP` is not off, on or classic -/
  | psp (value : String)
  /-- `DRTM_TB_IMAGE` and `DRTM_TB_RELEASE` are both set -/
  | imageAndRelease
  /-- `DRTM_TB_IMAGE` is not a file -/
  | image (value : String)
  | keyError (key : String)
  | systemExit (msg : String)
deriving DecidableEq

/-- `os.environ.get(key, "").strip().lower()` -/
def read (L : Lower) (environ : Dict String String) (key : String) : String :=
  L.lower (stripped ((environ.get? key).getD ""))

def vendor (L : Lower) (environ : Dict String String) : Except EnvironmentError String :=
  let value := read L environ "DRTM_VENDOR"
  let value := if value = "" then "amd" else value
  if value ∈ vendors then .ok value else .error (.vendor value)

def pspMode (L : Lower) (environ : Dict String String) : Except EnvironmentError (Option String) :=
  let value := read L environ "DRTM_PSP"
  if value ∈ ["", "off"] then .ok none
  else if value ∈ ["on", "classic"] then .ok (some value)
  else .error (.psp value)

/-- `PCR_BANKS` -/
def defaultBanks : List String := ["sha1", "sha256"]

def pcrBanks (L : Lower) (environ : Dict String String) : List String :=
  let value := read L environ "DRTM_PCR_BANKS"
  if value = "" then defaultBanks else ((split value).filter fun bank => stripped bank ≠ "").map stripped

/-- `configuration.banks or ",".join(qemu_vm.PCR_BANKS)` -/
def wanted (c : Configuration) : String :=
  match c.banks with
  | none => join defaultBanks
  | some banks => if banks = "" then join defaultBanks else banks

def current (L : Lower) (configs : Dict String Configuration) (environ : Dict String String) :
    Except EnvironmentError (Option String) := do
  let vendor ← vendor L environ
  let psp := (← pspMode L environ).isSome
  let banks := pcrBanks L environ
  return (configs.entries.find? fun e =>
    vendor = e.2.vendor ∧ psp = e.2.psp ∧ banks = split (wanted e.2)).map Prod.fst

/-- `files` gives the resolved path of the regular file a text names, if it names one -/
def localImage (files : String → Option String) (environ : Dict String String) :
    Except EnvironmentError (Option String) :=
  let value := (environ.get? "DRTM_TB_IMAGE").getD ""
  if value = "" then .ok none
  else if (environ.get? "DRTM_TB_RELEASE").getD "" ≠ "" then .error .imageAndRelease
  else match files value with
    | some path => .ok (some path)
    | none => .error (.image value)

def release (files : String → Option String) (environ : Dict String String) :
    Except EnvironmentError (Option String) := do
  if (← localImage files environ).isSome then return none
  return some ((environ.get? "DRTM_TB_RELEASE").getD defaultRelease)

/-! ## The setting side -/

/-- `Configuration.env` -/
def env (rels : Dict String Release) (c : Configuration) (tag : String) :
    Except EnvironmentError (Dict String String) := do
  let env := if c.vendor ≠ "amd" then (∅ : Dict String String).set "DRTM_VENDOR" c.vendor else ∅
  let env ← if c.psp then
      match rels.get? tag with
      | none => throw (.keyError tag)
      | some r => pure (env.set "DRTM_PSP" (if r.upstream then "classic" else "on"))
    else pure env
  return match c.banks with
    | none => env
    | some banks => env.set "DRTM_PCR_BANKS" banks

/-- `_VARIABLES` -/
def ownVariables : List String := ["DRTM_VENDOR", "DRTM_PSP", "DRTM_PCR_BANKS"]

def environment (rels : Dict String Release) (configs : Dict String Configuration) (environ : Dict String String)
    (tag configuration : String) : Except EnvironmentError (Dict String String) := do
  if tag ∉ rels.keys then throw (.systemExit (tag ++ " is not pinned in drtmtest.trenchboot"))
  match configs.get? configuration with
  | none => throw (.systemExit (configuration ++ " is not in drtmtest.matrix"))
  | some c =>
    let own ← env rels c tag
    let base := (environ.filterKeys (· ∉ ownVariables)).filterKeys (· ≠ "DRTM_TB_IMAGE")
    return (base.set "DRTM_TB_RELEASE" tag).update own

/-! ## What a cell's environment holds -/

/-- assignment of a value that may be missing -/
def assign (d : Dict String String) (key : String) (value : Option String) : Dict String String :=
  match value with
  | none => d
  | some v => d.set key v

theorem get?_assign (d : Dict String String) (key key' : String) (value : Option String) :
    (assign d key value).get? key' = if key' = key then value.or (d.get? key') else d.get? key' := by
  cases value with
  | none => simp [assign]
  | some v =>
    rw [assign, Dict.get?_set]
    split_ifs
    · rw [Option.some_or]
    · rfl

/-- what a configuration sets `DRTM_VENDOR` to -/
def ownVendor (c : Configuration) : Option String := if c.vendor = "amd" then none else some c.vendor

/-- what a configuration sets `DRTM_PSP` to, for a release -/
def ownMode (c : Configuration) (r : Release) : Option String :=
  if c.psp then some (if r.upstream then "classic" else "on") else none

theorem env_eq {rels : Dict String Release} (c : Configuration) {tag : String} {r : Release}
    (hr : rels.get? tag = some r) :
    env rels c tag =
      .ok (assign (assign (assign ∅ "DRTM_VENDOR" (ownVendor c)) "DRTM_PSP" (ownMode c r)) "DRTM_PCR_BANKS" c.banks) := by
  have hvendor : (if c.vendor ≠ "amd" then (∅ : Dict String String).set "DRTM_VENDOR" c.vendor else ∅) =
      assign ∅ "DRTM_VENDOR" (ownVendor c) := by
    unfold ownVendor
    by_cases hv : c.vendor = "amd"
    · rw [if_neg (not_not.2 hv), if_pos hv, assign]
    · rw [if_pos hv, if_neg hv, assign]
  unfold env
  rw [hvendor, hr]
  cases hp : c.psp with
  | false =>
    rw [ownMode, hp]
    rfl
  | true =>
    rw [ownMode, hp]
    rfl

/-- the environment of a cell: the configuration's own variables, its release, no local image, the rest as it was -/
structure Cell (environ : Dict String String) (tag : String) (c : Configuration) (r : Release)
    (e : Dict String String) : Prop where
  vendor : e.get? "DRTM_VENDOR" = ownVendor c
  psp : e.get? "DRTM_PSP" = ownMode c r
  banks : e.get? "DRTM_PCR_BANKS" = c.banks
  image : e.get? "DRTM_TB_IMAGE" = none
  release : e.get? "DRTM_TB_RELEASE" = some tag
  rest : ∀ key ∉ "DRTM_TB_IMAGE" :: "DRTM_TB_RELEASE" :: ownVariables, e.get? key = environ.get? key

theorem environment_cell {rels : Dict String Release} {configs : Dict String Configuration}
    (environ : Dict String String) {tag name : String} {c : Configuration} {r : Release} (hr : rels.get? tag = some r)
    (hname : configs.get? name = some c) :
    ∃ e, environment rels configs environ tag name = .ok e ∧ Cell environ tag c r e := by
  have htag : tag ∈ rels.keys := Dict.mem_keys.2 ⟨r, hr⟩
  have hempty (key : String) : (∅ : Dict String String).get? key = none := rfl
  refine ⟨(((environ.filterKeys (· ∉ ownVariables)).filterKeys (· ≠ "DRTM_TB_IMAGE")).set "DRTM_TB_RELEASE" tag).update
    (assign (assign (assign ∅ "DRTM_VENDOR" (ownVendor c)) "DRTM_PSP" (ownMode c r)) "DRTM_PCR_BANKS" c.banks), ?_, ?_⟩
  · rw [environment, if_neg (not_not.2 htag), hname]
    simp only [env_eq c hr]
    rfl
  · constructor
    case rest =>
      intro key hkey
      simp only [List.mem_cons, not_or, ownVariables] at hkey
      simp [Dict.get?_update, get?_assign, Dict.get?_set, Dict.get?_filterKeys, hempty, hkey, ownVariables]
    all_goals simp [Dict.get?_update, get?_assign, Dict.get?_set, Dict.get?_filterKeys, hempty, ownVariables]

/-! ## What the session reads of it -/

/-- ASCII without capitals and blanks -/
def Plain (s : String) : Prop := ∀ c ∈ s.toList, c.toNat < 128 ∧ c.toLower = c ∧ isSpace c = false

instance (s : String) : Decidable (Plain s) := List.decidableBAll _ _

theorem stripped_eq_self {s : String} (h : ∀ c ∈ s.toList, isSpace c = false) : stripped s = s := by
  have hstrip : strip s.toList = s.toList := stripOf_eq_self h
  rw [stripped, hstrip, String.ofList_toList]

theorem lower_plain (L : Lower) {s : String} (h : Plain s) : L.lower s = s := by
  apply (L.lower_eq_self s).2
  intro c hc
  rw [L.lower_ascii c (h c hc).1, (h c hc).2.1]

theorem read_plain (L : Lower) {environ : Dict String String} {key value : String}
    (hget : (environ.get? key).getD "" = value) (h : Plain value) : read L environ key = value := by
  rw [read, hget, stripped_eq_self fun c hc => (h c hc).2.2, lower_plain L h]

theorem vendor_own (L : Lower) {environ : Dict String String} {c : Configuration} (hv : c.vendor ∈ vendors)
    (h : environ.get? "DRTM_VENDOR" = ownVendor c) : vendor L environ = .ok c.vendor := by
  have hplain : ∀ v ∈ vendors, Plain v := by decide
  by_cases hamd : c.vendor = "amd"
  · have hread : read L environ "DRTM_VENDOR" = "" := by
      apply read_plain L _ (by decide)
      rw [h, ownVendor, if_pos hamd]
      rfl
    rw [vendor, hread, hamd]
    rfl
  · have hread : read L environ "DRTM_VENDOR" = c.vendor := by
      apply read_plain L _ (hplain _ hv)
      rw [h, ownVendor, if_neg hamd]
      rfl
    have hne : c.vendor ≠ "" := fun hempty => by
      rw [hempty] at hv
      exact absurd hv (by decide)
    rw [vendor, hread]
    simp only [if_neg hne, if_pos hv]

theorem pspMode_own (L : Lower) {environ : Dict String String} {c : Configuration} {r : Release}
    (h : environ.get? "DRTM_PSP" = ownMode c r) : ∃ mode, pspMode L environ = .ok mode ∧ mode.isSome = c.psp := by
  have hread : read L environ "DRTM_PSP" = (ownMode c r).getD "" := by
    apply read_plain L (by rw [h])
    unfold ownMode
    split_ifs <;> decide
  unfold pspMode
  rw [hread, ownMode]
  cases c.psp <;> cases r.upstream <;> exact ⟨_, rfl, rfl⟩

/-! ## Lists of banks -/

/-- a lower-case name without blanks and commas -/
structure BankName (L : Lower) (name : String) : Prop where
  ne_empty : name ≠ ""
  lower : L.lower name = name
  char : ∀ c ∈ name.toList, isSpace c = false ∧ c ≠ ','

theorem split_join {names : List String} (hne : names ≠ []) (h : ∀ name ∈ names, ',' ∉ name.toList) :
    split (join names) = names := by
  have hmap : (names.map String.toList).map String.ofList = names := by simp
  rw [split, join, String.toList_intercalate]
  change (([','].intercalate (names.map String.toList)).splitOn ',').map String.ofList = names
  rw [List.splitOn_intercalate ',' (by simpa using h) (by simpa using hne), hmap]

theorem mem_join {names : List String} {c : Char} (h : c ∈ (join names).toList) :
    c = ',' ∨ ∃ name ∈ names, c ∈ name.toList := by
  induction names with
  | nil => simp [join] at h
  | cons name names ih =>
    by_cases hnil : names = []
    · subst hnil
      exact Or.inr ⟨name, List.mem_cons_self, by simpa [join] using h⟩
    · rw [join, String.intercalate_cons_of_ne_nil hnil, String.toList_append, String.toList_append, List.append_assoc,
        List.mem_append, List.mem_append] at h
      rcases h with h | h | h
      · exact Or.inr ⟨name, List.mem_cons_self, h⟩
      · exact Or.inl (by simpa using h)
      · rcases ih h with hc | ⟨n, hn, hcn⟩
        · exact Or.inl hc
        · exact Or.inr ⟨n, List.mem_cons_of_mem _ hn, hcn⟩

theorem join_ne_empty {names : List String} (hne : names ≠ []) (h : ∀ name ∈ names, name ≠ "") : join names ≠ "" := by
  cases names with
  | nil => exact absurd rfl hne
  | cons name names =>
    have hname := h name List.mem_cons_self
    by_cases hnil : names = []
    · simpa [hnil, join] using hname
    · simp [join, String.intercalate_cons_of_ne_nil hnil]

/-- a list of bank names passes `strip` and `lower` unchanged -/
theorem read_join (L : Lower) {environ : Dict String String} {key : String} {names : List String}
    (h : ∀ name ∈ names, BankName L name) (hget : (environ.get? key).getD "" = join names) :
    read L environ key = join names := by
  have hspace : ∀ c ∈ (join names).toList, isSpace c = false := by
    intro c hc
    rcases mem_join hc with hcomma | ⟨name, hname, hcn⟩
    · rw [hcomma]
      decide
    · exact ((h name hname).char c hcn).1
  have hlower : L.lower (join names) = join names := by
    apply (L.lower_eq_self _).2
    intro c hc
    rcases mem_join hc with hcomma | ⟨name, hname, hcn⟩
    · rw [hcomma]
      exact L.lower_ascii ',' (by decide)
    · exact (L.lower_eq_self name).1 (h name hname).lower c hcn
  rw [read, hget, stripped_eq_self hspace, hlower]

/-- the banks are none, or a comma-separated list of names -/
def BanksListed (L : Lower) (c : Configuration) : Prop :=
  ∀ banks, c.banks = some banks → ∃ names, (∀ name ∈ names, BankName L name) ∧ banks = join names

theorem defaultBanks_split : split (join defaultBanks) = defaultBanks := split_join (by decide) (by decide)

theorem pcrBanks_empty {L : Lower} {environ : Dict String String} (hread : read L environ "DRTM_PCR_BANKS" = "") :
    pcrBanks L environ = defaultBanks := by
  rw [pcrBanks, hread]
  rfl

theorem split_names {L : Lower} {names : List String} (hne : names ≠ []) (hnames : ∀ name ∈ names, BankName L name) :
    split (join names) = names := split_join hne fun name hname hcomma => ((hnames name hname).char ',' hcomma).2 rfl

/-- a list of names is read as those names -/
theorem pcrBanks_join {L : Lower} {environ : Dict String String} {names : List String} (hne : names ≠ [])
    (hnames : ∀ name ∈ names, BankName L name) (hread : read L environ "DRTM_PCR_BANKS" = join names) :
    pcrBanks L environ = names := by
  have hfull := join_ne_empty hne fun name hname => (hnames name hname).ne_empty
  have hstrip : ∀ name ∈ names, stripped name = name := fun name hname =>
    stripped_eq_self fun c hc => ((hnames name hname).char c hc).1
  have hkeep : (names.filter fun name => stripped name ≠ "") = names := by
    apply List.filter_eq_self.2
    intro name hname
    rw [hstrip name hname]
    exact decide_eq_true (hnames name hname).ne_empty
  rw [pcrBanks, hread]
  simp only [if_neg hfull, split_names hne hnames, hkeep]
  exact (List.map_congr_left hstrip).trans (List.map_id names)

theorem pcrBanks_own (L : Lower) {environ : Dict String String} {c : Configuration} (hc : BanksListed L c)
    (h : environ.get? "DRTM_PCR_BANKS" = c.banks) : pcrBanks L environ = split (wanted c) := by
  unfold wanted
  cases hb : c.banks with
  | none =>
    rw [defaultBanks_split]
    apply pcrBanks_empty
    apply read_plain L _ (by decide)
    rw [h, hb]
    rfl
  | some banks =>
    obtain ⟨names, hnames, rfl⟩ := hc banks hb
    have hread : read L environ "DRTM_PCR_BANKS" = join names := by
      apply read_join L hnames
      rw [h, hb]
      rfl
    by_cases hnil : names = []
    · subst hnil
      have hempty : join [] = "" := rfl
      simp only [if_pos hempty, defaultBanks_split]
      exact pcrBanks_empty hread
    · have hfull := join_ne_empty hnil fun name hname => (hnames name hname).ne_empty
      simp only [if_neg hfull, split_names hnil hnames]
      exact pcrBanks_join hnil hnames hread

/-! ## A cell is itself -/

/-- what tells configurations apart: vendor, service and effective banks -/
def identity (c : Configuration) : String × Bool × List String := (c.vendor, c.psp, split (wanted c))

theorem find?_unique {α : Type} {p : α → Bool} {l : List α} {a : α} (ha : a ∈ l) (hp : p a)
    (h : ∀ x ∈ l, p x → x = a) : l.find? p = some a := by
  cases hf : l.find? p with
  | none => exact absurd hp (List.find?_eq_none.1 hf a ha)
  | some x => rw [h x (List.mem_of_find?_eq_some hf) (List.find?_some hf)]

theorem current_cell (L : Lower) {configs : Dict String Configuration} {environ e : Dict String String}
    {tag name : String} {c : Configuration} {r : Release}
    (hd : (configs.entries.map fun x => identity x.2).Nodup) (hname : configs.get? name = some c)
    (hv : c.vendor ∈ vendors) (hb : BanksListed L c) (he : Cell environ tag c r e) :
    current L configs e = .ok (some name) := by
  obtain ⟨mode, hmode, hpsp⟩ := pspMode_own L he.psp
  have hmem : (name, c) ∈ configs.entries := Dict.mem_entries.2 hname
  have hfind : (configs.entries.find? fun x =>
      c.vendor = x.2.vendor ∧ c.psp = x.2.psp ∧ split (wanted c) = split (wanted x.2)) = some (name, c) := by
    apply find?_unique hmem (by simp)
    intro x hx hp
    have hid : identity x.2 = identity c := by
      simp only [decide_eq_true_eq] at hp
      simp [identity, hp]
    exact List.inj_on_of_nodup_map hd hx hmem hid
  rw [current, vendor_own L hv he.vendor, hmode]
  simp only [bind, Except.bind, pure, Except.pure, hpsp, pcrBanks_own L hb he.banks]
  rw [hfind]
  rfl

theorem release_cell (files : String → Option String) {environ e : Dict String String} {tag : String}
    {c : Configuration} {r : Release} (he : Cell environ tag c r e) : release files e = .ok (some tag) := by
  rw [release, localImage, he.image, he.release]
  rfl

/-- **A matrix cell boots as itself.** For every ambient environment, every tables of releases and of configurations told
apart by vendor, service and effective banks, every release and configuration of them: in the environment of the cell,
`current` is the configuration's name, `release` the release, and every variable but the five is as it was. -/
theorem environment_current (L : Lower) (files : String → Option String) (rels : Dict String Release)
    (configs : Dict String Configuration) (environ : Dict String String) (tag name : String)
    (hd : (configs.entries.map fun x => identity x.2).Nodup) (hv : ∀ x ∈ configs.entries, x.2.vendor ∈ vendors)
    (hb : ∀ x ∈ configs.entries, BanksListed L x.2) (htag : tag ∈ rels.keys) (hname : name ∈ configs.keys) :
    ∃ e, environment rels configs environ tag name = .ok e ∧ current L configs e = .ok (some name) ∧
      release files e = .ok (some tag) ∧
      ∀ key ∉ ["DRTM_TB_IMAGE", "DRTM_TB_RELEASE", "DRTM_VENDOR", "DRTM_PSP", "DRTM_PCR_BANKS"],
        e.get? key = environ.get? key := by
  obtain ⟨r, hr⟩ := Dict.mem_keys.1 htag
  obtain ⟨c, hc⟩ := Dict.mem_keys.1 hname
  have hmem : (name, c) ∈ configs.entries := Dict.mem_entries.2 hc
  obtain ⟨e, henv, hcell⟩ := environment_cell environ hr hc
  exact ⟨e, henv, current_cell L hd hc (hv _ hmem) (hb _ hmem) hcell, release_cell files hcell, hcell.rest⟩

/-- lower case on ASCII alone -/
def asciiLower : Lower where
  lower s := String.ofList (s.toList.map Char.toLower)
  lower_eq_self s := by
    have hchar (c : Char) : String.ofList ((String.singleton c).toList.map Char.toLower) = String.singleton c ↔
        c.toLower = c := by
      rw [← String.toList_inj]
      simp
    rw [← String.toList_inj, String.toList_ofList]
    simp only [hchar]
    induction s.toList with
    | nil => simp
    | cons c cs ih => simp [ih]
  lower_ascii c _ := by
    rw [← String.toList_inj]
    simp

/-- the pinned cells, under an environment that leaks another cell and a local image -/
theorem environment_current_leaked :
    let environ : Dict String String :=
      ⟨[("DRTM_VENDOR", "Intel"), ("DRTM_PCR_BANKS", "sha384"), ("DRTM_TB_IMAGE", "/tmp/local.wic"), ("HOME", "/root")],
        by decide⟩
    ∃ e, environment pinned configurations environ "v0.5.2" "psp-sha256" = .ok e ∧
      current asciiLower configurations e = .ok (some "psp-sha256") ∧ release (fun _ => none) e = .ok (some "v0.5.2") ∧
      ∀ key ∉ ["DRTM_TB_IMAGE", "DRTM_TB_RELEASE", "DRTM_VENDOR", "DRTM_PSP", "DRTM_PCR_BANKS"],
        e.get? key = environ.get? key := by
  intro environ
  have hname : ∀ name ∈ ["sha1", "sha256", "sha384"], BankName asciiLower name := by
    intro name hname
    have hplain : ∀ name ∈ ["sha1", "sha256", "sha384"], Plain name ∧ name ≠ "" ∧ ',' ∉ name.toList := by decide
    obtain ⟨hp, hne, hcomma⟩ := hplain name hname
    exact ⟨hne, lower_plain asciiLower hp, fun c hc => ⟨(hp c hc).2.2, fun h => hcomma (h ▸ hc)⟩⟩
  have hbanks : ∀ x ∈ configurations.entries, BanksListed asciiLower x.2 := by
    intro x hx banks hb
    have htable : ∀ x ∈ configurations.entries, x.2.banks = none ∨ x.2.banks = some (join ["sha256"]) ∨
        x.2.banks = some (join ["sha1", "sha256", "sha384"]) := by decide +kernel
    rcases htable x hx with h | h | h
    · rw [h] at hb
      cases hb
    · rw [h] at hb
      cases hb
      exact ⟨["sha256"], fun name hn => hname name (by simp_all), rfl⟩
    · rw [h] at hb
      cases hb
      exact ⟨["sha1", "sha256", "sha384"], hname, rfl⟩
  exact environment_current asciiLower (fun _ => none) pinned configurations environ "v0.5.2" "psp-sha256"
    (by decide +kernel) (by decide) hbanks (by decide) (by decide)

end DrtmTest.Environment
