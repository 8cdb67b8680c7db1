/-
What the report writes, and where (`write` of `drtmtest/report.py`).

A badge's file is named after its release, and a session on a local image has for its release the image's path and time
(`description` of `drtmtest/trenchboot.py`). `World` says which calls go through; the first that does not ends `write`.

- `badgePath_inBadges`: a badge's file lies in `badges/` exactly where its name does not lead out of it.
- `write_confined_iff`: whatever goes through, all files lie where they should and no two badges share one exactly where
  the names of the releases are `Tame`.
- `local_image_leaves`: the name of a local image does not stay in `badges/`, unless the image lies there itself.
-/
import DrtmTest.Core.Json
import DrtmTest.Core.PurePath
import DrtmTest.Report

namespace DrtmTest.ReportWrite

open DrtmTest.Report DrtmTest.PurePath

/-! ## Files -/

/-- `description` of a local image -/
def description (path modified : String) : String := path ++ " (modified " ++ modified ++ ")"

def readme (out : PurePath) : PurePath := out.join "README.md".toList

def badgesDir (out : PurePath) : PurePath := out.join "badges".toList

def badgePath (out : PurePath) (release : String) : PurePath := (badgesDir out).join (release.toList ++ ".json".toList)

/-- `json.dumps(badge, indent=2) + "\n"` -/
def badgeText (badge : Badge) : String :=
  String.ofList ("\x7b\n  \"schemaVersion\": ".toList ++ (toString badge.schemaVersion).toList ++
    ",\n  \"label\": ".toList ++ Json.dumpsString badge.label ++ ",\n  \"message\": ".toList ++
    Json.dumpsString badge.message ++ ",\n  \"color\": ".toList ++ Json.dumpsString badge.color ++ "\n\x7d\n".toList)

/-- which calls the file system lets through -/
structure World where
  mkdir : PurePath → Bool
  writeText : PurePath → Bool
  /-- no file name holds a NUL -/
  noNul : ∀ p, writeText p = true → ∀ s ∈ p.parts, '\x00' ∉ s

/-- a file that was written, for a badge with its release -/
structure Written where
  release : Option String
  path : PurePath
  text : String

def writeBadges (world : World) (out : PurePath) (badges : List (String × Badge)) : List Written :=
  (badges.takeWhile fun e => world.writeText (badgePath out e.1)).map fun e =>
    ⟨some e.1, badgePath out e.1, badgeText e.2⟩

/-- the files written, up to the first call that raises -/
def write (world : World) (out : PurePath) (page : String) (badges : Dict String Badge) : List Written :=
  if world.mkdir out && world.writeText (readme out) then
    ⟨none, readme out, page⟩ :: if world.mkdir (badgesDir out) then writeBadges world out badges.entries else []
  else []

/-! ## Where they should lie -/

/-- a file right in a directory -/
def Directly (dir p : PurePath) : Prop := p.root = dir.root ∧ ∃ name, name ≠ ['.', '.'] ∧ p.parts = dir.parts ++ [name]

/-- the page under its name, each badge right in `badges/`, no two releases in one file -/
def Confined (out : PurePath) (files : List Written) : Prop :=
  (∀ f ∈ files, f.path = readme out ∨ Directly (badgesDir out) f.path) ∧
    ∀ f ∈ files, ∀ g ∈ files, ∀ r r', f.release = some r → g.release = some r' → r ≠ r' → f.path ≠ g.path

/-- the name stays in `badges/`: it goes through no directory, or it is the whole path -/
def InBadges (out : PurePath) (release : String) : Prop :=
  (rootOf release.toList = 0 ∧ dirs release.toList = []) ∨
    (rootOf release.toList ≠ 0 ∧ rootOf release.toList = out.root ∧ dirs release.toList = out.parts ++ ["badges".toList])

instance (out : PurePath) (release : String) : Decidable (InBadges out release) :=
  inferInstanceAs (Decidable ((_ ∧ _) ∨ (_ ∧ _ ∧ _)))

def hasNul (p : PurePath) : Bool := p.parts.any fun s => '\x00' ∈ s

/-- the releases that can get their badges: a NUL in a name ends the loop -/
def reached (out : PurePath) (releases : List String) : List String :=
  if hasNul out then [] else releases.takeWhile fun r => '\x00' ∉ r.toList

/-- the names stay in `badges/`, and differ behind their last slash -/
def Tame (out : PurePath) (releases : List String) : Prop :=
  (∀ r ∈ reached out releases, InBadges out r) ∧
    ∀ r ∈ reached out releases, ∀ r' ∈ reached out releases, r ≠ r' → base r.toList ≠ base r'.toList

instance (out : PurePath) (releases : List String) : Decidable (Tame out releases) :=
  inferInstanceAs (Decidable ((∀ r ∈ _, _) ∧ ∀ r ∈ _, ∀ r' ∈ _, _ → _))

/-! ## The path of a badge -/

theorem badgesDir_eq (out : PurePath) : (badgesDir out).root = out.root ∧ (badgesDir out).parts = out.parts ++ ["badges".toList] :=
  ⟨rfl, rfl⟩

theorem readme_eq (out : PurePath) : (readme out).root = out.root ∧ (readme out).parts = out.parts ++ ["README.md".toList] :=
  ⟨rfl, rfl⟩

theorem parts_json (text : List Char) : (parse (text ++ ".json".toList)).parts = dirs text ++ [base text ++ ".json".toList] := by
  refine parts_append (by decide) text ?_
  have hlen : 5 ≤ (base text ++ ".json".toList).length := by
    rw [List.length_append]
    exact Nat.le_add_left 5 _
  have hnil : base text ++ ".json".toList ≠ [] := fun h => by rw [h] at hlen; cases hlen
  have hdot : base text ++ ".json".toList ≠ ['.'] := fun h => by rw [h] at hlen; exact absurd hlen (by decide)
  simp only [kept, hnil, hdot, ne_eq, not_false_eq_true, decide_true, Bool.and_self]

theorem badgePath_eq (out : PurePath) (release : String) :
    (badgePath out release).root = (if rootOf release.toList = 0 then out.root else rootOf release.toList) ∧
    (badgePath out release).parts = (if rootOf release.toList = 0 then out.parts ++ ["badges".toList] else []) ++
      (dirs release.toList ++ [base release.toList ++ ".json".toList]) := by
  have hroot : rootOf (release.toList ++ ".json".toList) = rootOf release.toList :=
    rootOf_append (by decide) (by decide) release.toList
  rw [badgePath, join, hroot]
  split_ifs with h
  · exact ⟨rfl, congrArg ((badgesDir out).parts ++ ·) (parts_json _)⟩
  · exact ⟨hroot, parts_json _⟩

theorem badgePath_last (out : PurePath) (release : String) :
    (badgePath out release).parts.getLast? = some (base release.toList ++ ".json".toList) := by
  rw [(badgePath_eq out release).2, ← List.append_assoc, List.getLast?_concat]

theorem badgePath_ne_readme (out : PurePath) (release : String) : badgePath out release ≠ readme out := by
  intro h
  have hlast := badgePath_last out release
  rw [h, (readme_eq out).2, List.getLast?_concat] at hlast
  have hend := congrArg List.getLast? (Option.some.inj hlast)
  rw [List.getLast?_append_of_ne_nil _ (by decide)] at hend
  exact absurd hend (by decide)

/-- **A badge's file** lies right in `badges/` exactly where the name of its release stays there. -/
theorem badgePath_inBadges (out : PurePath) (release : String) :
    Directly (badgesDir out) (badgePath out release) ↔ InBadges out release := by
  have hname : base release.toList ++ ".json".toList ≠ ['.', '.'] := fun h => by
    have hlen := congrArg List.length h
    rw [List.length_append] at hlen
    change _ + 5 = 2 at hlen
    omega
  rw [Directly, InBadges, (badgePath_eq out release).1, (badgePath_eq out release).2, (badgesDir_eq out).1,
    (badgesDir_eq out).2]
  by_cases hroot : rootOf release.toList = 0
  · rw [if_pos hroot, if_pos hroot]
    simp only [hroot, true_and, ne_eq, not_true_eq_false, false_and, or_false]
    constructor
    · rintro ⟨name, -, hparts⟩
      rw [List.append_cancel_left_eq, List.append_eq_singleton_iff] at hparts
      rcases hparts with ⟨hdirs, -⟩ | ⟨-, hnil⟩
      · exact hdirs
      · exact absurd hnil (List.cons_ne_nil _ _)
    · intro hdirs
      exact ⟨_, hname, by rw [hdirs]; rfl⟩
  · rw [if_neg hroot, if_neg hroot]
    simp only [hroot, false_and, ne_eq, not_false_eq_true, true_and, false_or, List.nil_append]
    refine and_congr_right fun _ => ?_
    constructor
    · rintro ⟨name, -, hparts⟩
      exact (List.append_inj' hparts rfl).1
    · intro hdirs
      exact ⟨_, hname, by rw [hdirs]⟩

/-- two badges in `badges/` share their file exactly where their names end alike -/
theorem badgePath_eq_iff {out : PurePath} {r r' : String} (hr : InBadges out r) (hr' : InBadges out r') :
    badgePath out r = badgePath out r' ↔ base r.toList = base r'.toList := by
  constructor
  · intro h
    have hlast := badgePath_last out r
    rw [h, badgePath_last] at hlast
    exact (List.append_cancel_right (Option.some.inj hlast)).symm
  · intro h
    obtain ⟨hroot, name, -, hparts⟩ := (badgePath_inBadges out r).2 hr
    obtain ⟨hroot', name', -, hparts'⟩ := (badgePath_inBadges out r').2 hr'
    have hlast := badgePath_last out r
    have hlast' := badgePath_last out r'
    rw [hparts, List.getLast?_concat] at hlast
    rw [hparts', List.getLast?_concat, ← h, ← hlast] at hlast'
    exact PurePath.ext (hroot.trans hroot'.symm) (by rw [hparts, hparts', Option.some.inj hlast'])

/-- the description of a local image is an absolute path, so its badge goes where the image is -/
theorem local_image_leaves {out : PurePath} {path modified : String} (habsolute : rootOf path.toList ≠ 0)
    (helsewhere : dirs path.toList ≠ out.parts ++ ["badges".toList]) (hmodified : '/' ∉ modified.toList) :
    ¬ InBadges out (description path modified) := by
  have hsuffix : '/' ∉ " (modified ".toList ++ modified.toList ++ ")".toList := by
    rw [List.mem_append, List.mem_append]
    exact not_or.2 ⟨not_or.2 ⟨by decide, hmodified⟩, by decide⟩
  have htext : (description path modified).toList = path.toList ++ (" (modified ".toList ++ modified.toList ++ ")".toList) := by
    simp only [description, String.toList_append, List.append_assoc]
  rw [InBadges, htext, rootOf_append hsuffix (List.append_ne_nil_of_right_ne_nil _ (by decide)), dirs_append hsuffix]
  rintro (⟨hroot, -⟩ | ⟨-, -, hdirs⟩)
  · exact habsolute hroot
  · exact helsewhere hdirs

theorem hasNul_iff {p : PurePath} : hasNul p = true ↔ ∃ s ∈ p.parts, '\x00' ∈ s := by
  rw [hasNul, List.any_eq_true]
  simp only [decide_eq_true_eq]

/-- the name of a badge's file has the NULs of its release, and those of the directory unless it replaces it -/
theorem hasNul_badgePath (out : PurePath) (release : String) : hasNul (badgePath out release) = true ↔
    (rootOf release.toList = 0 ∧ hasNul out = true) ∨ '\x00' ∈ release.toList := by
  have hname : (∃ s ∈ dirs release.toList ++ [base release.toList ++ ".json".toList], '\x00' ∈ s) ↔
      '\x00' ∈ release.toList := by
    rw [← parts_json, mem_parse (by decide) (by decide), List.mem_append]
    exact or_iff_left (by decide)
  have hbadges : ∀ s ∈ ["badges".toList], '\x00' ∉ s := by decide
  rw [hasNul_iff, hasNul_iff, (badgePath_eq out release).2, ← hname]
  by_cases hroot : rootOf release.toList = 0
  · rw [if_pos hroot]
    constructor
    · rintro ⟨s, hs, hnul⟩
      rcases List.mem_append.1 hs with hs | hs
      · rcases List.mem_append.1 hs with hs | hs
        · exact Or.inl ⟨hroot, s, hs, hnul⟩
        · exact absurd hnul (hbadges s hs)
      · exact Or.inr ⟨s, hs, hnul⟩
    · rintro (⟨-, s, hs, hnul⟩ | ⟨s, hs, hnul⟩)
      · exact ⟨s, List.mem_append_left _ (List.mem_append_left _ hs), hnul⟩
      · exact ⟨s, List.mem_append_right _ hs, hnul⟩
  · rw [if_neg hroot]
    simp only [hroot, false_and, false_or, List.nil_append]

/-! ## The files -/

/-- the badges a world lets through are among those that can get their files -/
theorem takeWhile_reaches {p : String × Badge → Bool} {q : String → Bool} (h : ∀ e, p e = true → q e.1 = true)
    {l : List (String × Badge)} {e : String × Badge} (he : e ∈ l.takeWhile p) : e.1 ∈ (l.map Prod.fst).takeWhile q := by
  induction l with
  | nil => cases he
  | cons d l ih =>
    by_cases hd : p d = true
    · rw [List.takeWhile_cons_of_pos hd] at he
      rw [List.map_cons, List.takeWhile_cons_of_pos (h d hd)]
      rcases List.mem_cons.1 he with rfl | he
      · exact List.mem_cons_self
      · exact List.mem_cons_of_mem _ (ih he)
    · rw [List.takeWhile_cons_of_neg hd] at he
      cases he

theorem hasNul_of_written {world : World} {p : PurePath} (h : world.writeText p = true) : hasNul p = false := by
  rw [Bool.eq_false_iff, ne_eq, hasNul_iff]
  rintro ⟨s, hs, hnul⟩
  exact world.noNul p h s hs hnul

theorem hasNul_readme (out : PurePath) : hasNul (readme out) = hasNul out := by
  have hname : (["README.md".toList].any fun s => '\x00' ∈ s) = false := by decide
  rw [hasNul, hasNul, (readme_eq out).2, List.any_append, hname, Bool.or_false]

/-- what `write` writes is the page or a badge that can get its file -/
theorem mem_write {world : World} {out : PurePath} {page : String} {badges : Dict String Badge} {f : Written}
    (hf : f ∈ write world out page badges) : (f.release = none ∧ f.path = readme out) ∨
      ∃ r ∈ reached out badges.keys, f.release = some r ∧ f.path = badgePath out r := by
  rw [write] at hf
  split_ifs at hf with hpage hdir
  · have hout : hasNul out = false := by
      rw [← hasNul_readme]
      exact hasNul_of_written (Bool.and_eq_true_iff.1 hpage).2
    rcases List.mem_cons.1 hf with rfl | hf
    · exact Or.inl ⟨rfl, rfl⟩
    · obtain ⟨e, he, rfl⟩ := List.mem_map.1 hf
      refine Or.inr ⟨e.1, ?_, rfl, rfl⟩
      rw [reached, hout]
      refine takeWhile_reaches (fun d hd => ?_) he
      have hname := mt (hasNul_badgePath out d.1).2 (Bool.eq_false_iff.1 (hasNul_of_written hd))
      exact decide_eq_true (not_or.1 hname).2
  · rcases List.mem_cons.1 hf with rfl | hf
    · exact Or.inl ⟨rfl, rfl⟩
    · cases hf
  · cases hf

/-- a file system that takes every name it can -/
def everything : World where
  mkdir _ := true
  writeText p := !hasNul p
  noNul p h s hs hnul := by
    rw [hasNul_iff.2 ⟨s, hs, hnul⟩] at h
    cases h

/-- where nothing else is in the way every badge that can get its file does -/
theorem mem_write_everything {out : PurePath} (page : String) {badges : Dict String Badge} {r : String}
    (hr : r ∈ reached out badges.keys) :
    ∃ f ∈ write everything out page badges, f.release = some r ∧ f.path = badgePath out r := by
  rw [reached] at hr
  split_ifs at hr with hout
  · cases hr
  · have hout' : hasNul out = false := Bool.eq_false_iff.2 hout
    have hpage : (everything.mkdir out && everything.writeText (readme out)) = true := by
      change (true && !hasNul (readme out)) = true
      rw [hasNul_readme, hout']
      rfl
    have hnames : ∀ e : String × Badge, everything.writeText (badgePath out e.1) = decide ('\x00' ∉ e.1.toList) := by
      intro e
      change (!hasNul (badgePath out e.1)) = _
      by_cases hnul : '\x00' ∈ e.1.toList
      · rw [(hasNul_badgePath out e.1).2 (Or.inr hnul)]
        exact (decide_eq_false (not_not.2 hnul)).symm
      · have hpath : hasNul (badgePath out e.1) = false := by
          rw [Bool.eq_false_iff, ne_eq, hasNul_badgePath, hout']
          rintro (⟨-, h⟩ | h)
          · cases h
          · exact hnul h
        rw [hpath]
        exact (decide_eq_true hnul).symm
    rw [Dict.keys, List.takeWhile_map] at hr
    obtain ⟨e, he, rfl⟩ := List.mem_map.1 hr
    refine ⟨⟨some e.1, badgePath out e.1, badgeText e.2⟩, ?_, rfl, rfl⟩
    rw [write, if_pos hpage]
    refine List.mem_cons_of_mem _ (List.mem_map.2 ⟨e, ?_, rfl⟩)
    simp only [hnames]
    exact he

theorem mem_write_release {world : World} {out : PurePath} {page : String} {badges : Dict String Badge} {f : Written}
    {r : String} (hf : f ∈ write world out page badges) (hrel : f.release = some r) :
    r ∈ reached out badges.keys ∧ f.path = badgePath out r := by
  rcases mem_write hf with ⟨hnone, -⟩ | ⟨r', hr', hrel', hpath⟩
  · rw [hnone] at hrel
    cases hrel
  · rw [hrel'] at hrel
    exact Option.some.inj hrel ▸ ⟨hr', hpath⟩

theorem confined_iff (out : PurePath) (page : String) (badges : Dict String Badge) :
    (∀ world, Confined out (write world out page badges)) ↔ Tame out badges.keys := by
  constructor
  · intro h
    obtain ⟨hplace, hapart⟩ := h everything
    have hin : ∀ r ∈ reached out badges.keys, InBadges out r := by
      intro r hr
      obtain ⟨f, hf, -, hpath⟩ := mem_write_everything page hr
      rcases hplace f hf with hreadme | hbadge
      · exact absurd (hpath.symm.trans hreadme) (badgePath_ne_readme out r)
      · exact (badgePath_inBadges out r).1 (hpath ▸ hbadge)
    refine ⟨hin, fun r hr r' hr' hne hbase => ?_⟩
    obtain ⟨f, hf, hrel, hpath⟩ := mem_write_everything page hr
    obtain ⟨g, hg, hrel', hpath'⟩ := mem_write_everything page hr'
    refine hapart f hf g hg r r' hrel hrel' hne ?_
    rw [hpath, hpath']
    exact (badgePath_eq_iff (hin r hr) (hin r' hr')).2 hbase
  · rintro ⟨hin, hbase⟩ world
    refine ⟨fun f hf => ?_, fun f hf g hg r r' hrel hrel' hne hpath => ?_⟩
    · rcases mem_write hf with ⟨-, hpath⟩ | ⟨r, hr, -, hpath⟩
      · exact Or.inl hpath
      · exact Or.inr (hpath ▸ (badgePath_inBadges out r).2 (hin r hr))
    · obtain ⟨hr, hf'⟩ := mem_write_release hf hrel
      obtain ⟨hr', hg'⟩ := mem_write_release hg hrel'
      rw [hf', hg', badgePath_eq_iff (hin r hr) (hin r' hr')] at hpath
      exact hbase r hr r' hr' hne hpath

/-! ## The report -/

theorem keys_badges (results : List Result) : (badges results).keys = releases results :=
  Dict.keys_ofKeys (Sorted.ordered_nodup (Sorted.sortedSet_nodup _) (by decide)) _

/-- **The report writes only where it was told to** exactly where the names of the releases are `Tame`. -/
theorem write_confined_iff (out : PurePath) (results : List Result) (run runUrl : Option String) (page : String)
    (bs : Dict String Badge) (hrender : render results run runUrl = some (page, bs)) :
    (∀ world, Confined out (write world out page bs)) ↔ Tame out (releases results) := by
  rw [confined_iff]
  have hbs : badges results = bs := by
    rw [render] at hrender
    split_ifs at hrender
    exact (Prod.mk.inj (Option.some.inj hrender)).2
  rw [← hbs, keys_badges]

theorem write_confined_iff_release : ∃ page bs,
    render [sampleResult "v0.5.2" (some "classic") ["sha1", "sha256"] []] none none = some (page, bs) ∧
      ∀ world, Confined (parse "report".toList) (write world (parse "report".toList) page bs) :=
  ⟨_, _, if_neg (List.cons_ne_nil _ _), (write_confined_iff (parse "report".toList) _ none none _ _
    (if_neg (List.cons_ne_nil _ _))).2 (by decide +kernel)⟩

/-- a session on a local image -/
def localResult : Result :=
  let sample := sampleResult "" (some "classic") ["sha1", "sha256"] []
  { sample with
    details :=
      { sample.details with
        release := none
        image := some (description "/home/user/tb.wic" "2026-09-22T19:40:10+02:00") } }

/-- its badge is written beside the image -/
theorem write_local_image : ∃ page bs, render [localResult] none none = some (page, bs) ∧
    (∃ f ∈ write everything (parse "report".toList) page bs,
      f.path = parse "/home/user/tb.wic (modified 2026-09-22T19:40:10+02:00).json".toList) ∧
    ¬ Confined (parse "report".toList) (write everything (parse "report".toList) page bs) := by
  have hrender : render [localResult] none none = some (page [localResult] none none, badges [localResult]) :=
    if_neg (List.cons_ne_nil _ _)
  have hkeys : (badges [localResult]).keys = ["/home/user/tb.wic (modified 2026-09-22T19:40:10+02:00)"] := by
    rw [keys_badges]
    decide +kernel
  have hreached : "/home/user/tb.wic (modified 2026-09-22T19:40:10+02:00)" ∈
      reached (parse "report".toList) (badges [localResult]).keys := by
    rw [hkeys]
    decide +kernel
  obtain ⟨f, hf, -, hpath⟩ := mem_write_everything (page [localResult] none none) hreached
  refine ⟨_, _, hrender, ⟨f, hf, hpath⟩, fun hconfined => ?_⟩
  rcases hconfined.1 f hf with hreadme | ⟨hroot, -⟩
  · exact badgePath_ne_readme _ _ (hpath.symm.trans hreadme)
  · rw [hpath] at hroot
    exact absurd hroot (by decide)

end DrtmTest.ReportWrite
