/-
A badge is green only for a release none of whose standing results failed.

- `badge_green`: the badge of a release is green exactly when every test of its standing results is `ok` and every
  configuration on the page has a result for it, and then it counts them all. Where no two results are of one
  configuration and release, all of them stand.
- `failing_session_overwritten`: two hand-made sessions of one vendor are one configuration, whatever their banks, and the
  later one replaces the one that failed.
-/
import DrtmTest.Report

namespace DrtmTest.Badges

open DrtmTest.Session DrtmTest.Report

/-- the tests of the standing results of a release -/
def testsOf (results : List Result) (rel : String) : List Test :=
  ((standing results).filter fun r => release r = rel).flatMap Result.tests

theorem mem_testsOf {results : List Result} {rel : String} {t : Test} :
    t ∈ testsOf results rel ↔ ∃ r ∈ standing results, release r = rel ∧ t ∈ r.tests := by
  simp [testsOf, and_assoc]

/-- what a badge counts is the tests of the standing results of the release -/
theorem badge_eq (results : List Result) (rel : String) :
    badge rel (cells results) (configurations results) =
      if (testsOf results rel).countP (fun t => !t.ok) ≠ 0 then
        ⟨1, rel, toString ((testsOf results rel).countP fun t => !t.ok) ++ " failed", "red"⟩
      else if (configurations results).countP (fun name => ((cells results name).get? rel).isNone) ≠ 0 then
        ⟨1, rel, toString ((configurations results).countP fun name => ((cells results name).get? rel).isNone) ++
          " missing", "red"⟩
      else ⟨1, rel, toString ((testsOf results rel).countP fun t => t.ok) ++ " passed", "brightgreen"⟩ := by
  have hperm : ((onRelease results rel).flatMap Result.tests).Perm (testsOf results rel) :=
    (onRelease_perm results rel).flatMap_right _
  have hfold : (configurations results).filterMap (fun name => (cells results name).get? rel) = onRelease results rel :=
    rfl
  simp only [badge, hfold, hperm.countP_eq]

theorem failed_eq_zero {results : List Result} {rel : String} :
    (testsOf results rel).countP (fun t => !t.ok) = 0 ↔
      ∀ r ∈ standing results, release r = rel → ∀ t ∈ r.tests, t.ok = true := by
  rw [List.countP_eq_zero]
  constructor
  · intro hall r hr hrel t ht
    simpa using hall t (mem_testsOf.2 ⟨r, hr, hrel, ht⟩)
  · intro hall t ht
    obtain ⟨r, hr, hrel, hmem⟩ := mem_testsOf.1 ht
    simpa using hall r hr hrel t hmem

theorem missing_eq_zero {results : List Result} {rel : String} :
    (configurations results).countP (fun name => ((cells results name).get? rel).isNone) = 0 ↔
      ∀ r ∈ results, ∃ r' ∈ results, configuration r' = configuration r ∧ release r' = rel := by
  rw [List.countP_eq_zero]
  constructor
  · intro hall r hr
    have hsome := hall (configuration r) (mem_configurations.2 ⟨r, hr, rfl⟩)
    rw [Bool.not_eq_true, Option.isNone_eq_false_iff] at hsome
    obtain ⟨r', hr'⟩ := Option.isSome_iff_exists.1 hsome
    obtain ⟨hmem, hkey⟩ := cells_get?.1 hr'
    exact ⟨r', Dict.mem_of_mem_standing hmem, hkey⟩
  · intro hall name hname
    obtain ⟨r, hr, rfl⟩ := mem_configurations.1 hname
    obtain ⟨r', hr', hconf, rfl⟩ := hall r hr
    obtain ⟨s, hs, hsconf, hsrel⟩ := exists_standing hr'
    rw [cells_get?.2 ⟨hs, hsconf.trans hconf, hsrel⟩]
    exact Bool.false_ne_true

/-- the badge of a release is the one `badge` makes of all results -/
theorem badge_of_render {results : List Result} {run runUrl : Option String} {page : String} {bs : Dict String Badge}
    (hrender : render results run runUrl = some (page, bs)) {rel : String} {b : Badge} (hb : bs.get? rel = some b) :
    b = badge rel (cells results) (configurations results) := by
  unfold render at hrender
  split_ifs at hrender
  rw [← (Prod.mk.inj (Option.some.inj hrender)).2, badges, Dict.get?_ofKeys] at hb
  split_ifs at hb
  exact (Option.some.inj hb).symm

theorem red_ne : ("red" : String) ≠ "brightgreen" := by decide

/-- **A green badge hides no standing result.** The badge `render` makes for a release is green exactly when every test of
every result of the release that stands is `ok` and every configuration on the page has a result for it, and its message
then counts all these tests. Where no two results are of one configuration and release, all of them stand. -/
theorem badge_green (results : List Result) (run runUrl : Option String) (page : String) (bs : Dict String Badge)
    (hrender : render results run runUrl = some (page, bs)) (rel : String) (b : Badge) (hb : bs.get? rel = some b) :
    (b.color = "brightgreen" ↔ (∀ r ∈ standing results, release r = rel → ∀ t ∈ r.tests, t.ok = true) ∧
        ∀ r ∈ results, ∃ r' ∈ results, configuration r' = configuration r ∧ release r' = rel) ∧
      (b.color = "brightgreen" → b.message = toString (testsOf results rel).length ++ " passed") ∧
      (Distinct results → standing results = results) := by
  rw [← and_assoc]
  refine ⟨?_, standing_eq⟩
  rw [badge_of_render hrender hb, badge_eq, ← failed_eq_zero, ← missing_eq_zero]
  split_ifs with hfailed hmissing
  · exact ⟨iff_of_false red_ne fun h => hfailed h.1, fun h => absurd h red_ne⟩
  · exact ⟨iff_of_false red_ne fun h => hmissing h.2, fun h => absurd h red_ne⟩
  · have hok : (testsOf results rel).countP (fun t => t.ok) = (testsOf results rel).length := by
      apply List.countP_eq_length.2
      intro t ht
      simpa using List.countP_eq_zero.1 (not_not.1 hfailed) t ht
    refine ⟨iff_of_true rfl ⟨not_not.1 hfailed, not_not.1 hmissing⟩, fun _ => ?_⟩
    rw [hok]

/-- a matrix cell that failed beside a hand-made session that passed -/
def failedCell : List Result :=
  [sampleResult "v0.5.2" (some "classic") ["sha1", "sha256"]
      [sampleTest "test_linux.py::test_launch" ["linux_launch"] .failed],
    sampleResult "v0.5.2" none ["sha256"] [sampleTest "test_linux.py::test_launch" ["linux_launch"] .passed]]

/-- The failed cell keeps the badge from green. -/
theorem badge_green_failed_cell :
    ∃ page bs b, render failedCell none none = some (page, bs) ∧ bs.get? "v0.5.2" = some b ∧
      b.color ≠ "brightgreen" := by
  have hkeys : Distinct failedCell := by
    unfold Distinct
    decide +kernel
  have hrender : render failedCell none none = some (page failedCell none none, badges failedCell) :=
    if_neg (List.cons_ne_nil _ _)
  obtain ⟨b, hb⟩ : ∃ b, (badges failedCell).get? "v0.5.2" = some b := Option.isSome_iff_exists.1 (by decide +kernel)
  refine ⟨_, _, b, hrender, hb, fun hgreen => ?_⟩
  obtain ⟨hcolor, -, hstanding⟩ := badge_green failedCell none none _ _ hrender "v0.5.2" b hb
  have hall := (hcolor.1 hgreen).1
  rw [hstanding hkeys] at hall
  have hok := hall _ List.mem_cons_self rfl _ List.mem_cons_self
  exact absurd hok Bool.false_ne_true

/-! ## Hand-made sessions -/

/-- what tells two sessions apart: release, vendor, PSP mode and banks -/
def sessionKey (r : Result) : String × String × String × List String :=
  (release r, orDefault r.details.vendor "amd", orDefault r.details.psp "off", r.details.banks)

/-- two hand-made sessions on machines of other banks, the first failed -/
def handMadeSessions : List Result :=
  [sampleResult "v0.5.2" none ["sha1", "sha256"]
      [sampleTest "test_linux.py::test_launch" ["linux_launch"] .failed],
    sampleResult "v0.5.2" none ["sha256"] [sampleTest "test_linux.py::test_launch" ["linux_launch"] .passed]]

/-- The second session makes the badge green although the first failed. -/
theorem failing_session_overwritten :
    (handMadeSessions.map sessionKey).Nodup ∧
      (render handMadeSessions none none).bind (fun x => x.2.get? "v0.5.2") =
        some ⟨1, "v0.5.2", "1 passed", "brightgreen"⟩ ∧
      ∃ r ∈ handMadeSessions, release r = "v0.5.2" ∧ ∃ t ∈ r.tests, t.ok = false := by
  refine ⟨by decide +kernel, ?_, _, List.mem_cons_self, rfl, _, List.mem_cons_self, rfl⟩
  rw [render, if_neg (by simp [handMadeSessions]), Option.bind_some]
  decide +kernel

end DrtmTest.Badges
