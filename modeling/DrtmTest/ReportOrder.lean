/-
The report does not depend on the order its results are read in.

- `cells_perm`: with distinct keys, a configuration finds the same result for a release in every order.
- `custom_unique`: a vendor has at most one configuration the matrix does not know.
- `render_perm`: the page and the badges of a permuted list are the same.
-/
import DrtmTest.Report

namespace DrtmTest.ReportOrder

open DrtmTest.Sorted DrtmTest.Report

/-! ## Lookups -/

theorem distinct_perm {results results' : List Result} (h : results.Perm results') (hkeys : Distinct results) :
    Distinct results' :=
  (h.map _).nodup_iff.1 hkeys

theorem cells_perm {results results' : List Result} (h : results.Perm results') (hkeys : Distinct results)
    (name : String) : (cells results name).get? = (cells results' name).get? := by
  funext rel
  apply Option.ext
  intro r
  rw [cells_get?, cells_get?, standing_eq hkeys, standing_eq (distinct_perm h hkeys), h.mem_iff]

theorem byConfiguration_keys_perm {results results' : List Result} (h : results.Perm results') :
    (byConfiguration results).keys.Perm (byConfiguration results').keys := by
  apply (List.perm_ext_iff_of_nodup (Dict.keys_nodup _) (Dict.keys_nodup _)).2
  intro name
  rw [byConfiguration_keys, byConfiguration_keys, List.mem_eraseDups, List.mem_eraseDups, (h.map configuration).mem_iff]

theorem configurations_perm {results results' : List Result} (h : results.Perm results') :
    (configurations results).Perm (configurations results') :=
  ordered_perm _ (byConfiguration_keys_perm h)

theorem releases_perm {results results' : List Result} (h : results.Perm results') :
    releases results = releases results' := by
  rw [releases, releases, sortedSet_perm (h.map release)]

/-! ## Vendors -/

/-- each result names a configuration of the matrix, or none -/
def Known (results : List Result) : Prop :=
  ∀ r ∈ results, r.details.configuration = none ∨ ∃ c ∈ Matrix.configurations.keys, r.details.configuration = some c

theorem known_perm {results results' : List Result} (h : results.Perm results') (hconf : Known results) :
    Known results' :=
  fun r hr => hconf r (h.mem_iff.2 hr)

theorem empty_not_mem : "" ∉ Matrix.configurations.keys := by decide

/-- a configuration the matrix lacks is a hand-made session's own -/
theorem configuration_custom {r : Result}
    (hr : r.details.configuration = none ∨ ∃ c ∈ Matrix.configurations.keys, r.details.configuration = some c)
    (hname : configuration r ∉ Matrix.configurations.keys) :
    configuration r = "custom-" ++ orDefault r.details.vendor "amd" := by
  rcases hr with hnone | ⟨c, hc, hsome⟩
  · rw [configuration, hnone, orDefault]
  · have hne : c ≠ "" := fun he => empty_not_mem (he ▸ hc)
    rw [configuration, hsome, orDefault, if_neg hne] at hname
    exact absurd hc hname

/-- a configuration on the page has a result of its own to look up the vendor in -/
theorem head_values {results : List Result} (hkeys : Distinct results) {name : String}
    (hname : name ∈ configurations results) :
    ∃ r ∈ results, configuration r = name ∧ (cells results name).values.head? = some r := by
  obtain ⟨r₀, hr₀, hconf⟩ := mem_configurations.1 hname
  rw [← standing_eq hkeys] at hr₀
  have hmem := Dict.mem_entries.2 (cells_get?.2 ⟨hr₀, hconf, rfl⟩)
  match hentries : (cells results name).entries with
  | [] => simp [hentries] at hmem
  | (rel, r) :: entries =>
    have hget := Dict.mem_entries.1 (hentries ▸ List.mem_cons_self : (rel, r) ∈ (cells results name).entries)
    obtain ⟨hr, hrname, -⟩ := cells_get?.1 hget
    exact ⟨r, Dict.mem_of_mem_standing hr, hrname, by rw [Dict.values, hentries, List.map_cons, List.head?_cons]⟩

/-- the vendor of a hand-made session is in its configuration's name -/
theorem vendorOf_custom {results : List Result} (hkeys : Distinct results) (hconf : Known results) {name : String}
    (hname : name ∈ configurations results) (hmatrix : name ∉ Matrix.configurations.keys) :
    name = "custom-" ++ vendorOf results name := by
  obtain ⟨r, hr, rfl, hhead⟩ := head_values hkeys hname
  rw [vendorOf, vendor, Dict.get?_eq_none.2 hmatrix, hhead]
  exact configuration_custom (hconf r hr) hmatrix

theorem vendorOf_perm {results results' : List Result} (h : results.Perm results') (hkeys : Distinct results)
    (hconf : Known results) {name : String} (hname : name ∈ configurations results) :
    vendorOf results name = vendorOf results' name := by
  by_cases hmatrix : name ∈ Matrix.configurations.keys
  · obtain ⟨c, hc⟩ := Dict.mem_keys.1 hmatrix
    rw [vendorOf, vendorOf, vendor, vendor, hc]
  · have hname' := (configurations_perm h).mem_iff.1 hname
    have heq := (vendorOf_custom hkeys hconf hname hmatrix).symm.trans
      (vendorOf_custom (distinct_perm h hkeys) (known_perm h hconf) hname' hmatrix)
    exact String.append_right_inj _ |>.1 heq

theorem custom_unique {results : List Result} (hkeys : Distinct results) (hconf : Known results) {name name' : String}
    (hname : name ∈ configurations results) (hname' : name' ∈ configurations results)
    (hmatrix : name ∉ Matrix.configurations.keys) (hmatrix' : name' ∉ Matrix.configurations.keys)
    (hvendor : vendorOf results name = vendorOf results name') : name = name' := by
  rw [vendorOf_custom hkeys hconf hname hmatrix, hvendor, ← vendorOf_custom hkeys hconf hname' hmatrix']

/-! ## Sections -/

/-- a section reads its cells by release only -/
theorem configurationSection_congr {cells cells' : Dict String Result} (h : cells.get? = cells'.get?) (name : String)
    (releases : List String) : configurationSection name cells releases = configurationSection name cells' releases := by
  simp only [configurationSection, testsByEntry, testsById, visits, notes, h]

theorem vendorSection_perm {results results' : List Result} (h : results.Perm results') (hkeys : Distinct results)
    (hconf : Known results) (vendor : String) : vendorSection results vendor = vendorSection results' vendor := by
  have hpick : (configurations results).filter (fun name => vendorOf results name = vendor) =
      (configurations results').filter fun name => vendorOf results name = vendor := by
    refine ordered_filter_eq (byConfiguration_keys_perm h) (Dict.keys_nodup _) ?_
    intro x hx y hy hxm hym hxv hyv
    rw [decide_eq_true_eq] at hxv hyv
    exact custom_unique hkeys hconf (mem_ordered.2 hx) (mem_ordered.2 hy) hxm hym (hxv.trans hyv.symm)
  have hsame : (configurations results').filter (fun name => vendorOf results name = vendor) =
      (configurations results').filter fun name => vendorOf results' name = vendor := by
    apply List.filter_congr
    intro name hname
    rw [vendorOf_perm h hkeys hconf ((configurations_perm h).mem_iff.2 hname)]
  have hsection (name : String) : configurationSection name (cells results name) (releases results) =
      configurationSection name (cells results' name) (releases results') := by
    rw [releases_perm h, configurationSection_congr (cells_perm h hkeys name)]
  simp only [vendorSection, hpick, hsame, hsection]

theorem latest_perm {texts texts' : List String} (h : texts.Perm texts') : latest texts = latest texts' :=
  h.foldr_eq _

theorem header_perm {results results' : List Result} (h : results.Perm results') (run runUrl : Option String) :
    header results run runUrl = header results' run runUrl := by
  have hbundles := sortedSet_perm ((h.map fun r => orDefault r.details.qemuBundle "").filter (· ≠ ""))
  simp only [header, sortedSet_perm (h.map _), latest_perm (h.map _), hbundles]

theorem page_perm {results results' : List Result} (h : results.Perm results') (hkeys : Distinct results)
    (hconf : Known results) (run runUrl : Option String) : page results run runUrl = page results' run runUrl := by
  have hvendors : (configurations results).map (vendorOf results) = (configurations results).map (vendorOf results') :=
    List.map_congr_left fun name hname => vendorOf_perm h hkeys hconf hname
  have hsections : vendorSection results = vendorSection results' := funext (vendorSection_perm h hkeys hconf)
  simp only [page, header_perm h, hvendors, sortedSet_perm ((configurations_perm h).map _), hsections]

/-! ## Badges -/

theorem badge_perm {cells cells' : String → Dict String Result} (hcells : ∀ name, (cells name).get? = (cells' name).get?)
    {names names' : List String} (h : names.Perm names') (release : String) :
    badge release cells names = badge release cells' names' := by
  have htests := (h.filterMap fun name => (cells' name).get? release).flatMap_right Result.tests
  simp only [badge, hcells, h.countP_eq, htests.countP_eq]

theorem badges_perm {results results' : List Result} (h : results.Perm results') (hkeys : Distinct results) :
    badges results = badges results' := by
  have hbadge (rel : String) : badge rel (cells results) (configurations results) =
      badge rel (cells results') (configurations results') :=
    badge_perm (cells_perm h hkeys) (configurations_perm h) rel
  simp only [badges, releases_perm h, hbadge]

/-! ## The report -/

/-- **The report does not depend on the reading order.** Where no two results are of one configuration and release and each
names a configuration of the matrix or none, `render` makes the same page and the same badges, in the same order, of every
permutation of the results. -/
theorem render_perm (results results' : List Result) (run runUrl : Option String) (h : results.Perm results')
    (hkeys : Distinct results)
    (hconf : ∀ r ∈ results,
      r.details.configuration = none ∨ ∃ c ∈ Matrix.configurations.keys, r.details.configuration = some c) :
    render results run runUrl = render results' run runUrl := by
  have hnil : results = [] ↔ results' = [] := by
    rw [← List.length_eq_zero_iff, ← List.length_eq_zero_iff, h.length_eq]
  simp only [render, hnil, page_perm h hkeys hconf, badges_perm h hkeys]

/-- two matrix cells and two hand-made sessions, of both vendors -/
def sampleResults : List Result :=
  let test := sampleTest "test_linux.py::test_launch" ["linux_launch"]
  let handMade := sampleResult "v0.5.2" none ["sha256"] [test .xfailed]
  [sampleResult "v0.5.3-rc1" (some "psp") ["sha1", "sha256"] [test .passed],
    sampleResult "v0.5.2" (some "intel") ["sha1", "sha256"] [test .failed], handMade,
    { handMade with details := { handMade.details with vendor := some "intel" } }]

theorem render_reversed :
    render sampleResults (some "7") none = render sampleResults.reverse (some "7") none := by
  refine render_perm sampleResults sampleResults.reverse (some "7") none (List.reverse_perm _).symm ?_ ?_
  · unfold Distinct
    decide +kernel
  · intro r hr
    simp only [sampleResults, List.mem_cons, List.not_mem_nil, or_false] at hr
    rcases hr with rfl | rfl | rfl | rfl
    · exact Or.inr ⟨"psp", by decide, rfl⟩
    · exact Or.inr ⟨"intel", by decide, rfl⟩
    · exact Or.inl rfl
    · exact Or.inl rfl

end DrtmTest.ReportOrder
