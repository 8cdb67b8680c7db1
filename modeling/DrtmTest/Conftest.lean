/-
What an Intel session runs (`pytest_collection_modifyitems` of `tests/conftest.py`), and what the session's own hook then
boots.

- `intel_eq`: the hook keeps the items that have neither the marker nor the fixture of an AMD-only entry.
- `runs_no_amd_only_iff`: no AMD-only boot is submitted, none is taken by what is left, and the items dropped are those that
  are marked or take one, exactly where no item takes one by a parameter alone.
- `parameter_boots_amd_only`: a test parametrized over an AMD-only entry is kept and its boot started.
-/
import DrtmTest.Collection

namespace DrtmTest.Conftest

open DrtmTest.Collection

variable {V : Type}

/-! ## Model -/

/-- one GRUB entry -/
structure Entry where
  title : String
  amdOnly : Bool

def amdOnlyNames (table : Dict String Entry) : List String := (table.entries.filter fun e => e.2.amdOnly).map Prod.fst

/-- what Intel does not run -/
def drops (table : Dict String Entry) (item : Item V) : Bool :=
  item.markers.contains "amd_only" || (amdOnlyNames table).any fun name => item.fixturenames.any (Value.is name)

/-- the items left -/
def pytestCollectionModifyitems (vendor : String) (table : Dict String Entry) (items : List (Item V)) : List (Item V) :=
  if vendor = "amd" then items
  else
    let dropped := items.filter (drops table)
    if dropped = [] then items else items.filter fun item => !drops table item

/-! ## What is left -/

/-- the item takes an AMD-only entry, in the session's sense -/
def takes (table : Dict String Entry) (item : Item V) : Bool := (amdOnlyNames table).any fun name => item.names name

/-- by a fixture -/
def takesFixture (table : Dict String Entry) (item : Item V) : Bool :=
  (amdOnlyNames table).any fun name => item.fixturenames.any (Value.is name)

/-- by the value of a parameter -/
def takesParameter (table : Dict String Entry) (item : Item V) : Bool :=
  (amdOnlyNames table).any fun name => item.params.any (Value.is name)

def marked (item : Item V) : Bool := item.markers.contains "amd_only"

theorem takes_eq (table : Dict String Entry) (item : Item V) :
    takes table item = (takesFixture table item || takesParameter table item) := by
  rw [takes, takesFixture, takesParameter, Bool.eq_iff_iff, Bool.or_eq_true]
  simp only [List.any_eq_true, Item.names, Item.named, List.any_append, Bool.or_eq_true]
  constructor
  · rintro ⟨name, hname, h | h⟩
    · exact Or.inl ⟨name, hname, h⟩
    · exact Or.inr ⟨name, hname, h⟩
  · rintro (⟨name, hname, h⟩ | ⟨name, hname, h⟩)
    · exact ⟨name, hname, Or.inl h⟩
    · exact ⟨name, hname, Or.inr h⟩

theorem intel_eq (table : Dict String Entry) (items : List (Item V)) :
    pytestCollectionModifyitems "intel" table items =
      items.filter fun item => !(marked item || takesFixture table item) := by
  rw [pytestCollectionModifyitems, if_neg (by decide)]
  simp only
  split_ifs with hnone
  · refine (List.filter_eq_self.2 fun item hitem => ?_).symm
    have hno := List.filter_eq_nil_iff.1 hnone item hitem
    rw [Bool.not_eq_true']
    exact Bool.eq_false_iff.2 hno
  · rfl

/-- after both hooks no AMD-only boot has been submitted, no item left takes one, and the items dropped are those that are
marked or take one -/
def RunsNoAmdOnly (table : Dict String Entry) (prepares collectonly : Bool) (recorded : Dict String (List String))
    (items : List (Item V)) : Prop :=
  let left := pytestCollectionModifyitems "intel" table items
  (∀ name ∈ amdOnlyNames table,
    .submit name ∉ (Collection.pytestCollectionModifyitems table.keys prepares collectonly recorded left).2) ∧
  (∀ item ∈ left, takes table item = false) ∧ left = items.filter fun item => !(marked item || takes table item)

/-- **On Intel no AMD-only boot ever starts**, and nothing else is dropped, exactly where no item takes an AMD-only entry by
a parameter alone. -/
theorem runs_no_amd_only_iff (table : Dict String Entry) (prepares collectonly : Bool)
    (recorded : Dict String (List String)) (items : List (Item V)) :
    RunsNoAmdOnly table prepares collectonly recorded items ↔
      ∀ item ∈ items, takesParameter table item = true → marked item = true ∨ takesFixture table item = true := by
  have hleft := intel_eq table items
  constructor
  · rintro ⟨-, hnone, -⟩ item hitem hparameter
    by_contra hno
    obtain ⟨hmarked, hfixture⟩ := not_or.1 hno
    have hkept : item ∈ pytestCollectionModifyitems "intel" table items := by
      rw [hleft]
      exact List.mem_filter.2 ⟨hitem, by simp [hmarked, hfixture]⟩
    have htakes := hnone item hkept
    rw [takes_eq, hparameter, Bool.or_true] at htakes
    cases htakes
  · intro h
    have hsame : pytestCollectionModifyitems "intel" table items =
        items.filter fun item => !(marked item || takes table item) := by
      rw [hleft]
      refine List.filter_congr fun item hitem => ?_
      rw [takes_eq]
      cases hparameter : takesParameter table item with
      | false => rw [Bool.or_false]
      | true => rcases h item hitem hparameter with hm | hf <;> simp [*]
    have hnone : ∀ item ∈ pytestCollectionModifyitems "intel" table items, takes table item = false := by
      intro item hitem
      rw [hsame] at hitem
      have hkept := (List.mem_filter.1 hitem).2
      rw [Bool.not_eq_true', Bool.or_eq_false_iff] at hkept
      exact hkept.2
    refine ⟨fun name hname hsubmit => ?_, hnone, hsame⟩
    obtain ⟨item, hitem, hnames⟩ := named_of_submit hsubmit
    have htakes : takes table item = true := List.any_eq_true.2 ⟨name, hname, hnames⟩
    rw [hnone item hitem] at htakes
    cases htakes

/-- two of the entries the suite boots -/
def sampleTable : Dict String Entry where
  entries :=
    [("xen_efi_launch", ⟨"Boot Xen with TrenchBoot (EFI)", false⟩),
      ("xen_efi_debug_launch", ⟨"Boot Xen with TrenchBoot (EFI)", true⟩)]
  nodup := by decide

/-- a test that fetches the fixture a parameter names -/
def parametrized : Item Unit where
  nodeid := "tests/test_launch.py::test_launch_brings_every_cpu_up[xen_efi_debug_launch]"
  fixturenames := [.str "request", .str "name"]
  params := [.str "xen_efi_debug_launch"]
  markers := ["parametrize"]

/-- it is kept and its boot started -/
theorem parameter_boots_amd_only :
    ¬ RunsNoAmdOnly sampleTable true false ∅ [parametrized] ∧
      .submit "xen_efi_debug_launch" ∈ (Collection.pytestCollectionModifyitems sampleTable.keys true false ∅
        (pytestCollectionModifyitems "intel" sampleTable [parametrized])).2 := by
  have hsubmit : .submit "xen_efi_debug_launch" ∈ (Collection.pytestCollectionModifyitems sampleTable.keys true false ∅
      (pytestCollectionModifyitems "intel" sampleTable [parametrized])).2 := by decide +kernel
  exact ⟨fun h => h.1 "xen_efi_debug_launch" (by decide +kernel) hsubmit, hsubmit⟩

end DrtmTest.Conftest
