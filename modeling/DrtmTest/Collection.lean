/-
Lean model of the collection hook of a session (`pytest_collection_modifyitems` of `drtmtest/session.py`), which starts the
boots the collected tests need.

What a test names is the values its fixtures and its parameters have, of any kind; only strings can name a boot. The loop
over the items is a fold that keeps the index of the first item that wants a boot.

- `taken_spec`: the boots of one item, each once, in the order they are first mentioned.
- `collected_wants`: after each item the boots wanted are those of the items so far, in the order of first mention.
- `each_boot_once`: `prepare` gets them once and they are submitted in that order, each once; what is recorded of an item
  are its boots.
-/
import DrtmTest.Core.Dict
import Mathlib.Data.List.Sort

namespace DrtmTest.Collection

/-! ## Model -/

variable {V : Type}

/-- the name of a fixture, or the value of a parameter -/
inductive Value (V : Type) where
  | str (s : String)
  /-- no string -/
  | other (v : V)

def Value.str? : Value V → Option String
  | .str s => some s
  | .other _ => none

structure Item (V : Type) where
  nodeid : String
  fixturenames : List (Value V)
  /-- the values of its `callspec`, none without one -/
  params : List (Value V)
  markers : List String

def Item.named (item : Item V) : List (Value V) := item.fixturenames ++ item.params

/-- the boots the item takes -/
def Item.taken (names : List String) (item : Item V) : List String :=
  ((item.named.filterMap Value.str?).eraseDups).filter fun name => name ∈ names

/-- `_entries` and `first_wanted` -/
structure Collected where
  entries : Dict String (List String)
  firstWanted : Dict String ℕ

/-- the loop's body -/
def Collected.see (names : List String) (s : Collected) (x : Item V × ℕ) : Collected where
  entries := s.entries.set x.1.nodeid (x.1.taken names)
  firstWanted := (x.1.taken names).foldl (fun d name => d.setdefault name x.2) s.firstWanted

def Collected.wanted (s : Collected) : List String :=
  s.firstWanted.keys.insertionSort fun a b => (s.firstWanted.get? a).getD 0 ≤ (s.firstWanted.get? b).getD 0

inductive Event where
  | prepare (names : List String)
  | submit (name : String)
  deriving DecidableEq

/-- what is recorded of the items, and what is called. `prepares` for a session with a `prepare`. -/
def pytestCollectionModifyitems (names : List String) (prepares collectonly : Bool) (recorded : Dict String (List String))
    (items : List (Item V)) : Dict String (List String) × List Event :=
  if collectonly then (recorded, [])
  else
    let s := items.zipIdx.foldl (Collected.see names) ⟨recorded, ∅⟩
    if s.firstWanted.keys = [] then (s.entries, [])
    else (s.entries, (if prepares then [.prepare s.wanted] else []) ++ s.wanted.map .submit)

/-! ## First mentions -/

/-- the value is this string -/
def Value.is (name : String) : Value V → Bool
  | .str s => s = name
  | .other _ => false

/-- where in an item a name is first mentioned -/
def Item.position (item : Item V) (name : String) : ℕ := item.named.findIdx (Value.is name)

def Item.names (name : String) (item : Item V) : Bool := item.named.any (Value.is name)

/-- the first item that names a boot -/
def firstItem (items : List (Item V)) (name : String) : ℕ := items.findIdx (Item.names name)

/-- an earlier item names `a` first, or the same item does and mentions it first -/
def Before (items : List (Item V)) (a b : String) : Prop :=
  firstItem items a < firstItem items b ∨ (firstItem items a = firstItem items b ∧
    ∀ item, items[firstItem items a]? = some item → item.position a < item.position b)

theorem is_iff {name : String} {v : Value V} : v.is name = true ↔ v.str? = some name := by
  cases v with
  | str s => simp [Value.is, Value.str?]
  | other v => simp [Value.is, Value.str?]

theorem names_iff {name : String} {item : Item V} : item.names name = true ↔ name ∈ item.named.filterMap Value.str? := by
  rw [Item.names, List.any_eq_true, List.mem_filterMap]
  simp only [is_iff]

/-- strings without repetitions stand in the order of their first mentions -/
theorem eraseDups_position (l : List (Value V)) :
    ((l.filterMap Value.str?).eraseDups).Pairwise fun a b => l.findIdx (Value.is a) < l.findIdx (Value.is b) := by
  have his : ∀ a, (fun v : Value V => decide (v.str? = some a)) = Value.is a := by
    intro a
    funext v
    exact Bool.eq_iff_iff.2 (by rw [decide_eq_true_eq, is_iff])
  have h := Dict.eraseDups_filterMap Value.str? l
  simpa only [his] using h

/-- **The boots of an item**, each once, in the order they are first mentioned. -/
theorem taken_spec (names : List String) (item : Item V) :
    (item.taken names).Nodup ∧ (∀ name, name ∈ item.taken names ↔ name ∈ names ∧ item.names name = true) ∧
      (item.taken names).Pairwise fun a b => item.position a < item.position b := by
  refine ⟨(Dict.eraseDups_nodup _).filter _, fun name => ?_, (eraseDups_position item.named).filter _⟩
  rw [Item.taken, List.mem_filter, List.mem_eraseDups, names_iff, decide_eq_true_eq, and_comm]

/-! ## The loop -/

/-- the boots wanted by the items seen so far: their order, and the first item of each -/
structure Wants (names : List String) (items : List (Item V)) (d : Dict String ℕ) : Prop where
  mem : ∀ name, name ∈ d.keys ↔ name ∈ names ∧ ∃ item ∈ items, item.names name = true
  first : ∀ name i, d.get? name = some i → i = firstItem items name
  order : d.keys.Pairwise (Before items)

/-- a boot that was named before keeps its first item -/
theorem firstItem_old {items : List (Item V)} {name : String} (h : ∃ item ∈ items, item.names name = true) (item : Item V) :
    firstItem (items ++ [item]) name = firstItem items name ∧ firstItem items name < items.length :=
  Dict.findIdx_old h [item]

theorem before_old {items : List (Item V)} {a b : String} (ha : ∃ item ∈ items, item.names a = true)
    (hb : ∃ item ∈ items, item.names b = true) (h : Before items a b) (item : Item V) : Before (items ++ [item]) a b := by
  obtain ⟨hfirst, hlt⟩ := firstItem_old ha item
  rw [Before, hfirst, (firstItem_old hb item).1]
  rcases h with h | ⟨heq, h⟩
  · exact Or.inl h
  · refine Or.inr ⟨heq, fun x hx => h x ?_⟩
    rwa [List.getElem?_append_left hlt] at hx

theorem before_new {items : List (Item V)} {item : Item V} {a b : String}
    (ha : firstItem (items ++ [item]) a = items.length) (hb : firstItem (items ++ [item]) b = items.length)
    (h : item.position a < item.position b) : Before (items ++ [item]) a b := by
  refine Or.inr ⟨ha.trans hb.symm, fun x hx => ?_⟩
  rw [ha, List.getElem?_concat_length] at hx
  exact Option.some.inj hx ▸ h

theorem exists_named_snoc {items : List (Item V)} {item : Item V} {name : String} :
    (∃ x ∈ items ++ [item], x.names name = true) ↔ (∃ x ∈ items, x.names name = true) ∨ item.names name = true := by
  simp only [List.mem_append, List.mem_singleton, or_and_right, exists_or, exists_eq_left]

/-- one item more -/
theorem Wants.step {names : List String} {items : List (Item V)} {d : Dict String ℕ} (h : Wants names items d)
    (item : Item V) : Wants names (items ++ [item])
      ((item.taken names).foldl (fun d name => d.setdefault name items.length) d) := by
  obtain ⟨hnodup, htaken, hposition⟩ := taken_spec names item
  obtain ⟨hkeys, hget⟩ := Dict.foldl_setdefault d (item.taken names) items.length hnodup
  have hseen : ∀ {name}, name ∈ d.keys → ∃ x ∈ items, x.names name = true := fun hname => ((h.mem _).1 hname).2
  have hnew : ∀ {name}, name ∈ (item.taken names).filter (fun k => k ∉ d.keys) →
      firstItem (items ++ [item]) name = items.length := by
    intro name hname
    obtain ⟨hmem, hnot⟩ := List.mem_filter.1 hname
    obtain ⟨hin, hitem⟩ := (htaken name).1 hmem
    exact Dict.findIdx_new (fun hex => of_decide_eq_true hnot ((h.mem name).2 ⟨hin, hex⟩)) hitem
  refine ⟨fun name => ?_, fun name i hi => ?_, ?_⟩
  · rw [hkeys, List.mem_append, List.mem_filter, decide_eq_true_eq, h.mem, htaken, exists_named_snoc, and_or_left]
    exact or_congr_right' fun hold => and_iff_left hold
  · rw [hget] at hi
    split_ifs at hi with hcase
    · rw [← Option.some.inj hi, hnew (List.mem_filter.2 ⟨hcase.1, decide_eq_true hcase.2⟩)]
    · have hname : name ∈ d.keys := Dict.mem_keys.2 ⟨i, hi⟩
      rw [(firstItem_old (hseen hname) item).1]
      exact h.first name i hi
  · rw [hkeys]
    refine List.pairwise_append.2 ⟨?_, ?_, fun a ha b hb => ?_⟩
    · exact h.order.imp_of_mem fun ha hb hab => before_old (hseen ha) (hseen hb) hab item
    · exact (hposition.filter _).imp_of_mem fun ha hb hab => before_new (hnew ha) (hnew hb) hab
    · left
      rw [(firstItem_old (hseen ha) item).1, hnew hb]
      exact (firstItem_old (hseen ha) item).2

theorem foldl_snoc (names : List String) (s : Collected) (items : List (Item V)) (item : Item V) :
    (items ++ [item]).zipIdx.foldl (Collected.see names) s =
      (items.zipIdx.foldl (Collected.see names) s).see names (item, items.length) := by
  rw [List.zipIdx_append, List.foldl_append, Nat.zero_add]
  rfl

theorem collected_wants (names : List String) (recorded : Dict String (List String)) (items : List (Item V)) :
    Wants names items (items.zipIdx.foldl (Collected.see names) ⟨recorded, ∅⟩).firstWanted := by
  induction items using List.reverseRecOn with
  | nil => exact ⟨fun name => by simp, (fun name i h => by cases h), List.Pairwise.nil⟩
  | append_singleton items item ih =>
    rw [foldl_snoc]
    exact ih.step item

/-- what is recorded of an item no later one of its id replaces -/
theorem collected_entries (names : List String) (recorded : Dict String (List String)) (before : List (Item V))
    (item : Item V) (after : List (Item V)) (h : ∀ other ∈ after, other.nodeid ≠ item.nodeid) :
    ((before ++ item :: after).zipIdx.foldl (Collected.see names) ⟨recorded, ∅⟩).entries.get? item.nodeid =
      some (item.taken names) := by
  induction after using List.reverseRecOn with
  | nil =>
    rw [foldl_snoc, Collected.see, Dict.get?_set, if_pos rfl]
  | append_singleton after other ih =>
    have hne := h other (List.mem_append_right _ List.mem_cons_self)
    rw [← List.cons_append, ← List.append_assoc, foldl_snoc, Collected.see, Dict.get?_set, if_neg (Ne.symm hne)]
    exact ih fun x hx => h x (List.mem_append_left _ hx)

/-- sorted by their first items the boots stay in the order they were found in -/
theorem wanted_eq (names : List String) (recorded : Dict String (List String)) (items : List (Item V)) :
    (items.zipIdx.foldl (Collected.see names) ⟨recorded, ∅⟩).wanted =
      (items.zipIdx.foldl (Collected.see names) ⟨recorded, ∅⟩).firstWanted.keys := by
  have hwants := collected_wants names recorded items
  refine List.Pairwise.insertionSort_eq (hwants.order.imp_of_mem fun ha hb hab => ?_)
  obtain ⟨i, hi⟩ := Dict.mem_keys.1 ha
  obtain ⟨j, hj⟩ := Dict.mem_keys.1 hb
  rw [hi, hj, Option.getD_some, Option.getD_some, hwants.first _ i hi, hwants.first _ j hj]
  rcases hab with hlt | ⟨heq, -⟩
  · exact hlt.le
  · exact heq.le

/-! ## The hook -/

theorem hook_eq (names : List String) (prepares : Bool) (recorded : Dict String (List String)) (items : List (Item V)) :
    pytestCollectionModifyitems names prepares false recorded items =
      ((items.zipIdx.foldl (Collected.see names) ⟨recorded, ∅⟩).entries,
        let wanted := (items.zipIdx.foldl (Collected.see names) ⟨recorded, ∅⟩).firstWanted.keys
        if wanted = [] then [] else (if prepares then [.prepare wanted] else []) ++ wanted.map .submit) := by
  simp only [pytestCollectionModifyitems, wanted_eq, Bool.false_eq_true, if_false]
  split_ifs <;> rfl

/-- what is submitted is a boot some item names -/
theorem named_of_submit {names : List String} {prepares collectonly : Bool} {recorded : Dict String (List String)}
    {items : List (Item V)} {name : String}
    (h : .submit name ∈ (pytestCollectionModifyitems names prepares collectonly recorded items).2) :
    ∃ item ∈ items, item.names name = true := by
  cases collectonly with
  | true => cases h
  | false =>
    rw [hook_eq] at h
    simp only at h
    split_ifs at h
    · cases h
    · rcases List.mem_append.1 h with h | h
      · cases List.mem_singleton.1 h
      · obtain ⟨_, hname, heq⟩ := List.mem_map.1 h
        cases heq
        exact (((collected_wants names recorded items).mem name).1 hname).2
    · obtain ⟨_, hname, heq⟩ := List.mem_map.1 h
      cases heq
      exact (((collected_wants names recorded items).mem name).1 hname).2

/-- **The pool gets each wanted boot once, in the order tests want it.** What is wanted are the boot names some item names,
each once, the first item that names it first and within one item the first mention first. `prepare`, where there is one,
is called once with all of them and they are submitted behind it in this order; where none is wanted, or the session only
collects, nothing is called. What is recorded of an item, as long as no later one has its id, are the boots it names, each
once. -/
theorem each_boot_once (names : List String) (prepares : Bool) (recorded : Dict String (List String))
    (items : List (Item V)) :
    (∃ wanted : List String, wanted.Nodup ∧
      (∀ name, name ∈ wanted ↔ name ∈ names ∧ ∃ item ∈ items, item.names name = true) ∧ wanted.Pairwise (Before items) ∧
      (pytestCollectionModifyitems names prepares false recorded items).2 =
        if wanted = [] then [] else (if prepares then [.prepare wanted] else []) ++ wanted.map .submit) ∧
    (∀ before item after, items = before ++ item :: after → (∀ other ∈ after, other.nodeid ≠ item.nodeid) →
      ∃ taken, (pytestCollectionModifyitems names prepares false recorded items).1.get? item.nodeid = some taken ∧
        taken.Nodup ∧ ∀ name, name ∈ taken ↔ name ∈ names ∧ item.names name = true) ∧
    (pytestCollectionModifyitems names prepares true recorded items).2 = [] := by
  have hwants := collected_wants names recorded items
  refine ⟨⟨_, Dict.keys_nodup _, hwants.mem, hwants.order, by rw [hook_eq]⟩, ?_, rfl⟩
  rintro before item after rfl hlast
  obtain ⟨hnodup, hmem, -⟩ := taken_spec names item
  exact ⟨item.taken names, by rw [hook_eq]; exact collected_entries names recorded before item after hlast, hnodup, hmem⟩

end DrtmTest.Collection
