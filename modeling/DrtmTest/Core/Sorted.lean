/-
Lists made independent of the order their elements came in.

- `sortedSet`: `sorted(set(l))`. It depends on the elements alone (`sortedSet_congr`).
- `ordered`: the elements found in the order of a known list, the unknown ones behind in the order they were found. It
  has the elements found, each as often (`ordered_perm`), and where at most one unknown element is picked, what is picked
  does not depend on the order (`ordered_filter_eq`).
-/
import Mathlib.Data.List.Dedup
import Mathlib.Data.List.Sort
import Mathlib.Tactic

namespace DrtmTest.Sorted

variable {α : Type} [LinearOrder α]

/-- `sorted(set(l))` -/
def sortedSet (l : List α) : List α := l.dedup.insertionSort (· ≤ ·)

theorem mem_sortedSet {l : List α} {x : α} : x ∈ sortedSet l ↔ x ∈ l := by
  rw [sortedSet, List.mem_insertionSort, List.mem_dedup]

theorem sortedSet_nodup (l : List α) : (sortedSet l).Nodup :=
  (List.perm_insertionSort (· ≤ ·) l.dedup).nodup_iff.2 l.nodup_dedup

theorem sortedSet_pairwise (l : List α) : (sortedSet l).Pairwise (· < ·) := by
  have hsorted : (sortedSet l).Pairwise (· ≤ ·) := List.pairwise_insertionSort (· ≤ ·) _
  exact hsorted.imp₂ (fun _ _ hle hne => lt_of_le_of_ne hle hne) (sortedSet_nodup l)

theorem sortedSet_congr {l m : List α} (h : ∀ x, x ∈ l ↔ x ∈ m) : sortedSet l = sortedSet m := by
  have hperm : (sortedSet l).Perm (sortedSet m) := by
    apply (List.perm_ext_iff_of_nodup (sortedSet_nodup l) (sortedSet_nodup m)).2
    intro x
    rw [mem_sortedSet, mem_sortedSet, h]
  exact hperm.eq_of_pairwise' (List.pairwise_insertionSort (· ≤ ·) _) (List.pairwise_insertionSort (· ≤ ·) _)

theorem sortedSet_perm {l m : List α} (h : l.Perm m) : sortedSet l = sortedSet m :=
  sortedSet_congr fun _ => h.mem_iff

/-- `found` in the order of `known`, what `known` lacks after it -/
def ordered (found known : List α) : List α :=
  known.filter (fun x => x ∈ found) ++ found.filter fun x => x ∉ known

theorem mem_ordered {found known : List α} {x : α} : x ∈ ordered found known ↔ x ∈ found := by
  by_cases h : x ∈ known <;> simp [ordered, h]

theorem ordered_perm {found found' : List α} (known : List α) (h : found.Perm found') :
    (ordered found known).Perm (ordered found' known) := by
  have hknown : known.filter (fun x => x ∈ found) = known.filter fun x => x ∈ found' := by
    simp only [h.mem_iff]
  rw [ordered, ordered, hknown]
  exact (h.filter _).append_left _

/-- what is all known is in the known order, each once -/
theorem ordered_known {found known : List α} (h : ∀ x ∈ found, x ∈ known) :
    ordered found known = known.filter fun x => x ∈ found := by
  have hnone : found.filter (fun x => x ∉ known) = [] := List.filter_eq_nil_iff.2 fun x hx => by simpa using h x hx
  rw [ordered, hnone, List.append_nil]

theorem ordered_nodup {found known : List α} (hf : found.Nodup) (hk : known.Nodup) : (ordered found known).Nodup := by
  apply List.Nodup.append (hk.filter _) (hf.filter _)
  intro x hx hx'
  simp only [List.mem_filter, decide_eq_true_eq] at hx hx'
  exact hx'.2 hx.1

/-- what is picked does not depend on the order, where at most one unknown element is picked -/
theorem ordered_filter_eq {found found' known : List α} (h : found.Perm found') (hf : found.Nodup) {p : α → Bool}
    (hp : ∀ x ∈ found, ∀ y ∈ found, x ∉ known → y ∉ known → p x → p y → x = y) :
    (ordered found known).filter p = (ordered found' known).filter p := by
  have hknown : known.filter (fun x => x ∈ found) = known.filter fun x => x ∈ found' := by
    simp only [h.mem_iff]
  rw [ordered, ordered, List.filter_append, List.filter_append, hknown]
  congr 1
  have hperm := (h.filter fun x => x ∉ known).filter p
  have hone : ((found.filter fun x => x ∉ known).filter p).length ≤ 1 := by
    rw [← Nat.not_lt]
    intro hlt
    have hnodup := (hf.filter fun x => x ∉ known).filter p
    generalize hl : (found.filter fun x => x ∉ known).filter p = l at hlt hnodup
    match l, hlt, hnodup, hl with
    | x :: y :: l, _, hnodup, hl =>
      have hx : x ∈ (found.filter fun x => x ∉ known).filter p := hl ▸ List.mem_cons_self
      have hy : y ∈ (found.filter fun x => x ∉ known).filter p := hl ▸ List.mem_cons_of_mem x List.mem_cons_self
      simp only [List.mem_filter, decide_eq_true_eq] at hx hy
      have hxy := hp x hx.1.1 y hy.1.1 hx.1.2 hy.1.2 hx.2 hy.2
      rw [hxy] at hnodup
      simp at hnodup
  match hl : (found.filter fun x => x ∉ known).filter p, hone with
  | [], _ =>
    rw [hl] at hperm
    exact hperm.nil_eq
  | [x], _ =>
    rw [hl] at hperm
    exact (List.singleton_perm.1 hperm)

end DrtmTest.Sorted
