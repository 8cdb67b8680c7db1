/-
Pure POSIX paths as `pathlib` has them.

A path is a root and its parts. `parse` splits a text at the slashes and drops the empty parts and the lone dots; two
dots stay. A `PurePath` carries the proof that its parts are such names.

- `join`: a path with a text behind it, which replaces the path where it has a root of its own.
- `mem_parse`: no character but the slashes and dots is lost.
- `dirs`, `base`: a text up to its last slash and behind it. A suffix without a slash goes to the part behind it, and
  leaves the root and the directories as they are (`rootOf_append`, `dirs_append`, `parts_append`).
-/
import Mathlib.Data.List.Basic
import Mathlib.Tactic

namespace DrtmTest

/-- what a path may have between two slashes -/
def IsPart (s : List Char) : Prop := s ≠ [] ∧ s ≠ ['.'] ∧ '/' ∉ s

@[ext] structure PurePath where
  /-- how many slashes the root has: none for a relative path, two where POSIX leaves them apart -/
  root : ℕ
  parts : List (List Char)
  isPart : ∀ s ∈ parts, IsPart s

namespace PurePath

/-- a text is split one slash after the other -/
theorem slash_induction {P : List Char → Prop} (last : ∀ s, '/' ∉ s → P s)
    (more : ∀ s t, '/' ∉ s → P t → P (s ++ '/' :: t)) (text : List Char) : P text := by
  induction hlen : text.length using Nat.strong_induction_on generalizing text with
  | _ n ih =>
    by_cases h : '/' ∈ text
    · obtain ⟨s, t, htext, hs⟩ := List.eq_append_cons_of_mem h
      subst htext
      refine more s t hs (ih t.length ?_ t rfl)
      rw [← hlen, List.length_append, List.length_cons]
      omega
    · exact last text h

theorem slash_not_mem {text s : List Char} (h : s ∈ text.splitOn '/') : '/' ∉ s := by
  induction text using slash_induction with
  | last t ht =>
    rw [List.splitOn_eq_singleton ht] at h
    exact List.mem_singleton.1 h ▸ ht
  | more t u ht ih =>
    rw [List.splitOn_append_cons_self_of_not_mem ht] at h
    rcases List.mem_cons.1 h with rfl | h
    · exact ht
    · exact ih h

/-- empty parts and lone dots are dropped -/
def kept (s : List Char) : Bool := s ≠ [] && s ≠ ['.']

theorem isPart_of_kept {text s : List Char} (h : s ∈ (text.splitOn '/').filter kept) : IsPart s := by
  obtain ⟨hmem, hkept⟩ := List.mem_filter.1 h
  simp only [kept, Bool.and_eq_true, decide_eq_true_eq] at hkept
  exact ⟨hkept.1, hkept.2, slash_not_mem hmem⟩

/-- `posixpath.splitroot`: two slashes are a root of their own, any other number is the one root -/
def rootOf (text : List Char) : ℕ :=
  match (text.takeWhile (· = '/')).length with
  | 0 => 0
  | 2 => 2
  | _ => 1

/-- `PurePosixPath(text)` -/
def parse (text : List Char) : PurePath := ⟨rootOf text, (text.splitOn '/').filter kept, fun _ h => isPart_of_kept h⟩

/-- `path / text` -/
def join (p : PurePath) (text : List Char) : PurePath :=
  if rootOf text = 0 then
    ⟨p.root, p.parts ++ (parse text).parts, fun s h => (List.mem_append.1 h).elim (p.isPart s) ((parse text).isPart s)⟩
  else parse text

/-- the directories a text goes through before its last slash -/
def dirs (text : List Char) : List (List Char) := (text.splitOn '/').dropLast.filter kept

/-- what stands behind the last slash -/
def base (text : List Char) : List Char := (text.splitOn '/').getLast (List.splitOn_ne_nil '/' text)

/-- no character but the slashes and dots is lost -/
theorem mem_parse {c : Char} (hslash : c ≠ '/') (hdot : c ≠ '.') (text : List Char) :
    (∃ s ∈ (parse text).parts, c ∈ s) ↔ c ∈ text := by
  have hkept : ∀ s : List Char, c ∈ s → kept s = true := by
    intro s hs
    have hnil : s ≠ [] := List.ne_nil_of_mem hs
    have hne : s ≠ ['.'] := fun h => hdot (List.mem_singleton.1 (h ▸ hs))
    simp only [kept, hnil, hne, ne_eq, not_false_eq_true, decide_true, Bool.and_self]
  change (∃ s ∈ (text.splitOn '/').filter kept, c ∈ s) ↔ c ∈ text
  induction text using slash_induction with
  | last s hs =>
    rw [List.splitOn_eq_singleton hs]
    constructor
    · rintro ⟨t, ht, hc⟩
      exact List.mem_singleton.1 (List.mem_filter.1 ht).1 ▸ hc
    · intro hc
      exact ⟨s, List.mem_filter.2 ⟨List.mem_singleton_self s, hkept s hc⟩, hc⟩
  | more s t hs ih =>
    rw [List.splitOn_append_cons_self_of_not_mem hs, List.mem_append, List.mem_cons, ← ih]
    constructor
    · rintro ⟨u, hu, hc⟩
      obtain ⟨hmem, hu⟩ := List.mem_filter.1 hu
      rcases List.mem_cons.1 hmem with rfl | hmem
      · exact Or.inl hc
      · exact Or.inr (Or.inr ⟨u, List.mem_filter.2 ⟨hmem, hu⟩, hc⟩)
    · rintro (hc | hc | ⟨u, hu, hc⟩)
      · exact ⟨s, List.mem_filter.2 ⟨List.mem_cons_self, hkept s hc⟩, hc⟩
      · exact absurd hc hslash
      · obtain ⟨hmem, hu⟩ := List.mem_filter.1 hu
        exact ⟨u, List.mem_filter.2 ⟨List.mem_cons_of_mem s hmem, hu⟩, hc⟩

theorem splitOn_append {suffix : List Char} (h : '/' ∉ suffix) (text : List Char) :
    (text ++ suffix).splitOn '/' = (text.splitOn '/').dropLast ++ [base text ++ suffix] := by
  induction text using slash_induction with
  | last s hs =>
    have hbase : base s = s := by simp only [base, List.splitOn_eq_singleton hs, List.getLast_singleton]
    rw [List.splitOn_eq_singleton (by simp [hs, h]), List.splitOn_eq_singleton hs, hbase]
    rfl
  | more s t hs ih =>
    have hbase : base (s ++ '/' :: t) = base t := by
      simp only [base, List.splitOn_append_cons_self_of_not_mem hs]
      exact List.getLast_cons _
    rw [List.append_assoc, List.cons_append, List.splitOn_append_cons_self_of_not_mem hs, ih, hbase,
      List.splitOn_append_cons_self_of_not_mem hs, List.dropLast_cons_of_ne_nil (List.splitOn_ne_nil '/' t)]
    rfl

/-- a suffix without a slash changes the last part alone -/
theorem parts_append {suffix : List Char} (h : '/' ∉ suffix) (text : List Char) (hkept : kept (base text ++ suffix) = true) :
    (parse (text ++ suffix)).parts = dirs text ++ [base text ++ suffix] := by
  change ((text ++ suffix).splitOn '/').filter kept = _
  rw [splitOn_append h, List.filter_append, List.filter_cons_of_pos hkept]
  rfl

theorem dirs_append {suffix : List Char} (h : '/' ∉ suffix) (text : List Char) : dirs (text ++ suffix) = dirs text := by
  rw [dirs, splitOn_append h, List.dropLast_concat]
  rfl

theorem rootOf_append {suffix : List Char} (h : '/' ∉ suffix) (hne : suffix ≠ []) (text : List Char) :
    rootOf (text ++ suffix) = rootOf text := by
  have hslashes : (text ++ suffix).takeWhile (· = '/') = text.takeWhile (· = '/') := by
    obtain ⟨c, suffix, rfl⟩ := List.exists_cons_of_ne_nil hne
    have hc : c ≠ '/' := fun hc => h (hc ▸ List.mem_cons_self)
    induction text with
    | nil => exact List.takeWhile_cons_of_neg (by simpa using hc)
    | cons d text ih => rw [List.cons_append, List.takeWhile_cons, List.takeWhile_cons, ih]
  rw [rootOf, hslashes, rootOf]

end PurePath

end DrtmTest
