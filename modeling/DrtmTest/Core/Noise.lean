/-
A list with pieces of noise between its elements, and what a cleaning function makes of it.

- `Sprinkled noise base raw`: `raw` is `base` with any number of pieces between its elements, before and behind them.
- `Sprinkled.cleaned`: a function that keeps the elements of `base` and drops a piece, whatever follows, turns `raw` back
  into `base`.
- `Sprinkled.split`, `Sprinkled.at_head`: where `base` is cut, `raw` can be cut.
-/
import Mathlib.Data.List.Basic

namespace DrtmTest.Noise

variable {α : Type}

/-- `raw` is `base` with pieces of noise between its elements -/
inductive Sprinkled (noise : List α → Prop) : List α → List α → Prop
  | nil : Sprinkled noise [] []
  | keep (x : α) {base raw : List α} : Sprinkled noise base raw → Sprinkled noise (x :: base) (x :: raw)
  | piece {p base raw : List α} : noise p → Sprinkled noise base raw → Sprinkled noise base (p ++ raw)

variable {noise : List α → Prop}

/-- the list itself, without any noise -/
theorem Sprinkled.refl (base : List α) : Sprinkled noise base base := by
  induction base with
  | nil => exact .nil
  | cons x base ih => exact .keep x ih

theorem Sprinkled.append {a b r s : List α} (ha : Sprinkled noise a r) (hb : Sprinkled noise b s) :
    Sprinkled noise (a ++ b) (r ++ s) := by
  induction ha with
  | nil => exact hb
  | keep x _ ih => exact .keep x ih
  | piece hp _ ih => exact List.append_assoc .. ▸ .piece hp ih

/-- the noise before the first element -/
theorem Sprinkled.at_head {x : α} {base raw : List α} (h : Sprinkled noise (x :: base) raw) :
    ∃ before rest, raw = before ++ x :: rest ∧ Sprinkled noise [] before ∧ Sprinkled noise base rest := by
  generalize hb : x :: base = b at h
  induction h with
  | nil => cases hb
  | keep y h _ => cases hb; exact ⟨[], _, rfl, .nil, h⟩
  | piece hp _ ih =>
    obtain ⟨before, rest, rfl, hbefore, hrest⟩ := ih hb
    exact ⟨_ ++ before, rest, (List.append_assoc ..).symm, .piece hp hbefore, hrest⟩

theorem Sprinkled.split {a b raw : List α} (h : Sprinkled noise (a ++ b) raw) :
    ∃ r s, raw = r ++ s ∧ Sprinkled noise a r ∧ Sprinkled noise b s := by
  induction a generalizing raw with
  | nil => exact ⟨[], raw, rfl, .nil, h⟩
  | cons x a ih =>
    obtain ⟨before, rest, rfl, hbefore, hrest⟩ := h.at_head
    obtain ⟨r, s, rfl, hr, hs⟩ := ih hrest
    exact ⟨before ++ x :: r, s, by rw [List.append_assoc, List.cons_append], hbefore.append (.keep x hr), hs⟩

/-- what is in neither is not in the noisy list -/
theorem Sprinkled.not_mem {x : α} {base raw : List α} (h : Sprinkled noise base raw) (hbase : x ∉ base)
    (hnoise : ∀ p, noise p → x ∉ p) : x ∉ raw := by
  induction h with
  | nil => exact List.not_mem_nil
  | keep y _ ih =>
    rw [List.mem_cons, not_or] at hbase ⊢
    exact ⟨hbase.1, ih hbase.2⟩
  | piece hp _ ih => exact List.mem_append.not.2 (not_or.2 ⟨hnoise _ hp, ih hbase⟩)

/-- **Cleaning.** A function that keeps the elements and drops a piece, whatever follows, undoes the noise. -/
theorem Sprinkled.cleaned {f : List α → List α} {base raw : List α} (h : Sprinkled noise base raw)
    (hkeep : ∀ x ∈ base, ∀ rest, f (x :: rest) = x :: f rest)
    (hdrop : ∀ p, noise p → ∀ rest, f (p ++ rest) = f rest) (rest : List α) : f (raw ++ rest) = base ++ f rest := by
  induction h with
  | nil => rfl
  | keep x _ ih =>
    rw [List.cons_append, hkeep x List.mem_cons_self, ih fun y hy => hkeep y (List.mem_cons_of_mem x hy)]
    rfl
  | piece hp _ ih => rw [List.append_assoc, hdrop _ hp, ih hkeep]

end DrtmTest.Noise
