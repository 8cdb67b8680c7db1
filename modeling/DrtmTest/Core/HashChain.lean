/-
A register extended by a hash: value := h(value || input), from a start value on.

`chain` is the value after a list of inputs and `hashed` what is hashed on the way. `chain_commits`: two chains of one
start that end at one value had the same inputs in the same order, or what they hashed holds a collision of `h`, or a
string that `h` maps to the start. No hypothesis on `h` but a fixed digest size: the break is exhibited, not assumed away.
-/
import Mathlib.Data.List.Induction
import Mathlib.Tactic

namespace DrtmTest.HashChain

variable {α : Type} (h : List α → List α)

/-- the value after the inputs -/
def chain (value : List α) (inputs : List (List α)) : List α := inputs.foldl (fun v d => h (v ++ d)) value

/-- the strings hashed on the way, in order -/
def hashed (value : List α) : List (List α) → List (List α)
  | [] => []
  | d :: ds => (value ++ d) :: hashed (h (value ++ d)) ds

/-- two different strings of one digest -/
def Collision (strings : List (List α)) : Prop := ∃ x ∈ strings, ∃ y ∈ strings, x ≠ y ∧ h x = h y

/-- a string whose digest is `value` -/
def Preimage (value : List α) (strings : List (List α)) : Prop := ∃ x ∈ strings, h x = value

@[simp] theorem chain_nil (value : List α) : chain h value [] = value := rfl

@[simp] theorem chain_cons (value d : List α) (ds : List (List α)) :
    chain h value (d :: ds) = chain h (h (value ++ d)) ds := rfl

theorem chain_append (value : List α) (ds es : List (List α)) :
    chain h value (ds ++ es) = chain h (chain h value ds) es := List.foldl_append

theorem hashed_append (value : List α) (ds es : List (List α)) :
    hashed h value (ds ++ es) = hashed h value ds ++ hashed h (chain h value ds) es := by
  induction ds generalizing value with
  | nil => rfl
  | cons d ds ih => simp [hashed, ih]

variable {h}

/-- a chain of any inputs ends in a string that was hashed -/
theorem chain_last (h : List α → List α) (value : List α) {ds : List (List α)} (hne : ds ≠ []) :
    ∃ es d, ds = es ++ [d] ∧ chain h value es ++ d ∈ hashed h value ds ∧
      chain h value ds = h (chain h value es ++ d) := by
  obtain ⟨es, d, rfl⟩ := (List.eq_nil_or_concat' ds).resolve_left hne
  exact ⟨es, d, rfl, by simp [hashed_append, hashed], by simp [chain_append]⟩

theorem Collision.mono {s t : List (List α)} (hc : Collision h s) (hst : s ⊆ t) : Collision h t := by
  obtain ⟨x, hx, y, hy, hxy⟩ := hc
  exact ⟨x, hst hx, y, hst hy, hxy⟩

theorem Preimage.mono {value : List α} {s t : List (List α)} (hp : Preimage h value s) (hst : s ⊆ t) :
    Preimage h value t := by
  obtain ⟨x, hx, hxv⟩ := hp
  exact ⟨x, hst hx, hxv⟩

theorem chain_length {size : ℕ} (hsize : ∀ x, (h x).length = size) {value : List α} (hv : value.length = size)
    (ds : List (List α)) : (chain h value ds).length = size := by
  induction ds generalizing value with
  | nil => exact hv
  | cons d ds ih => exact ih (hsize _)

/-- **A chain commits to its inputs.** Peeled from the end: where the last strings hashed differ they collide, where they
are equal the last inputs are, as the values before them have one length. -/
theorem chain_commits {size : ℕ} (hsize : ∀ x, (h x).length = size) {value : List α} (hv : value.length = size)
    (ds es : List (List α)) (heq : chain h value ds = chain h value es) :
    ds = es ∨ Collision h (hashed h value ds ++ hashed h value es) ∨
      Preimage h value (hashed h value ds ++ hashed h value es) := by
  induction ds using List.reverseRecOn generalizing es with
  | nil =>
    rcases List.eq_nil_or_concat' es with hnil | ⟨es, e, hes⟩
    · exact Or.inl hnil.symm
    · subst hes
      rw [chain_append] at heq
      exact Or.inr (Or.inr ⟨chain h value es ++ e, by simp [hashed_append, hashed], heq.symm⟩)
  | append_singleton ds d ih =>
    rcases List.eq_nil_or_concat' es with hnil | ⟨es, e, hes⟩
    · subst hnil
      rw [chain_append] at heq
      exact Or.inr (Or.inr ⟨chain h value ds ++ d, by simp [hashed_append, hashed], heq⟩)
    · subst hes
      rw [chain_append, chain_append] at heq
      by_cases hlast : chain h value ds ++ d = chain h value es ++ e
      · have hlen : (chain h value ds).length = (chain h value es).length := by
          rw [chain_length hsize hv, chain_length hsize hv]
        obtain ⟨hchain, hde⟩ := List.append_inj hlast hlen
        have hsub : hashed h value ds ++ hashed h value es ⊆
            hashed h value (ds ++ [d]) ++ hashed h value (es ++ [e]) := by
          intro x hx
          simp only [hashed_append, List.mem_append] at hx ⊢
          tauto
        rcases ih es hchain with hdses | hcol | hpre
        · exact Or.inl (by rw [hdses, hde])
        · exact Or.inr (Or.inl (hcol.mono hsub))
        · exact Or.inr (Or.inr (hpre.mono hsub))
      · refine Or.inr (Or.inl ⟨chain h value ds ++ d, ?_, chain h value es ++ e, ?_, hlast, heq⟩)
        · simp [hashed_append, hashed]
        · simp [hashed_append, hashed]

end DrtmTest.HashChain
