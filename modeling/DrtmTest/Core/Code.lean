/-
Code that changes a state and may raise.

What it changed before it raised stays changed. `withStatement` is Python's: its exit runs where its enter returned.
- `Keeps P m`: however `m` ends, it ends in a state with `P` if it starts in one.
- `Does m Q g`: exactly if `Q`, `m` raises nothing, and then changes the state by `g`.
Both have one rule for each way of putting code together.
-/
import Mathlib.Tactic

namespace DrtmTest

/-- the outcome, none where the code raises, and the state it leaves -/
def Code (σ α : Type) : Type := σ → Option α × σ

namespace Code

variable {σ α β : Type}

instance : Monad (Code σ) where
  pure a := fun s => (some a, s)
  bind m f := fun s =>
    match m s with
    | (some a, s) => f a s
    | (none, s) => (none, s)

def raise : Code σ α := fun s => (none, s)

def change (f : σ → σ) : Code σ Unit := fun s => (some (), f s)

def read (f : σ → α) : Code σ α := fun s => (some (f s), s)

def when (c : Bool) (m : Code σ Unit) : Code σ Unit := if c then m else pure ()

/-- for each element in turn -/
def each (m : α → Code σ Unit) : List α → Code σ Unit
  | [] => pure ()
  | x :: xs => do
    m x
    each m xs

/-- whether the code raises, which is caught -/
def raises (m : Code σ Unit) : Code σ Bool := fun s => (some (m s).1.isNone, (m s).2)

/-- a `with` statement; the exit is told whether the body raised, and passes that on -/
def withStatement (enter body : Code σ Unit) (exit : Bool → Code σ Unit) : Code σ Unit := do
  enter
  let raised ← raises body
  exit raised
  when raised raise

/-! ## One piece of code after another -/

theorem bind_some {m : Code σ α} {f : α → Code σ β} {s s' : σ} {a : α} (h : m s = (some a, s')) :
    (m >>= f) s = f a s' := by
  show (match m s with | (some a, s) => f a s | (none, s) => (none, s)) = _
  rw [h]

theorem bind_none {m : Code σ α} {f : α → Code σ β} {s s' : σ} (h : m s = (none, s')) :
    (m >>= f) s = (none, s') := by
  show (match m s with | (some a, s) => f a s | (none, s) => (none, s)) = _
  rw [h]

@[simp] theorem pure_apply (a : α) (s : σ) : (pure a : Code σ α) s = (some a, s) := rfl

@[simp] theorem change_bind (f : σ → σ) (g : Unit → Code σ β) (s : σ) : (change f >>= g) s = g () (f s) := rfl

@[simp] theorem read_bind (f : σ → α) (g : α → Code σ β) (s : σ) : (read f >>= g) s = g (f s) s := rfl

@[simp] theorem pure_bind_apply (a : α) (g : α → Code σ β) (s : σ) : ((pure a : Code σ α) >>= g) s = g a s := rfl

@[simp] theorem bind_assoc {γ : Type} (m : Code σ α) (f : α → Code σ β) (g : β → Code σ γ) :
    (m >>= f) >>= g = m >>= fun a => f a >>= g := by
  funext s
  rcases h : m s with ⟨_ | a, s'⟩
  · rw [bind_none h, bind_none (bind_none h)]
  · rw [bind_some h]
    show (match (m >>= f) s with | (some a, s) => g a s | (none, s) => (none, s)) = _
    rw [bind_some h]
    rfl

/-- an exit that never runs -/
theorem withStatement_raised {enter body : Code σ Unit} {exit : Bool → Code σ Unit} {s s' : σ}
    (h : enter s = (none, s')) : withStatement enter body exit s = (none, s') := bind_none h

theorem withStatement_entered {enter body : Code σ Unit} {exit : Bool → Code σ Unit} {s s' : σ}
    (h : enter s = (some (), s')) :
    (withStatement enter body exit s).2 = (exit (body s').1.isNone (body s').2).2 := by
  unfold withStatement
  rw [bind_some h, bind_some (m := raises body) rfl]
  rcases hexit : exit (body s').1.isNone (body s').2 with ⟨_ | _, s''⟩
  · rw [bind_none hexit]
  · rw [bind_some hexit]
    cases (body s').1.isNone <;> rfl

/-! ## What is kept -/

def Keeps (P : σ → Prop) (m : Code σ α) : Prop := ∀ s, P s → P (m s).2

variable {P : σ → Prop}

theorem keeps_pure (a : α) : Keeps P (pure a : Code σ α) := fun _ h => h

theorem keeps_raise : Keeps P (raise : Code σ α) := fun _ h => h

theorem keeps_change {f : σ → σ} (h : ∀ s, P s → P (f s)) : Keeps P (change f) := h

theorem keeps_bind {m : Code σ α} {f : α → Code σ β} (hm : Keeps P m) (hf : ∀ a, Keeps P (f a)) :
    Keeps P (m >>= f) := by
  intro s hs
  have hs' := hm s hs
  rcases h : m s with ⟨_ | a, s'⟩ <;> rw [h] at hs'
  · rw [bind_none h]
    exact hs'
  · rw [bind_some h]
    exact hf a s' hs'

theorem keeps_when {c : Bool} {m : Code σ Unit} (hm : Keeps P m) : Keeps P (when c m) := by
  cases c
  · exact keeps_pure ()
  · exact hm

theorem keeps_each {m : α → Code σ Unit} (hm : ∀ x, Keeps P (m x)) (xs : List α) : Keeps P (each m xs) := by
  induction xs with
  | nil => exact keeps_pure ()
  | cons x xs ih => exact keeps_bind (hm x) fun _ => ih

theorem keeps_raises {m : Code σ Unit} (hm : Keeps P m) : Keeps P (raises m) := hm

theorem keeps_withStatement {enter body : Code σ Unit} {exit : Bool → Code σ Unit} (henter : Keeps P enter)
    (hbody : Keeps P body) (hexit : ∀ raised, Keeps P (exit raised)) : Keeps P (withStatement enter body exit) :=
  keeps_bind henter fun _ => keeps_bind (keeps_raises hbody) fun raised =>
    keeps_bind (hexit raised) fun _ => keeps_when keeps_raise

/-! ## What it does -/

/-- raises nothing exactly if `Q`, and then changes the state by `g` -/
structure Does (m : Code σ Unit) (Q : Prop) (g : σ → σ) : Prop where
  returns : Q → ∀ s, m s = (some (), g s)
  raises : ¬ Q → ∀ s, (m s).1 = none

variable {Q R : Prop} {g h : σ → σ}

theorem Does.congr {m : Code σ Unit} (hm : Does m Q g) (hQR : Q ↔ R) (hgh : ∀ s, g s = h s) : Does m R h where
  returns hr s := by rw [hm.returns (hQR.2 hr), hgh]
  raises hr := hm.raises fun hq => hr (hQR.1 hq)

theorem Does.never {m : Code σ Unit} (hm : Does m Q g) (hQ : ¬ Q) : Does m False h :=
  ⟨False.elim, fun _ => hm.raises hQ⟩

theorem Does.raised {m : Code σ Unit} (hm : Does m Q g) (hQ : ¬ Q) (hkeeps : Keeps P m) {s : σ} (hs : P s) :
    ∃ s', m s = (none, s') ∧ P s' :=
  ⟨(m s).2, Prod.ext (hm.raises hQ s) rfl, hkeeps s hs⟩

theorem does_pure : Does (pure () : Code σ Unit) True id := ⟨fun _ _ => rfl, fun h => absurd trivial h⟩

theorem does_raise : Does (raise : Code σ Unit) False id := ⟨False.elim, fun _ _ => rfl⟩

theorem does_change (f : σ → σ) : Does (change f) True f := ⟨fun _ _ => rfl, fun h => absurd trivial h⟩

theorem does_bind {m : Code σ Unit} {f : Unit → Code σ Unit} (hm : Does m Q g) (hf : Does (f ()) R h) :
    Does (m >>= f) (Q ∧ R) (h ∘ g) where
  returns := by
    intro hqr s
    rw [bind_some (hm.returns hqr.1 s)]
    exact hf.returns hqr.2 (g s)
  raises := by
    intro hqr s
    by_cases hq : Q
    · rw [bind_some (hm.returns hq s)]
      exact hf.raises (fun hr => hqr ⟨hq, hr⟩) (g s)
    · have hnone := hm.raises hq s
      rcases hs : m s with ⟨_ | _, s'⟩ <;> rw [hs] at hnone
      · rw [bind_none hs]
      · cases hnone

theorem does_when {c : Bool} {m : Code σ Unit} (hm : Does m Q g) :
    Does (when c m) (c = true → Q) fun s => if c then g s else s := by
  cases c
  · exact does_pure.congr (by simp) fun _ => rfl
  · exact hm.congr (by simp) fun _ => rfl

end Code

end DrtmTest
