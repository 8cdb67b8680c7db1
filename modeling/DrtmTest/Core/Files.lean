/-
A directory of names that point to inodes, and what the file-system calls do to it.

Opening a name for writing truncates the inode it points to or makes a new one; a write goes to the inode, whatever names
it by then; a rename moves an inode to another name at once.
- `openWrite_inode`, `openWrite_names`, `openWrite_content`: what opening a name for writing leaves.
- `rename_eq`: what a rename that succeeds leaves.
-/
import DrtmTest.Core.Bytes

namespace DrtmTest

/-- a directory; the inodes in use are below `fresh` -/
structure Files (Name : Type) where
  names : Name → Option ℕ
  content : ℕ → Bytes
  fresh : ℕ
  bound : ∀ name i, names name = some i → i < fresh

namespace Files

variable {Name : Type} [DecidableEq Name]

theorem bound_update {names : Name → Option ℕ} {fresh : ℕ} (h : ∀ name i, names name = some i → i < fresh)
    {target : Option ℕ} (htarget : ∀ i, target = some i → i < fresh) (name : Name) :
    ∀ other i, Function.update names name target other = some i → i < fresh := by
  intro other i hi
  by_cases hname : other = name
  · subst hname
    rw [Function.update_self] at hi
    exact htarget i hi
  · rw [Function.update_of_ne hname] at hi
    exact h other i hi

/-! ## The calls -/

def empty : Files Name := ⟨fun _ => none, fun _ => [], 0, by simp⟩

def pathExists (fs : Files Name) (name : Name) : Bool := (fs.names name).isSome

/-- opens a name for writing: its inode truncated, or a new one -/
def openWrite (fs : Files Name) (name : Name) : Files Name × ℕ :=
  match fs.names name with
  | some i => ({ fs with content := Function.update fs.content i [] }, i)
  | none =>
    ({ names := Function.update fs.names name (some fs.fresh)
       content := Function.update fs.content fs.fresh []
       fresh := fs.fresh + 1
       bound := bound_update (fun other i h => (fs.bound other i h).trans (Nat.lt_succ_self _)) (by simp) name },
      fs.fresh)

/-- appends to an open inode -/
def write (fs : Files Name) (i : ℕ) (piece : Bytes) : Files Name :=
  { fs with content := Function.update fs.content i (fs.content i ++ piece) }

/-- up to `n` bytes of an open inode, from a position on -/
def read (fs : Files Name) (i position n : ℕ) : Bytes := ((fs.content i).drop position).take n

def unlink (fs : Files Name) (name : Name) : Files Name :=
  { fs with
    names := Function.update fs.names name none
    bound := bound_update fs.bound (by simp) name }

/-- none where nothing has the old name -/
def rename (fs : Files Name) (old new : Name) : Option (Files Name) :=
  match h : fs.names old with
  | none => none
  | some i =>
    some
      { fs with
        names := Function.update (Function.update fs.names old none) new (some i)
        bound := bound_update (bound_update fs.bound (by simp) old) (by simpa using fs.bound old i h) new }

/-! ## What they leave -/

variable (fs : Files Name) (name : Name)

theorem openWrite_inode : fs.names name = some (fs.openWrite name).2 ∨ (fs.openWrite name).2 = fs.fresh := by
  unfold openWrite
  split
  · left
    assumption
  · right
    rfl

theorem openWrite_names : (fs.openWrite name).1.names = Function.update fs.names name (some (fs.openWrite name).2) := by
  unfold openWrite
  split
  · rename_i i hi
    rw [← hi, Function.update_eq_self]
  · rfl

theorem openWrite_content :
    (fs.openWrite name).1.content = Function.update fs.content (fs.openWrite name).2 [] := by
  unfold openWrite
  split <;> rfl

theorem le_openWrite_fresh : fs.fresh ≤ (fs.openWrite name).1.fresh := by
  unfold openWrite
  split
  · exact le_rfl
  · exact Nat.le_succ _

variable {fs name}

/-- an inode in use under no name, or under another, is not the one that opening a name makes or truncates -/
theorem ne_openWrite {i : ℕ} (hlt : i < fs.fresh) (hname : fs.names name ≠ some i) : i ≠ (fs.openWrite name).2 := by
  intro h
  rcases fs.openWrite_inode name with hinode | hinode
  · exact hname (h ▸ hinode)
  · omega

theorem rename_eq {fs' : Files Name} {old new : Name} (h : fs.rename old new = some fs') :
    ∃ i, fs.names old = some i ∧ fs'.names = Function.update (Function.update fs.names old none) new (some i) ∧
      fs'.content = fs.content ∧ fs'.fresh = fs.fresh := by
  unfold rename at h
  split at h
  · cases h
  · rename_i i hi
    cases h
    exact ⟨i, hi, rfl, rfl, rfl⟩

end Files

end DrtmTest
