/-
The warmed firmware in the cache (`warmed_firmware` of `drtmtest/dasharo.py`, with the copy that `QemuVm.__exit__` keeps for
`save_firmware_to`), reached from any number of threads, in sessions one after another that may be killed at any moment.

A thread makes one call a step. The guest writes to its own copy of the firmware until QEMU is down; what is kept is kept
after that, at a clean exit only. A kill ends every thread at once and leaves the files.

- `inside`: the places a thread has the lock at.
- `Holds`: what the thread with the lock relies on. `step_inv`: every step keeps it.
- `warmed_complete`: what stands under the final name is the whole copy of a boot that ended clean, at every moment, and
  stays what it is; no thread boots while it stands there, and no two at once.
-/
import DrtmTest.Cache

namespace DrtmTest.WarmFirmware

open DrtmTest.Cache DrtmTest.Matrix

/-! ## The threads -/

/-- where the warmed firmware is kept -/
def warmPath (asset : Asset) : Path := ⟨asset.sha256, ".warm"⟩

def scratch (asset : Asset) : Path := (warmPath asset).withSuffix ".warming"

theorem warm_ne_scratch (asset : Asset) : warmPath asset ≠ scratch asset := by simp [warmPath, scratch, Path.withSuffix]

/-- the call a thread makes next -/
inductive Pc where
  /-- before `_warm_lock` -/
  | waiting
  | pathExists
  /-- in the `with` block, with what its copy of the firmware holds -/
  | booting (flash : Bytes)
  /-- QEMU is down: `shutil.copy` of its copy -/
  | openScratch (flash : Bytes)
  | copying (fd : ℕ) (left : Bytes)
  | replace
  | returned
  | raised

inductive Act where
  /-- the next call done -/
  | go
  /-- the guest writes to its flash -/
  | flash (bytes : Bytes)
  /-- up to `n` bytes copied -/
  | piece (n : ℕ)
  /-- the boot fails, or the call raises -/
  | fail

structure State where
  files : Files Path
  pc : ℕ → Pc
  lock : Option ℕ
  /-- the copies that clean boots left, in order -/
  clean : List Bytes

def start : State := ⟨Files.empty, fun _ => .waiting, none, []⟩

/-- a thread gets on, with the lock or without it -/
def State.goes (s : State) (t : ℕ) (pc : Pc) (lock : Option ℕ) : State :=
  { s with pc := Function.update s.pc t pc, lock := lock }

/-- one step of thread `t`, whose boots start from a copy of `firmware`; an act that does not fit the call does nothing -/
def advance (asset : Asset) (firmware : Bytes) (s : State) (t : ℕ) (act : Act) : State :=
  match s.pc t, act with
  | .waiting, .go => if s.lock = none then s.goes t .pathExists (some t) else s
  | .pathExists, .go =>
    if s.files.pathExists (warmPath asset) then s.goes t .returned none else s.goes t (.booting firmware) s.lock
  | .booting _, .flash bytes => s.goes t (.booting bytes) s.lock
  | .booting flash, .go => { s.goes t (.openScratch flash) s.lock with clean := s.clean ++ [flash] }
  | .openScratch flash, .go =>
    { s.goes t (.copying (s.files.openWrite (scratch asset)).2 flash) s.lock with
      files := (s.files.openWrite (scratch asset)).1 }
  | .copying fd left, .piece n => { s.goes t (.copying fd (left.drop n)) s.lock with files := s.files.write fd (left.take n) }
  | .copying _ [], .go => s.goes t .replace s.lock
  | .replace, .go =>
    match s.files.rename (scratch asset) (warmPath asset) with
    | none => s.goes t .raised none
    | some files => { s.goes t .returned none with files := files }
  | .booting _, .fail | .openScratch _, .fail | .copying _ _, .fail | .replace, .fail => s.goes t .raised none
  | _, _ => s

inductive Move where
  | thread (t : ℕ) (act : Act)
  /-- the session is killed, and the next one begins -/
  | kill

def step (asset : Asset) (firmware : Bytes) (s : State) : Move → State
  | .thread t act => advance asset firmware s t act
  | .kill => { s with pc := fun _ => .waiting, lock := none }

def after (asset : Asset) (firmware : Bytes) (s : State) (moves : List Move) : State :=
  moves.foldl (step asset firmware) s

/-! ## The invariant -/

/-- the thread has the lock -/
def inside : Pc → Bool
  | .pathExists | .booting _ | .openScratch _ | .copying _ _ | .replace => true
  | _ => false

/-- it has found no warmed firmware, and is making one -/
def making : Pc → Bool
  | .booting _ | .openScratch _ | .copying _ _ | .replace => true
  | _ => false

variable {asset : Asset} {firmware : Bytes}

/-- what the thread with the lock relies on -/
def Holds (asset : Asset) (s : State) : Pc → Prop
  | .openScratch flash => flash ∈ s.clean
  | .copying fd left => s.files.names (scratch asset) = some fd ∧ s.files.content fd ++ left ∈ s.clean
  | .replace => ∃ fd, s.files.names (scratch asset) = some fd ∧ s.files.content fd ∈ s.clean
  | _ => True

structure Inv (asset : Asset) (s : State) : Prop where
  lock : ∀ t, inside (s.pc t) = true ↔ s.lock = some t
  missing : ∀ t, making (s.pc t) = true → s.files.names (warmPath asset) = none
  holds : ∀ t, Holds asset s (s.pc t)
  warm : ∀ i, s.files.names (warmPath asset) = some i → s.files.content i ∈ s.clean
  returned : ∀ t, s.pc t = .returned → s.files.pathExists (warmPath asset) = true

theorem start_inv : Inv asset start where
  lock t := ⟨(fun h => by cases h), (fun h => by cases h)⟩
  missing t h := by cases h
  holds t := trivial
  warm i h := by cases h
  returned t h := by cases h

theorem inside_of_making {pc : Pc} (h : making pc = true) : inside pc = true := by
  cases pc <;> first | rfl | cases h

theorem holds_outside {s : State} {pc : Pc} (h : inside pc = false) : Holds asset s pc := by
  cases pc with
  | waiting | returned | raised => trivial
  | pathExists | booting _ | openScratch _ | copying _ _ | replace => cases h

variable {s : State} {t : ℕ}

theorem Inv.locked (h : Inv asset s) (hin : inside (s.pc t) = true) : s.lock = some t := (h.lock t).1 hin

/-- a step of a thread that has the lock or takes it -/
theorem Inv.goes (h : Inv asset s) (hfree : s.lock = none ∨ s.lock = some t) {pc : Pc} {lock : Option ℕ}
    {files : Files Path} {clean : List Bytes} (hlock : lock = if inside pc = true then some t else none)
    (hholds : Holds asset ⟨files, Function.update s.pc t pc, lock, clean⟩ pc)
    (hmissing : making pc = true → files.names (warmPath asset) = none)
    (hwarm : ∀ i, files.names (warmPath asset) = some i → files.content i ∈ clean)
    (hstays : s.files.pathExists (warmPath asset) = true → files.pathExists (warmPath asset) = true)
    (hreturned : pc = .returned → files.pathExists (warmPath asset) = true) :
    Inv asset ⟨files, Function.update s.pc t pc, lock, clean⟩ := by
  have hself : Function.update s.pc t pc t = pc := Function.update_self _ _ _
  have hother {other : ℕ} (hne : other ≠ t) : Function.update s.pc t pc other = s.pc other := Function.update_of_ne hne _ _
  -- no other thread has the lock
  have houtside {other : ℕ} (hne : other ≠ t) : inside (s.pc other) = false := by
    refine Bool.eq_false_iff.2 fun hin => ?_
    have hlocked := h.locked hin
    rcases hfree with hnone | hsome
    · rw [hnone] at hlocked
      cases hlocked
    · rw [hsome] at hlocked
      exact hne (Option.some.inj hlocked).symm
  constructor
  case warm => exact hwarm
  all_goals intro other
  all_goals by_cases hne : other = t
  · simp only [hne, hself, hlock]
    split_ifs with hin <;> simp [hin]
  · simp only [hother hne, houtside hne, hlock]
    split_ifs <;> simp [Ne.symm hne]
  · simp only [hne, hself]
    exact hmissing
  · simp only [hother hne]
    intro hmaking
    have hin := houtside hne
    rw [inside_of_making hmaking] at hin
    cases hin
  · simp only [hne, hself]
    exact hholds
  · simp only [hother hne]
    exact holds_outside (houtside hne)
  · simp only [hne, hself]
    exact hreturned
  · simp only [hother hne]
    exact fun hpc => hstays (h.returned other hpc)

/-- the thread gives the lock back and gets nothing -/
theorem Inv.raises (h : Inv asset s) (hin : inside (s.pc t) = true) : Inv asset (s.goes t .raised none) :=
  h.goes (.inr (h.locked hin)) rfl trivial (fun hmaking => by cases hmaking) h.warm id (fun hpc => by cases hpc)

/-- a step of the thread that makes the warmed firmware, up to the rename -/
theorem Inv.makes (h : Inv asset s) (hmaking : making (s.pc t) = true) {pc : Pc} {files : Files Path} {clean : List Bytes}
    (hin : inside pc = true) (hnames : files.names (warmPath asset) = s.files.names (warmPath asset))
    (hholds : Holds asset ⟨files, Function.update s.pc t pc, s.lock, clean⟩ pc) :
    Inv asset ⟨files, Function.update s.pc t pc, s.lock, clean⟩ := by
  have hlocked := h.locked (inside_of_making hmaking)
  have hnone : files.names (warmPath asset) = none := hnames.trans (h.missing t hmaking)
  refine h.goes (.inr hlocked) (by rw [if_pos hin, hlocked]) hholds (fun _ => hnone) (fun i hi => ?_) (fun hexists => ?_)
    (fun hpc => ?_)
  · rw [hnone] at hi
    cases hi
  · rwa [Files.pathExists, hnames]
  · rw [hpc] at hin
    cases hin

/-- what is left to copy, with what is copied, is what the boot left -/
theorem copying_piece {files : Files Path} {fd : ℕ} (left : Bytes) (n : ℕ) :
    (files.write fd (left.take n)).content fd ++ left.drop n = files.content fd ++ left := by
  have hcontent : (files.write fd (left.take n)).content fd = files.content fd ++ left.take n := Function.update_self _ _ _
  rw [hcontent, List.append_assoc, List.take_append_drop]

theorem replace_inv (h : Inv asset s) (hpc : s.pc t = .replace) {files : Files Path}
    (hrename : s.files.rename (scratch asset) (warmPath asset) = some files) :
    Inv asset ⟨files, Function.update s.pc t .returned, none, s.clean⟩ := by
  obtain ⟨i, hscratch, hnames, hcontent, -⟩ := Files.rename_eq hrename
  obtain ⟨fd, hfd, hclean⟩ : ∃ fd, s.files.names (scratch asset) = some fd ∧ s.files.content fd ∈ s.clean := by
    have hholds := h.holds t
    rwa [hpc] at hholds
  obtain rfl : fd = i := Option.some.inj (hfd.symm.trans hscratch)
  have hwarm : files.names (warmPath asset) = some fd := by rw [hnames, Function.update_self]
  have hexists : files.pathExists (warmPath asset) = true := by rw [Files.pathExists, hwarm]; rfl
  refine h.goes (.inr (h.locked (by rw [hpc]; rfl))) rfl trivial (fun hmaking => by cases hmaking) (fun j hj => ?_)
    (fun _ => hexists) (fun _ => hexists)
  rw [hwarm] at hj
  rw [← Option.some.inj hj, hcontent]
  exact hclean

theorem advance_inv (h : Inv asset s) (firmware : Bytes) (t : ℕ) (act : Act) :
    Inv asset (advance asset firmware s t act) := by
  have hholds := h.holds t
  unfold advance
  split
  · split_ifs with hfree
    · exact h.goes (.inl hfree) rfl trivial (fun hmaking => by cases hmaking) h.warm id (fun hpc => by cases hpc)
    · exact h
  · rename_i hpc
    have hlocked : s.lock = some t := h.locked (by rw [hpc]; rfl)
    split_ifs with hexists
    · exact h.goes (.inr hlocked) rfl trivial (fun hmaking => by cases hmaking) h.warm id (fun _ => hexists)
    · exact h.goes (.inr hlocked) hlocked trivial (fun _ => Option.not_isSome_iff_eq_none.1 hexists) h.warm id
        (fun hpc => by cases hpc)
  · rename_i hpc
    exact h.makes (by rw [hpc]; rfl) rfl rfl trivial
  · rename_i flash hpc
    exact h.makes (by rw [hpc]; rfl) rfl rfl (List.mem_append_right _ List.mem_cons_self)
  · rename_i flash hpc
    rw [hpc] at hholds
    refine h.makes (by rw [hpc]; rfl) rfl ?_ ⟨?_, ?_⟩
    · rw [Files.openWrite_names, Function.update_of_ne (warm_ne_scratch asset)]
    · rw [Files.openWrite_names, Function.update_self]
    · rw [Files.openWrite_content, Function.update_self]
      exact hholds
  · rename_i fd left n hpc
    rw [hpc] at hholds
    refine h.makes (by rw [hpc]; rfl) rfl rfl ⟨hholds.1, ?_⟩
    rw [copying_piece]
    exact hholds.2
  · rename_i fd hpc
    rw [hpc, Holds, List.append_nil] at hholds
    exact h.makes (by rw [hpc]; rfl) rfl rfl ⟨fd, hholds⟩
  · rename_i hpc
    split
    · exact h.raises (by rw [hpc]; rfl)
    · rename_i files hrename
      exact replace_inv h hpc hrename
  iterate 4
    · rename_i hpc
      exact h.raises (by rw [hpc]; rfl)
  · exact h

theorem kill_inv (h : Inv asset s) : Inv asset { s with pc := fun _ => .waiting, lock := none } where
  lock t := ⟨(fun hin => by cases hin), (fun hlock => by cases hlock)⟩
  missing t hmaking := by cases hmaking
  holds t := trivial
  warm := h.warm
  returned t hpc := by cases hpc

/-- Every step keeps the invariant. -/
theorem step_inv (h : Inv asset s) (firmware : Bytes) (move : Move) : Inv asset (step asset firmware s move) := by
  cases move with
  | thread t act => exact advance_inv h firmware t act
  | kill => exact kill_inv h

theorem after_inv (h : Inv asset s) (firmware : Bytes) (moves : List Move) : Inv asset (after asset firmware s moves) := by
  induction moves generalizing s with
  | nil => exact h
  | cons move moves ih => exact ih (step_inv h firmware move)

/-! ## What stays -/

/-- once there is a warmed firmware, no step of any thread touches the files -/
theorem advance_files (h : Inv asset s) (hwarm : s.files.pathExists (warmPath asset) = true) (firmware : Bytes) (t : ℕ)
    (act : Act) : (advance asset firmware s t act).files = s.files := by
  have hno : making (s.pc t) = false := by
    refine Bool.eq_false_iff.2 fun hmaking => ?_
    rw [Files.pathExists, h.missing t hmaking] at hwarm
    cases hwarm
  unfold advance
  split
  · split_ifs
    · rfl
    · rfl
  · split_ifs
    rfl
  all_goals rename_i hpc
  all_goals first
    | rfl
    | rw [hpc] at hno
      cases hno

theorem after_files (h : Inv asset s) (hwarm : s.files.pathExists (warmPath asset) = true) (firmware : Bytes)
    (moves : List Move) : (after asset firmware s moves).files = s.files := by
  induction moves generalizing s with
  | nil => rfl
  | cons move moves ih =>
    have hsame : (step asset firmware s move).files = s.files := by
      cases move with
      | thread t act => exact advance_files h hwarm firmware t act
      | kill => rfl
    have hrest := ih (step_inv h firmware move) (by rw [hsame]; exact hwarm)
    exact hrest.trans hsame

/-- what holds of the cache and the threads at any moment -/
structure Complete (asset : Asset) (s : State) : Prop where
  /-- the warmed firmware is all of what a clean boot left -/
  warm : ∀ i, s.files.names (warmPath asset) = some i → s.files.content i ∈ s.clean
  /-- one thread at a time makes it, while there is none -/
  alone : ∀ t u, making (s.pc t) = true → making (s.pc u) = true → t = u
  missing : ∀ t, making (s.pc t) = true → s.files.names (warmPath asset) = none
  returned : ∀ t, s.pc t = .returned → s.files.pathExists (warmPath asset) = true

theorem Inv.complete (h : Inv asset s) : Complete asset s where
  warm := h.warm
  alone t u ht hu := by
    have htlock := h.locked (inside_of_making ht)
    rw [h.locked (inside_of_making hu)] at htlock
    exact (Option.some.inj htlock).symm
  missing := h.missing
  returned := h.returned

/-- **The warmed firmware is a complete boot.** Whatever the order in which the threads go on, wherever boots and copies fail
and sessions are killed: what stands under the final name is all that a clean boot left, a thread that got it finds it there,
no two threads warm at once nor any beside a warmed firmware; and once it is there no thread and no later session changes a
file of the cache. -/
theorem warmed_complete (asset : Asset) (firmware : Bytes) (moves : List Move) :
    Complete asset (after asset firmware start moves) ∧
      ((after asset firmware start moves).files.pathExists (warmPath asset) = true → ∀ more,
        (after asset firmware (after asset firmware start moves) more).files = (after asset firmware start moves).files) := by
  have h : Inv asset (after asset firmware start moves) := after_inv start_inv firmware moves
  exact ⟨h.complete, fun hwarm more => after_files h hwarm firmware more⟩

/-- A session killed while it copies leaves no warmed firmware, and the next one makes it. -/
example :
    let copied : List Move := [.go, .go, .flash [7, 8], .go, .go, .piece 1].map (Move.thread 0)
    let s := after sample [7] start copied
    let t := after sample [7] s (.kill :: [.go, .go, .flash [9, 9], .go, .go, .piece 5, .go, .go].map (Move.thread 1))
    (s.files.pathExists (warmPath sample), (t.files.names (warmPath sample)).map t.files.content) =
      (false, some [9, 9]) := by
  decide +kernel

end DrtmTest.WarmFirmware
