/-
A pool of workers that runs the jobs of one queue.

A free worker takes the oldest job. A shutdown that cancels empties the queue, and what runs then still ends. A job is
submitted once. The structure carries what holds of every pool: a job is begun, waiting or cancelled and only one of them,
what was begun runs or has ended, and no more run than there are workers.

- `begun_prefix`: what was begun is where the submitted jobs start, in their order.
- `Later`: what every call keeps, a result among it.
- `act_moves`, `length_le_moves`: every step of a worker is one of at most two a job.
- `exists_enabled`: while a job waits or runs, some worker can make a step.
-/
import DrtmTest.Core.Dict
import Mathlib.Data.List.Perm.Lattice

namespace DrtmTest

structure Pool (J R : Type) where
  workers : ℕ
  /-- the jobs begun, in order -/
  begun : List J
  queue : List J
  cancelled : List J
  running : List J
  /-- the jobs that ended and their results, in order -/
  finished : List (J × R)
  shut : Bool
  nodup : (begun ++ queue ++ cancelled).Nodup
  begun_perm : begun.Perm (running ++ finished.map Prod.fst)
  bound : running.length ≤ workers
  shut_queue : shut = true → queue = []
  open_cancelled : shut = false → cancelled = []

namespace Pool

variable {J R : Type}

/-- all jobs, in the order of their submission -/
def submitted (p : Pool J R) : List J := p.begun ++ p.queue ++ p.cancelled

def new (workers : ℕ) : Pool J R where
  workers := workers
  begun := []
  queue := []
  cancelled := []
  running := []
  finished := []
  shut := false
  nodup := List.nodup_nil
  begun_perm := List.Perm.refl _
  bound := Nat.zero_le _
  shut_queue _ := rfl
  open_cancelled _ := rfl

/-! ## The calls -/

/-- a free worker takes the oldest job -/
def beginNext (p : Pool J R) : Pool J R :=
  match h : p.queue with
  | [] => p
  | j :: queue =>
    if hfree : p.running.length < p.workers then
      { p with
        begun := p.begun ++ [j]
        queue := queue
        running := p.running ++ [j]
        nodup := by
          have hnodup := p.nodup
          rw [h] at hnodup
          rwa [List.append_assoc p.begun [j], List.singleton_append]
        begun_perm := by
          refine (p.begun_perm.append_right [j]).trans ?_
          rw [List.append_assoc, List.append_assoc]
          exact List.perm_append_comm.append_left _
        bound := by
          rw [List.length_append]
          exact hfree
        shut_queue := fun hshut => by
          have hnil := p.shut_queue hshut
          rw [h] at hnil
          cases hnil }
    else p

variable [DecidableEq J]

/-- one job more, unless it is there already or the pool is shut -/
def submit (p : Pool J R) (j : J) : Pool J R :=
  if h : j ∉ p.submitted ∧ p.shut = false then
    { p with
      queue := p.queue ++ [j]
      nodup := by
        have hopen := p.open_cancelled h.2
        have hnodup := p.nodup
        have hnew := h.1
        rw [submitted] at hnew
        rw [hopen, List.append_nil] at hnodup hnew ⊢
        rw [← List.append_assoc, ← List.concat_eq_append]
        exact hnodup.concat hnew
      shut_queue := fun hshut => by
        rw [h.2] at hshut
        cases hshut }
  else p

/-- a running job ends -/
def finish (p : Pool J R) (j : J) (r : R) : Pool J R :=
  if h : j ∈ p.running then
    { p with
      running := p.running.erase j
      finished := p.finished ++ [(j, r)]
      begun_perm := by
        have htaken : (p.running ++ p.finished.map Prod.fst).Perm
            ([j] ++ (p.running.erase j ++ p.finished.map Prod.fst)) := (List.perm_cons_erase h).append_right _
        rw [List.map_append, ← List.append_assoc]
        exact (p.begun_perm.trans htaken).trans List.perm_append_comm
      bound := (List.erase_sublist.length_le).trans p.bound }
  else p

/-- `shutdown(cancel_futures=True)`, up to the wait -/
def shutdown (p : Pool J R) : Pool J R :=
  { p with
    queue := []
    cancelled := p.queue ++ p.cancelled
    shut := true
    nodup := by
      have hnodup := p.nodup
      rwa [List.append_nil, ← List.append_assoc]
    shut_queue := fun _ => rfl
    open_cancelled := fun h => by cases h }

/-! ## What holds of every pool -/

section Facts

omit [DecidableEq J]

/-- what was begun is where the submitted jobs start -/
theorem begun_prefix (p : Pool J R) : p.begun <+: p.submitted := by
  rw [submitted, List.append_assoc]
  exact List.prefix_append _ _

theorem begun_nodup (p : Pool J R) : p.begun.Nodup := p.nodup.sublist p.begun_prefix.sublist

theorem mem_begun {p : Pool J R} {j : J} : j ∈ p.begun ↔ j ∈ p.running ∨ j ∈ p.finished.map Prod.fst := by
  rw [p.begun_perm.mem_iff, List.mem_append]

theorem mem_submitted {p : Pool J R} {j : J} : j ∈ p.submitted ↔ j ∈ p.begun ∨ j ∈ p.queue ∨ j ∈ p.cancelled := by
  rw [submitted, List.mem_append, List.mem_append, or_assoc]

theorem running_nodup (p : Pool J R) : p.running.Nodup := (p.begun_perm.nodup_iff.1 p.begun_nodup).of_append_left

theorem finished_nodup (p : Pool J R) : (p.finished.map Prod.fst).Nodup :=
  (p.begun_perm.nodup_iff.1 p.begun_nodup).of_append_right

/-- nothing waits, or no worker is free, or the oldest job is taken -/
theorem beginNext_cases (p : Pool J R) :
    ((p.queue = [] ∨ p.workers ≤ p.running.length) ∧ p.beginNext = p) ∨
      ∃ j queue, p.queue = j :: queue ∧ p.running.length < p.workers ∧ p.beginNext.queue = queue ∧
        p.beginNext.begun = p.begun ++ [j] ∧ p.beginNext.running = p.running ++ [j] ∧
        p.beginNext.finished = p.finished ∧ p.beginNext.cancelled = p.cancelled ∧ p.beginNext.shut = p.shut ∧
        p.beginNext.workers = p.workers := by
  unfold beginNext
  split
  · rename_i h
    exact Or.inl ⟨Or.inl h, rfl⟩
  · rename_i j queue h
    split_ifs with hfree
    · exact Or.inr ⟨j, queue, h, hfree, rfl, rfl, rfl, rfl, rfl, rfl, rfl⟩
    · exact Or.inl ⟨Or.inr (not_lt.1 hfree), rfl⟩

end Facts

/-- the results, by job -/
def results (p : Pool J R) : Dict J R := ⟨p.finished, p.finished_nodup⟩

def result? (p : Pool J R) (j : J) : Option R := p.results.get? j

theorem result?_iff {p : Pool J R} {j : J} {r : R} : p.result? j = some r ↔ (j, r) ∈ p.finished := Dict.mem_entries.symm

/-! ## What a call leaves -/

/-- What is kept from one state of a pool to a later one: jobs are only added, nothing is un-begun, a result stays, and a
shut pool begins nothing more. -/
structure Later (p q : Pool J R) : Prop where
  workers : q.workers = p.workers
  submitted : p.submitted <+: q.submitted
  begun : p.begun <+: q.begun
  finished : p.finished <+: q.finished
  shut : p.shut = true → q.shut = true ∧ q.begun = p.begun

omit [DecidableEq J] in
theorem Later.refl (p : Pool J R) : Later p p :=
  ⟨rfl, List.prefix_rfl, List.prefix_rfl, List.prefix_rfl, fun h => ⟨h, rfl⟩⟩

omit [DecidableEq J] in
theorem Later.trans {p q r : Pool J R} (h : Later p q) (h' : Later q r) : Later p r where
  workers := h'.workers.trans h.workers
  submitted := h.submitted.trans h'.submitted
  begun := h.begun.trans h'.begun
  finished := h.finished.trans h'.finished
  shut hshut := by
    obtain ⟨hq, hbegun⟩ := h.shut hshut
    obtain ⟨hr, hbegun'⟩ := h'.shut hq
    exact ⟨hr, hbegun'.trans hbegun⟩

/-- A result stays. -/
theorem Later.result? {p q : Pool J R} (h : Later p q) {j : J} {r : R} (hr : p.result? j = some r) :
    q.result? j = some r :=
  result?_iff.2 (h.finished.subset (result?_iff.1 hr))

variable {p : Pool J R}

theorem submit_new {j : J} (h : j ∉ p.submitted) (hopen : p.shut = false) :
    (p.submit j).submitted = p.submitted ++ [j] ∧ (p.submit j).shut = false := by
  have hnil := p.open_cancelled hopen
  rw [submit, dif_pos ⟨h, hopen⟩]
  refine ⟨?_, hopen⟩
  simp only [submitted, hnil, List.append_nil, List.append_assoc]

theorem later_submit (p : Pool J R) (j : J) : Later p (p.submit j) := by
  by_cases h : j ∉ p.submitted ∧ p.shut = false
  · have hsubmitted := (submit_new h.1 h.2).1
    rw [submit, dif_pos h] at hsubmitted ⊢
    refine ⟨rfl, ?_, List.prefix_rfl, List.prefix_rfl, fun hshut => ⟨hshut, rfl⟩⟩
    rw [hsubmitted]
    exact List.prefix_append _ _
  · rw [submit, dif_neg h]
    exact Later.refl p

omit [DecidableEq J] in
theorem submitted_beginNext (p : Pool J R) : p.beginNext.submitted = p.submitted := by
  rcases p.beginNext_cases with ⟨-, h⟩ | ⟨j, queue, hq, -, hqueue, hbegun, -, -, hcancelled, -, -⟩
  · rw [h]
  · rw [submitted, submitted, hqueue, hbegun, hcancelled, hq, List.append_assoc p.begun, List.singleton_append]

omit [DecidableEq J] in
theorem later_beginNext (p : Pool J R) : Later p p.beginNext := by
  have hsubmitted := submitted_beginNext p
  rcases p.beginNext_cases with ⟨-, h⟩ | ⟨j, queue, hq, -, -, hbegun, -, hfinished, -, hshut, hworkers⟩
  · rw [h]
    exact Later.refl p
  · refine ⟨hworkers, hsubmitted ▸ List.prefix_rfl, ?_, hfinished ▸ List.prefix_rfl, fun h => ?_⟩
    · rw [hbegun]
      exact List.prefix_append _ _
    · -- a shut pool has nothing waiting
      rw [p.shut_queue h] at hq
      cases hq

theorem submitted_finish (p : Pool J R) (j : J) (r : R) : (p.finish j r).submitted = p.submitted := by
  unfold finish
  split_ifs <;> rfl

theorem later_finish (p : Pool J R) (j : J) (r : R) : Later p (p.finish j r) := by
  unfold finish
  split_ifs
  · exact ⟨rfl, List.prefix_rfl, List.prefix_rfl, List.prefix_append _ _, fun h => ⟨h, rfl⟩⟩
  · exact Later.refl p

omit [DecidableEq J] in
theorem submitted_shutdown (p : Pool J R) : p.shutdown.submitted = p.submitted := by
  simp only [submitted, shutdown, List.append_nil, List.append_assoc]

omit [DecidableEq J] in
theorem later_shutdown (p : Pool J R) : Later p p.shutdown :=
  ⟨rfl, submitted_shutdown p ▸ List.prefix_rfl, List.prefix_rfl, List.prefix_rfl, fun _ => ⟨rfl, rfl⟩⟩

/-! ## How long it goes on -/

/-- one step of a worker -/
inductive Act (J R : Type) where
  | begin
  | finish (j : J) (r : R)

def act (p : Pool J R) : Act J R → Pool J R
  | .begin => p.beginNext
  | .finish j r => p.finish j r

def Enabled (p : Pool J R) : Act J R → Prop
  | .begin => p.queue ≠ [] ∧ p.running.length < p.workers
  | .finish j _ => j ∈ p.running

/-- how many steps are left -/
def moves (p : Pool J R) : ℕ := 2 * p.queue.length + p.running.length

theorem later_act (p : Pool J R) (a : Act J R) : Later p (p.act a) := by
  cases a with
  | begin => exact later_beginNext p
  | finish j r => exact later_finish p j r

theorem act_submitted (p : Pool J R) (a : Act J R) : (p.act a).submitted = p.submitted := by
  cases a with
  | begin => exact submitted_beginNext p
  | finish j r => exact submitted_finish p j r

theorem act_shut (p : Pool J R) (a : Act J R) : (p.act a).shut = p.shut := by
  cases a with
  | begin =>
    rcases p.beginNext_cases with ⟨-, h⟩ | ⟨_, _, -, -, -, -, -, -, -, hshut, -⟩
    · rw [act, h]
    · exact hshut
  | finish j r =>
    rw [act, finish]
    split_ifs <;> rfl

/-- with nothing waiting or running no worker can do anything -/
theorem act_still (hqueue : p.queue = []) (hrunning : p.running = []) (a : Act J R) : (p.act a).running = [] := by
  cases a with
  | begin =>
    rcases p.beginNext_cases with ⟨-, h⟩ | ⟨_, _, hcons, -⟩
    · rw [act, h, hrunning]
    · rw [hqueue] at hcons
      cases hcons
  | finish j r =>
    rw [act, finish, dif_neg (by rw [hrunning]; exact List.not_mem_nil), hrunning]

theorem act_moves {a : Act J R} (h : p.Enabled a) : (p.act a).moves + 1 = p.moves := by
  cases a with
  | begin =>
    rcases p.beginNext_cases with ⟨hno, -⟩ | ⟨j, queue, hq, -, hqueue, -, hrunning, -⟩
    · rcases hno with hq | hle
      · exact absurd hq h.1
      · exact absurd h.2 (not_lt.2 hle)
    · simp only [act, moves, hqueue, hrunning, hq, List.length_append, List.length_cons, List.length_nil]
      omega
  | finish j r =>
    have hmem : j ∈ p.running := h
    have hpos : 0 < p.running.length := List.length_pos_of_mem hmem
    rw [act, finish, dif_pos hmem, moves, moves]
    simp only [List.length_erase_of_mem hmem]
    omega

/-- each step of the list is one the pool can make -/
def AllEnabled : Pool J R → List (Act J R) → Prop
  | _, [] => True
  | p, a :: acts => p.Enabled a ∧ AllEnabled (p.act a) acts

theorem length_le_moves {acts : List (Act J R)} (h : p.AllEnabled acts) : acts.length ≤ p.moves := by
  induction acts generalizing p with
  | nil => exact Nat.zero_le _
  | cons a acts ih =>
    have hmoves := act_moves h.1
    have hle := ih h.2
    rw [List.length_cons]
    omega

omit [DecidableEq J] in
/-- While a job waits or runs, some worker can make a step. -/
theorem exists_enabled [Nonempty R] (hworkers : 0 < p.workers) {j : J} (h : j ∈ p.queue ∨ j ∈ p.running) :
    ∃ a, p.Enabled a := by
  cases hrunning : p.running with
  | nil =>
    refine ⟨.begin, ?_, by rwa [hrunning]⟩
    rcases h with h | h
    · exact List.ne_nil_of_mem h
    · rw [hrunning] at h
      cases h
  | cons i running => exact ⟨.finish i (Classical.arbitrary R), by rw [Enabled, hrunning]; exact List.mem_cons_self⟩

end Pool

end DrtmTest
