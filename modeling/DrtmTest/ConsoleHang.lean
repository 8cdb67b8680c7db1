/-
When `expect` reports a hang: what its polls saw before it.

A `Look` is what one pass of the loop saw of the guest: the clock, whether the unread text is as long as at the look
before, and the running addresses where it asked for them. `looks` are those of a whole wait, up to its end. What a hang
is, is said of them alone, without the timers of the loop.
- `Watched`: the timers against the looks. `lastSeen` is behind every new byte, `sampled` behind every sample, and since
  `stuckSince` nothing arrived and every sample was the one kept.
- `checkSilence_watched`: a pass that notes the silence keeps it.
- `checkSilence_hung`: a pass that reports a hang saw one.
- `hung_only_silent`: so `GuestHung` is raised only where there is a hang, and never while the needle is unread.
-/
import DrtmTest.QemuVm

namespace DrtmTest.ConsoleHang

open DrtmTest.Find DrtmTest.Text DrtmTest.QemuVm

/-! ## What the polls saw -/

structure Look where
  now : Time
  /-- a new byte since the look before -/
  grew : Bool
  /-- `_running_addresses()`, where this pass asked for it -/
  sample : Option (Dict ℕ String)

/-- the running addresses, where the pass asks for them -/
def sampleOf (call : Call) (p : Poll) (buf : Bytes) (w : Wait) : Option (Dict ℕ String) :=
  if buf.length ≠ w.seen then none
  else if p.now - w.lastSeen ≥ call.idle then none
  else if p.now - w.lastSeen ≥ stuckAfter ∧ p.now - w.sampled ≥ stuckSample then some p.addresses
  else none

/-- the looks of a wait up to its end, `before` the length of the unread text at the look before -/
def looks (call : Call) : ℕ → Vm → Wait → List Poll → List Look
  | _, _, _, [] => []
  | before, vm, w, p :: ps =>
    let buf := (vm.receive p.received).unread
    ⟨p.now, buf.length ≠ before, sampleOf call p buf w⟩ ::
      match pass call vm w p with
      | (vm, .waiting w) => looks call buf.length vm w ps
      | _ => []

/-- no new byte for `span` seconds up to `now`, the call's start at the earliest -/
def Silent (ls : List Look) (started now span : Time) : Prop :=
  ∃ since, started ≤ since ∧ span ≤ now - since ∧ ∀ l ∈ ls, since < l.now → l.grew = false

/-- a sample was taken at a time -/
def SampledAt (ls : List Look) (time : Time) : Prop := ∃ l ∈ ls, l.now = time ∧ l.sample ≠ none

/-- nothing arrived for `span` seconds up to `now`, and every sample since was the same, of some CPU, the first at the
start of the span and the last at its end -/
def Spinning (ls : List Look) (started now span : Time) : Prop :=
  ∃ (since : Time) (stuck : Dict ℕ String), started ≤ since ∧ span ≤ now - since ∧ SampledAt ls since ∧
    SampledAt ls now ∧ ∀ l ∈ ls, since ≤ l.now →
      l.grew = false ∧ ∀ d, l.sample = some d → d.entries ≠ [] ∧ ∀ cpu, d.get? cpu = stuck.get? cpu

/-- a hang, as far as the looks tell -/
def Hung (ls : List Look) (started now idle : Time) : Prop :=
  Silent ls started now idle ∨ Silent ls started now stuckAfter ∧ Spinning ls started now stuckFor

/-! ## One sample against another -/

theorem sameItems_iff {d e : Dict ℕ String} : sameItems d e = true ↔ ∀ cpu, d.get? cpu = e.get? cpu := by
  have hsub : (d.entries.all fun x => e.get? x.1 = some x.2) = true ↔ d.entries ⊆ e.entries := by
    rw [List.all_eq_true]
    constructor
    · intro h x hx
      exact Dict.mem_entries.2 (of_decide_eq_true (h x hx))
    · intro h x hx
      exact decide_eq_true (Dict.mem_entries.1 (h hx))
  rw [sameItems, Bool.and_eq_true, decide_eq_true_eq, hsub]
  constructor
  · intro h cpu
    have hperm : d.entries.Perm e.entries :=
      (List.subperm_of_subset d.nodup.of_map h.2).perm_of_length_le h.1.ge
    apply Option.ext
    intro address
    rw [← Dict.mem_entries, ← Dict.mem_entries, hperm.mem_iff]
  · intro h
    have hmem (x : ℕ × String) : x ∈ d.entries ↔ x ∈ e.entries := by
      rw [Dict.mem_entries, Dict.mem_entries, h]
    have hperm := (List.perm_ext_iff_of_nodup d.nodup.of_map e.nodup.of_map).2 hmem
    exact ⟨hperm.length_eq, fun x hx => (hmem x).1 hx⟩

/-! ## The timers -/

/-- the timers of the loop against the looks so far, the last of them at `now` -/
structure Watched (started now : Time) (ls : List Look) (w : Wait) : Prop where
  past : ∀ l ∈ ls, l.now ≤ now
  seen_after : started ≤ w.lastSeen
  seen : ∀ l ∈ ls, w.lastSeen < l.now → l.grew = false
  sampled : ∀ l ∈ ls, l.sample ≠ none → l.now ≤ w.sampled
  stuck_after : w.stuck.entries ≠ [] → started ≤ w.stuckSince ∧ SampledAt ls w.stuckSince
  stuck : w.stuck.entries ≠ [] → ∀ l ∈ ls, w.stuckSince ≤ l.now →
    l.grew = false ∧ ∀ d, l.sample = some d → d.entries ≠ [] ∧ ∀ cpu, d.get? cpu = w.stuck.get? cpu

theorem watched_begin (call : Call) (cursor : ℕ) (started : Time) :
    Watched started started [] (begin call cursor started) := by
  have hempty : ¬ (begin call cursor started).stuck.entries ≠ [] := fun h => h rfl
  exact ⟨List.forall_mem_nil _, le_rfl, List.forall_mem_nil _,
    List.forall_mem_nil _, fun h => absurd h hempty, fun h => absurd h hempty⟩

theorem forall_snoc {ls : List Look} {l : Look} {P : Look → Prop} (h : ∀ x ∈ ls, P x) (hl : P l) :
    ∀ x ∈ ls ++ [l], P x := by
  intro x hx
  rcases List.mem_append.1 hx with hx | hx
  · exact h x hx
  · rw [List.mem_singleton.1 hx]
    exact hl

theorem SampledAt.snoc {ls : List Look} {time : Time} (h : SampledAt ls time) (l : Look) : SampledAt (ls ++ [l]) time := by
  obtain ⟨x, hx, hat⟩ := h
  exact ⟨x, List.mem_append_left _ hx, hat⟩

/-- the look of a pass at a buffer -/
def lookOf (call : Call) (p : Poll) (buf : Bytes) (w : Wait) : Look :=
  ⟨p.now, buf.length ≠ w.seen, sampleOf call p buf w⟩

theorem lookOf_silent (call : Call) (p : Poll) {buf : Bytes} {w : Wait} (hlen : ¬ buf.length ≠ w.seen) :
    (lookOf call p buf w).grew = false := decide_eq_false hlen

theorem lookOf_sample {call : Call} {p : Poll} {buf : Bytes} {w : Wait} (hlen : ¬ buf.length ≠ w.seen)
    (hidle : ¬ p.now - w.lastSeen ≥ call.idle)
    (hsample : p.now - w.lastSeen ≥ stuckAfter ∧ p.now - w.sampled ≥ stuckSample) :
    (lookOf call p buf w).sample = some p.addresses := by
  rw [lookOf, sampleOf, if_neg hlen, if_neg hidle, if_pos hsample]

/-- a look whose sample is the one kept -/
theorem lookOf_same {l : Look} {addresses stuck : Dict ℕ String} (hlook : l.sample = some addresses)
    (hgrew : l.grew = false) (hsome : addresses.entries ≠ []) (hsame : sameItems addresses stuck = true) :
    l.grew = false ∧ ∀ d, l.sample = some d → d.entries ≠ [] ∧ ∀ cpu, d.get? cpu = stuck.get? cpu := by
  refine ⟨hgrew, ?_⟩
  intro d hd
  rw [hlook] at hd
  cases hd
  exact ⟨hsome, sameItems_iff.1 hsame⟩

theorem sampledAt_last {l : Look} {d : Dict ℕ String} (ls : List Look) (h : l.sample = some d) :
    SampledAt (ls ++ [l]) l.now :=
  ⟨l, List.mem_append_right _ List.mem_cons_self, rfl, by rw [h]; simp⟩

section Keep

variable {started now : Time} {ls : List Look} {l : Look} {w : Wait}

theorem Watched.past_snoc (h : Watched started now ls w) (hnow : now ≤ l.now) : ∀ x ∈ ls ++ [l], x.now ≤ l.now :=
  forall_snoc (fun x hx => (h.past x hx).trans hnow) le_rfl

/-- a new byte moves `lastSeen` and forgets the sample -/
theorem Watched.byte (h : Watched started now ls w) (hstart : started ≤ now) (hnow : now ≤ l.now) (hnone : l.sample = none)
    (seen : ℕ) : Watched started l.now (ls ++ [l]) { w with seen := seen, lastSeen := l.now, stuck := ∅ } := by
  refine ⟨h.past_snoc hnow, hstart.trans hnow, fun x hx hlt => absurd (h.past_snoc hnow x hx) (not_le.2 hlt), ?_,
    fun hne => absurd rfl hne, fun hne => absurd rfl hne⟩
  exact forall_snoc h.sampled fun hs => absurd hnone hs

/-- an empty or a differing sample restarts the span: nothing else was seen at this time -/
theorem Watched.restart {addresses : Dict ℕ String} (h : Watched started now ls w) (hstart : started ≤ now)
    (hnow : now ≤ l.now) (hgrew : l.grew = false) (hlook : l.sample = some addresses)
    (hsilent : stuckAfter ≤ l.now - w.lastSeen) (hpause : stuckSample ≤ l.now - w.sampled) :
    Watched started l.now (ls ++ [l]) { w with sampled := l.now, stuck := addresses, stuckSince := l.now } := by
  unfold stuckAfter at hsilent
  unfold stuckSample at hpause
  refine ⟨h.past_snoc hnow, h.seen_after, forall_snoc h.seen fun _ => hgrew, ?_,
    fun _ => ⟨hstart.trans hnow, sampledAt_last ls hlook⟩, fun hne => ?_⟩
  · exact forall_snoc (fun x hx _ => (h.past x hx).trans hnow) fun _ => le_rfl
  · refine forall_snoc (fun x hx hle => ?_) fun _ => ⟨hgrew, fun d hd => ?_⟩
    · simp only at hle
      refine ⟨h.seen x hx (by linarith), fun d hd => ?_⟩
      have hlast := h.sampled x hx (by rw [hd]; simp)
      linarith
    · rw [hlook] at hd
      cases hd
      exact ⟨hne, fun _ => rfl⟩

/-- the same sample again leaves the span -/
theorem Watched.again (h : Watched started now ls w) (hnow : now ≤ l.now) (hgrew : l.grew = false)
    (hsame : ∀ d, l.sample = some d → d.entries ≠ [] ∧ ∀ cpu, d.get? cpu = w.stuck.get? cpu) :
    Watched started l.now (ls ++ [l]) { w with sampled := l.now } := by
  refine ⟨h.past_snoc hnow, h.seen_after, forall_snoc h.seen fun _ => hgrew, ?_,
    fun hne => ⟨(h.stuck_after hne).1, (h.stuck_after hne).2.snoc _⟩, fun hne => ?_⟩
  · exact forall_snoc (fun x hx _ => (h.past x hx).trans hnow) fun _ => le_rfl
  · exact forall_snoc (h.stuck hne) fun _ => ⟨hgrew, hsame⟩

/-- a look without a sample leaves the timers -/
theorem Watched.unsampled (h : Watched started now ls w) (hnow : now ≤ l.now) (hgrew : l.grew = false)
    (hnone : l.sample = none) : Watched started l.now (ls ++ [l]) w := by
  refine ⟨h.past_snoc hnow, h.seen_after, forall_snoc h.seen fun _ => hgrew, forall_snoc h.sampled fun hs => absurd hnone hs,
    fun hne => ⟨(h.stuck_after hne).1, (h.stuck_after hne).2.snoc _⟩, fun hne => ?_⟩
  refine forall_snoc (h.stuck hne) fun _ => ⟨hgrew, fun d hd => ?_⟩
  rw [hnone] at hd
  cases hd

end Keep

/-- **A pass keeps the watch.** -/
theorem checkSilence_watched {call : Call} {p : Poll} {buf : Bytes} {started now : Time} {ls : List Look} {w w' : Wait}
    (h : Watched started now ls w) (hstart : started ≤ now) (hnow : now ≤ p.now)
    (hsil : checkSilence call p buf w = .ok w') : Watched started p.now (ls ++ [lookOf call p buf w]) w' := by
  unfold checkSilence at hsil
  split_ifs at hsil with hlen hidle hsample hdiffer hlong
  · cases hsil
    have hnone : (lookOf call p buf w).sample = none := by rw [lookOf, sampleOf, if_pos hlen]
    exact h.byte hstart hnow hnone buf.length
  · cases hsil
    exact h.restart hstart hnow (lookOf_silent call p hlen) (lookOf_sample hlen hidle hsample) hsample.1 hsample.2
  · cases hsil
    push Not at hdiffer
    have hgrew := lookOf_silent call p hlen
    exact h.again hnow hgrew (lookOf_same (lookOf_sample hlen hidle hsample) hgrew hdiffer.1 hdiffer.2).2
  · cases hsil
    have hnone : (lookOf call p buf w).sample = none := by
      rw [lookOf, sampleOf, if_neg hlen, if_neg hidle, if_neg hsample]
    exact h.unsampled hnow (lookOf_silent call p hlen) hnone

/-- **A pass that reports a hang saw one.** -/
theorem checkSilence_hung {call : Call} {p : Poll} {buf : Bytes} {started now : Time} {ls : List Look} {w : Wait}
    {e : ExpectError} (h : Watched started now ls w) (hsil : checkSilence call p buf w = .error e) :
    Hung (ls ++ [lookOf call p buf w]) started p.now call.idle := by
  unfold checkSilence at hsil
  split_ifs at hsil with hlen hidle hsample hdiffer hlong
  · have hgrew := lookOf_silent call p hlen
    exact Or.inl ⟨w.lastSeen, h.seen_after, hidle, forall_snoc h.seen fun _ => hgrew⟩
  · have hgrew := lookOf_silent call p hlen
    have hlook := lookOf_sample hlen hidle hsample
    push Not at hdiffer
    have hne : w.stuck.entries ≠ [] := by
      intro hempty
      apply hdiffer.1
      have hlength := hdiffer.2
      rw [sameItems, Bool.and_eq_true, decide_eq_true_eq, hempty] at hlength
      exact List.length_eq_zero_iff.1 hlength.1
    exact Or.inr ⟨⟨w.lastSeen, h.seen_after, hsample.1, forall_snoc h.seen fun _ => hgrew⟩,
      w.stuckSince, w.stuck, (h.stuck_after hne).1, hlong, (h.stuck_after hne).2.snoc _, sampledAt_last ls hlook,
      forall_snoc (h.stuck hne) fun _ => lookOf_same hlook hgrew hdiffer.1 hdiffer.2⟩

/-! ## A whole wait -/

/-- `GuestHung`, in either wording -/
def GuestHung : ExpectError → Prop
  | .hungIdle .. => True
  | .hungStuck .. => True
  | _ => False

theorem checkAlive_error {vm vm' : Vm} {p : Poll} {e : ExpectError} (h : checkAlive vm p = (vm', some e)) :
    ¬ GuestHung e := by
  unfold checkAlive at h
  split at h
  · cases h
    exact id
  · split_ifs at h
    · cases h
    · simp only [Prod.mk.injEq] at h
      obtain ⟨-, h⟩ := h
      split at h
      · cases h
      · cases h
        exact id
      · split at h
        · split_ifs at h
          cases h
          exact id
        · cases h
      · cases h
        exact id

/-- nothing but the silence is reported as a hang -/
theorem pass_hung {call : Call} {vm : Vm} {w : Wait} {p : Poll} {e : ExpectError}
    (h : (pass call vm w p).2 = .raised e) (he : GuestHung e) :
    checkSilence call p (vm.receive p.received).unread w = .error e := by
  have hpassed := pass_passed call vm w p
  generalize pass call vm w p = r at h hpassed
  cases hpassed with
  | silence e' hsil =>
    cases h
    exact hsil
  | found => cases h
  | failed =>
    cases h
    exact absurd he id
  | dead _ _ _ _ _ _ halive =>
    cases h
    exact absurd he (checkAlive_error halive)
  | timedOut =>
    cases h
    exact absurd he id
  | waiting => cases h

theorem Watched.answered {started now : Time} {ls : List Look} {w : Wait} (h : Watched started now ls w)
    (answered : List Answer) : Watched started now ls { w with answered := answered } :=
  ⟨h.past, h.seen_after, h.seen, h.sampled, h.stuck_after, h.stuck⟩

/-- **A wait that reports a hang saw one.** By the polls: each keeps the watch, the last one has a hang in it. -/
theorem expectFrom_hung {call : Call} {vm : Vm} {started now : Time} {ls : List Look} {w : Wait} {ps : List Poll}
    {e : ExpectError} (h : Watched started now ls w) (hstart : started ≤ now)
    (hmono : (now :: ps.map Poll.now).Pairwise (· ≤ ·)) (hend : (expectFrom call vm w ps).2 = .raised e)
    (he : GuestHung e) :
    ∃ last, (looks call w.seen vm w ps).getLast? = some last ∧
      Hung (ls ++ looks call w.seen vm w ps) started last.now call.idle := by
  induction ps generalizing vm w ls now with
  | nil => cases hend
  | cons p ps ih =>
    rw [List.map_cons, List.pairwise_cons] at hmono
    have hnow : now ≤ p.now := hmono.1 p.now List.mem_cons_self
    rcases hp : pass call vm w p with ⟨vm', out⟩
    cases out with
    | returned slice => simp [expectFrom, hp] at hend
    | raised e' =>
      have hraised : e' = e := by simpa [expectFrom, hp] using hend
      subst hraised
      have hsil := pass_hung (by rw [hp]) he
      have hlooks : looks call w.seen vm w (p :: ps) = [lookOf call p (vm.receive p.received).unread w] := by
        rw [looks, hp]
        rfl
      rw [hlooks]
      exact ⟨_, rfl, checkSilence_hung h hsil⟩
    | waiting w' =>
      obtain ⟨w₁, answered, hsil, hw'⟩ := pass_waiting hp
      subst hw'
      have hwatched := (checkSilence_watched h hstart hnow hsil).answered answered
      have hseen : w₁.seen = (vm.receive p.received).unread.length := (checkSilence_ok hsil).1
      have hlooks : looks call w.seen vm w (p :: ps) = lookOf call p (vm.receive p.received).unread w ::
          looks call w₁.seen vm' { w₁ with answered := answered } ps := by
        rw [looks, hp, hseen]
        rfl
      obtain ⟨last, hlast, hhung⟩ := ih hwatched (hstart.trans hnow) hmono.2 (by simpa [expectFrom, hp] using hend)
      rw [hlooks]
      refine ⟨last, ?_, ?_⟩
      · rw [List.getLast?_cons, hlast]
        rfl
      · rw [List.append_assoc] at hhung
        exact hhung

/-- **A hang is reported only when there is one.** For every wait with a clock that does not go back and any registers:
`GuestHung` is raised only where no poll saw a new byte for `idle` seconds up to the last look, or none did for
`stuckAfter` and for `stuckFor` seconds nothing arrived and every sample taken was the same map of running CPUs. And never
while the needle stands in the unread text. -/
theorem hung_only_silent (vm : Vm) (s : Scripted) (e : ExpectError)
    (hmono : (s.started :: (s.first :: s.later).map Poll.now).Pairwise (· ≤ ·)) (hend : (expect vm s).2 = .raised e)
    (he : GuestHung e) :
    let seen := looks s.call 0 vm (begin s.call vm.cursor s.started) (s.first :: s.later)
    (∃ last, seen.getLast? = some last ∧ Hung seen s.started last.now s.call.idle) ∧
      (s.call.needle ≠ "" → find (encode s.call.needle) (expect vm s).1.unread = none) := by
  intro seen
  constructor
  · exact expectFrom_hung (watched_begin s.call vm.cursor s.started) le_rfl hmono hend he
  · intro hne
    exact expect_missed hne fun slice => by rw [hend]; simp

/-- a silent poll of a guest whose one running CPU stays where it is -/
def spinningPoll (now : Time) : Poll :=
  { showing [] now with received := [], addresses := ⟨[(0, "ffffffff81000000")], by decide⟩ }

/-- the polls at 30, 40 and 50 s of a wait that may be silent for 90 -/
def spinningWait : Scripted where
  call := ⟨"login:", 600, [], ∅, idleTimeout⟩
  started := 0
  first := spinningPoll 30
  later := [spinningPoll 40, spinningPoll 50]

/-- a guest that spins in place is reported before it has been silent for 90 s -/
theorem hung_only_silent_spinning :
    let seen := looks spinningWait.call 0 fresh (begin spinningWait.call 0 0)
      [spinningPoll 30, spinningPoll 40, spinningPoll 50]
    (∃ last, seen.getLast? = some last ∧ Hung seen 0 last.now idleTimeout) ∧
      ("login:" ≠ "" → find (encode "login:") (expect fresh spinningWait).1.unread = none) := by
  have hhung : (match (expect fresh spinningWait).2 with
      | .raised (.hungStuck ..) => true
      | _ => false) = true := by decide +kernel
  split at hhung
  · rename_i hend
    exact hung_only_silent fresh spinningWait _ (by decide +kernel) hend trivial
  · cases hhung

end DrtmTest.ConsoleHang
