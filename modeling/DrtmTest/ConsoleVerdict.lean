/-
Whether the end of a wait depends on how its bytes are batched.

A `Delivery` is one way the bytes of a stream reach a wait: QEMU lives, no look reports a hang, and the deadline is not
reached before the last look. `verdictOf` is what the stream alone says: a failure that ends
before the first needle begins is a panic, else a needle is a return.

- `delivery_verdict`: a failure whose end is not in sight before the needle's is decides every delivery as the stream does.
- `same_verdict_iff`: and only then. A poll looks for the needle first, in all that has arrived: a failure ahead of a
  needle is passed over when one poll shows both, and a failure that begins ahead of the needle and ends in it is a panic
  when a poll falls between.
- `panic_then_login`: a kernel panic and a login prompt in one poll are a login, in two polls a panic.
-/
import DrtmTest.Console

namespace DrtmTest.ConsoleVerdict

open DrtmTest.Find DrtmTest.Text DrtmTest.Qmp DrtmTest.QemuVm

/-- how a wait ends, as far as the console decides it -/
inductive Verdict where
  /-- `GuestPanicked`, for a failure on the console -/
  | panicked
  | returned (slice : Bytes)
  | undecided
  deriving DecidableEq

def verdict : Outcome → Verdict
  | .returned slice => .returned slice
  | .raised (.failureSeen _ _) => .panicked
  | _ => .undecided

/-! ## What the stream says -/

/-- some failure is in the stream and ends by `bound` -/
def failsBy (call : Call) (stream : Bytes) (bound : ℕ) : Bool :=
  call.failures.any fun f => (ends (encode f) stream).any (· ≤ bound)

/-- the verdict of the whole stream -/
def verdictOf (call : Call) (stream : Bytes) : Verdict :=
  match find (encode call.needle) stream with
  | some i =>
    if failsBy call stream i then .panicked else .returned (stream.take (i + (encode call.needle).length))
  | none => if failsBy call stream stream.length then .panicked else .undecided

theorem failsBy_iff {call : Call} {stream : Bytes} {bound : ℕ} :
    failsBy call stream bound ↔ ∃ f ∈ call.failures, ∃ e, ends (encode f) stream = some e ∧ e ≤ bound := by
  simp [failsBy, Option.any_eq_true]

theorem failsBy_extend {call : Call} {buf stream : Bytes} (hp : buf <+: stream) :
    failsBy call stream buf.length ↔ ∃ f ∈ call.failures, contains (encode f) buf := by
  simp only [failsBy_iff, contains, find_isSome_extend hp]

/-! ## Deliveries -/

/-- no look finds the console silent for so long that it reports a hang -/
def Lively (call : Call) (cursor : ℕ) : Reader → Wait → List Poll → Prop
  | _, _, [] => True
  | r, w, p :: ps =>
    match checkSilence call p ((p.received.foldl readSerial r).serialBuf.drop cursor) w with
    | .ok w => Lively call cursor (p.received.foldl readSerial r) w ps
    | .error _ => False

/-- what the polls bring -/
def received (ps : List Poll) : List Recv := ps.flatMap Poll.received

/-- one way the bytes of the stream reach the wait -/
structure Delivery (call : Call) (stream : Bytes) where
  vm : Vm
  started : Time
  first : Poll
  later : List Poll
  delivered : (vm.receive (received (first :: later))).unread = stream
  lively : Lively call vm.cursor vm.reader (begin call vm.cursor started) (first :: later)
  /-- QEMU is there and does not report a panic -/
  alive : ∀ p ∈ first :: later, ∀ vm, (checkAlive vm p).2 = none
  /-- the deadline is not reached before the last look -/
  inTime : ∀ p ∈ (first :: later).dropLast, p.after < started + call.timeout

def Delivery.verdict {call : Call} {stream : Bytes} (d : Delivery call stream) : Verdict :=
  ConsoleVerdict.verdict (expect d.vm ⟨call, d.started, d.first, d.later⟩).2

/-! ## One look -/

theorem pass_found {call : Call} {vm : Vm} {w w' : Wait} {p : Poll} {i : ℕ}
    (hs : checkSilence call p (vm.receive p.received).unread w = .ok w')
    (hf : find (encode call.needle) (vm.receive p.received).unread = some i) :
    (pass call vm w p).2 = .returned ((vm.receive p.received).unread.take (i + (encode call.needle).length)) := by
  unfold QemuVm.pass
  simp only [hs, hf]

theorem pass_failed {call : Call} {vm : Vm} {w w' : Wait} {p : Poll}
    (hs : checkSilence call p (vm.receive p.received).unread w = .ok w')
    (hf : find (encode call.needle) (vm.receive p.received).unread = none)
    (hfail : ∃ f ∈ call.failures, contains (encode f) (vm.receive p.received).unread) :
    ∃ f, (pass call vm w p).2 = .raised (.failureSeen f call.needle) := by
  obtain ⟨f, hm, hc⟩ := hfail
  obtain ⟨g, hg⟩ : ∃ g, (call.failures.find? fun f => contains (encode f) (vm.receive p.received).unread) = some g :=
    Option.isSome_iff_exists.1 (List.find?_isSome.2 ⟨f, hm, hc⟩)
  refine ⟨g, ?_⟩
  unfold QemuVm.pass
  simp only [hs, hf, hg]

/-- a look that decides nothing times out or goes on -/
theorem pass_open {call : Call} {vm : Vm} {w w' : Wait} {p : Poll} (ha : ∀ vm, (checkAlive vm p).2 = none)
    (hs : checkSilence call p (vm.receive p.received).unread w = .ok w')
    (hf : find (encode call.needle) (vm.receive p.received).unread = none)
    (hfail : ¬ ∃ f ∈ call.failures, contains (encode f) (vm.receive p.received).unread) :
    verdict (pass call vm w p).2 = .undecided ∧
      (p.after < w'.deadline → ∃ vm' answered, pass call vm w p = (vm', .waiting { w' with answered := answered }) ∧
        vm'.reader = (vm.receive p.received).reader ∧ vm'.cursor = vm.cursor) := by
  have hnone : (call.failures.find? fun f => contains (encode f) (vm.receive p.received).unread) = none := by
    refine List.find?_eq_none.2 fun f hm hc => hfail ⟨f, hm, hc⟩
  unfold QemuVm.pass
  simp only [hs, hf, hnone]
  split
  · rename_i hc
    have := ha _ ▸ congrArg Prod.snd hc
    cases this
  · rename_i hc
    obtain ⟨hr, hcur⟩ := checkAlive_frame hc
    split_ifs with hd
    · exact ⟨rfl, fun h => absurd h (not_lt.2 hd)⟩
    · exact ⟨rfl, fun _ => ⟨_, _, rfl, hr, hcur⟩⟩

theorem checkSilence_answered (call : Call) (p : Poll) (buf : Bytes) (w : Wait) (answered : List Answer) :
    checkSilence call p buf { w with answered := answered } =
      (checkSilence call p buf w).map fun w => { w with answered := answered } := by
  simp only [checkSilence]
  split_ifs <;> rfl

theorem Lively.answered {call : Call} {cursor : ℕ} {r : Reader} {w : Wait} {ps : List Poll}
    (h : Lively call cursor r w ps) (answered : List Answer) : Lively call cursor r { w with answered := answered } ps := by
  induction ps generalizing r w with
  | nil => trivial
  | cons p ps ih =>
    rw [Lively] at h ⊢
    rw [checkSilence_answered]
    cases hs : checkSilence call p ((p.received.foldl readSerial r).serialBuf.drop cursor) w with
    | error e =>
      rw [hs] at h
      exact h.elim
    | ok w' =>
      rw [hs] at h
      exact ih h

theorem checkSilence_deadline {call : Call} {p : Poll} {buf : Bytes} {w w' : Wait} (h : checkSilence call p buf w = .ok w') :
    w'.deadline = w.deadline := by
  simp only [checkSilence] at h
  split_ifs at h <;> cases h <;> rfl

theorem checkSilence_lively {call : Call} {vm : Vm} {w : Wait} {p : Poll} {ps : List Poll}
    (h : Lively call vm.cursor vm.reader w (p :: ps)) :
    ∃ w', checkSilence call p (vm.receive p.received).unread w = .ok w' ∧ w'.deadline = w.deadline ∧
      Lively call vm.cursor (vm.receive p.received).reader w' ps := by
  rw [Lively] at h
  change match checkSilence call p (vm.receive p.received).unread w with | .ok w => _ | .error _ => _ at h
  cases hs : checkSilence call p (vm.receive p.received).unread w with
  | error e =>
    rw [hs] at h
    exact h.elim
  | ok w' =>
    rw [hs] at h
    exact ⟨w', rfl, checkSilence_deadline hs, h⟩

/-! ## A whole delivery -/

/-- every failure ends no sooner than the first needle, and behind its beginning -/
def LateFailures (call : Call) (stream : Bytes) : Prop :=
  ∀ f ∈ call.failures, ∀ e i, ends (encode f) stream = some e → find (encode call.needle) stream = some i →
    i < e ∧ i + (encode call.needle).length ≤ e

theorem verdictOf_found {call : Call} {buf stream : Bytes} (hp : buf <+: stream) (hl : LateFailures call stream) {i : ℕ}
    (hf : find (encode call.needle) buf = some i) :
    verdictOf call stream = .returned (buf.take (i + (encode call.needle).length)) := by
  have hs := find_extend hp hf
  have hle : i + (encode call.needle).length ≤ buf.length := (find_eq_some.1 hf).1.le
  have hno : ¬ failsBy call stream i := by
    intro h
    obtain ⟨f, hm, e, he, hei⟩ := failsBy_iff.1 h
    exact absurd (hl f hm e i he hs).1 (not_lt.2 hei)
  obtain ⟨more, rfl⟩ := hp
  simp only [verdictOf, hs, if_neg hno, List.take_append_of_le_length hle]

theorem verdictOf_failed {call : Call} {buf stream : Bytes} (hp : buf <+: stream) (hl : LateFailures call stream)
    (hf : find (encode call.needle) buf = none) (hfail : ∃ f ∈ call.failures, contains (encode f) buf) :
    verdictOf call stream = .panicked := by
  obtain ⟨f, hm, e, he, hle⟩ := failsBy_iff.1 ((failsBy_extend hp).2 hfail)
  cases hs : find (encode call.needle) stream with
  | some i =>
    have hin : i + (encode call.needle).length ≤ buf.length := (hl f hm e i he hs).2.trans hle
    rw [find_restrict hp hs hin] at hf
    cases hf
  | none =>
    have hby : failsBy call stream stream.length := failsBy_iff.2 ⟨f, hm, e, he, hle.trans hp.length_le⟩
    simp only [verdictOf, hs, if_pos hby]

theorem verdictOf_open {call : Call} {stream : Bytes} (hf : find (encode call.needle) stream = none)
    (hfail : ¬ ∃ f ∈ call.failures, contains (encode f) stream) : verdictOf call stream = .undecided := by
  have hno : ¬ failsBy call stream stream.length := fun h => hfail ((failsBy_extend List.prefix_rfl).1 h)
  simp only [verdictOf, hf, if_neg hno]

theorem received_cons (p : Poll) (ps : List Poll) : received (p :: ps) = p.received ++ received ps := rfl

theorem receive_append (vm : Vm) (rs rs' : List Recv) : vm.receive (rs ++ rs') = (vm.receive rs).receive rs' := by
  simp only [Vm.receive, List.foldl_append]

theorem receive_congr {vm vm' : Vm} (hr : vm'.reader = vm.reader) (hc : vm'.cursor = vm.cursor) (rs : List Recv) :
    (vm'.receive rs).unread = (vm.receive rs).unread := by
  simp only [Vm.receive, Vm.unread, hr, hc]

theorem expectFrom_ends {call : Call} {vm : Vm} {w : Wait} {p : Poll} {ps : List Poll} {out : Outcome}
    (h : (pass call vm w p).2 = out) (hout : ∀ w', out ≠ .waiting w') : (expectFrom call vm w (p :: ps)).2 = out := by
  rcases hp : pass call vm w p with ⟨vm', out'⟩
  rw [hp] at h
  cases h
  cases out' with
  | waiting w' => exact absurd rfl (hout w')
  | returned slice => simp only [expectFrom, hp]
  | raised e => simp only [expectFrom, hp]

theorem expectFrom_last {call : Call} {vm : Vm} {w : Wait} {p : Poll} :
    (expectFrom call vm w [p]).2 = (pass call vm w p).2 := by
  rcases hp : pass call vm w p with ⟨vm', out⟩
  cases out <;> simp only [expectFrom, hp]

/-- a needle or a failure is there -/
def Decides (call : Call) (buf : Bytes) : Prop :=
  find (encode call.needle) buf ≠ none ∨ ∃ f ∈ call.failures, contains (encode f) buf

theorem unread_received {vm : Vm} {p : Poll} {ps : List Poll} {stream : Bytes}
    (hd : (vm.receive (received (p :: ps))).unread = stream) : (vm.receive p.received).unread <+: stream := by
  rw [← hd, received_cons, receive_append]
  exact unread_grows _ _

/-- a look that shows a needle or a failure ends the wait, with the verdict of the whole stream -/
theorem expectFrom_decided {call : Call} {stream : Bytes} {vm : Vm} {w w₁ : Wait} {p : Poll} (hl : LateFailures call stream)
    (hs : checkSilence call p (vm.receive p.received).unread w = .ok w₁) (hp : (vm.receive p.received).unread <+: stream)
    (h : Decides call (vm.receive p.received).unread) (ps : List Poll) :
    verdict (expectFrom call vm w (p :: ps)).2 = verdictOf call stream := by
  cases hf : find (encode call.needle) (vm.receive p.received).unread with
  | some i =>
    rw [expectFrom_ends (pass_found hs hf) nofun, verdictOf_found hp hl hf]
    rfl
  | none =>
    have hfail := h.resolve_left fun hne => hne hf
    obtain ⟨f, hout⟩ := pass_failed hs hf hfail
    rw [expectFrom_ends hout nofun, verdictOf_failed hp hl hf hfail]
    rfl

/-- A delivery is decided at the first look that shows a needle or a failure. The induction is over the looks: up to here
neither was there, and what is still to come completes the stream. -/
theorem expectFrom_verdict {call : Call} {stream : Bytes} (hl : LateFailures call stream) (vm : Vm) (w : Wait) (p : Poll)
    (ps : List Poll) (hd : (vm.receive (received (p :: ps))).unread = stream)
    (hlive : Lively call vm.cursor vm.reader w (p :: ps))
    (halive : ∀ q ∈ p :: ps, ∀ vm, (checkAlive vm q).2 = none)
    (htime : ∀ q ∈ (p :: ps).dropLast, q.after < w.deadline) :
    verdict (expectFrom call vm w (p :: ps)).2 = verdictOf call stream := by
  induction ps generalizing vm w p with
  | nil =>
    obtain ⟨w₁, hs, -, -⟩ := checkSilence_lively hlive
    by_cases h : Decides call (vm.receive p.received).unread
    · exact expectFrom_decided hl hs (unread_received hd) h []
    · rw [Decides, not_or, not_not] at h
      have hstream : (vm.receive p.received).unread = stream := by
        rw [← hd, received_cons, receive_append]
        rfl
      rw [expectFrom_last, (pass_open (halive p List.mem_cons_self) hs h.1 h.2).1]
      rw [hstream] at h
      exact (verdictOf_open h.1 h.2).symm
  | cons q ps ih =>
    obtain ⟨w₁, hs, hdl, hlive'⟩ := checkSilence_lively hlive
    by_cases h : Decides call (vm.receive p.received).unread
    · exact expectFrom_decided hl hs (unread_received hd) h (q :: ps)
    · rw [Decides, not_or, not_not] at h
      have hlt : p.after < w₁.deadline := hdl ▸ htime p (by simp)
      obtain ⟨vm', answered, hpass, hr, hc⟩ := (pass_open (halive p List.mem_cons_self) hs h.1 h.2).2 hlt
      have hcursor : vm'.cursor = (vm.receive p.received).cursor := hc
      have hrest : ((vm.receive p.received).receive (received (q :: ps))).unread = stream := by
        rw [← receive_append, ← received_cons, hd]
      rw [expectFrom, hpass]
      refine ih vm' _ q ((receive_congr hr hcursor _).trans hrest) ?_ (fun r hr => halive r (List.mem_cons_of_mem _ hr)) ?_
      · rw [hr, hc]
        exact hlive'.answered answered
      · intro r hr
        rw [hdl]
        apply htime
        rw [List.dropLast_cons_of_ne_nil (List.cons_ne_nil q ps)]
        exact List.mem_cons_of_mem _ hr

theorem delivery_verdict {call : Call} {stream : Bytes} (hl : LateFailures call stream) (d : Delivery call stream) :
    d.verdict = verdictOf call stream :=
  expectFrom_verdict hl d.vm _ d.first d.later d.delivered d.lively d.alive d.inTime

/-! ## The same end under every delivery -/

theorem first_found {call : Call} {stream : Bytes} (d : Delivery call stream) {i : ℕ}
    (hf : find (encode call.needle) (d.vm.receive d.first.received).unread = some i) :
    d.verdict = .returned ((d.vm.receive d.first.received).unread.take (i + (encode call.needle).length)) := by
  obtain ⟨w₁, hs, -, -⟩ := checkSilence_lively d.lively
  rw [Delivery.verdict, expect, expectFrom_ends (pass_found hs hf) nofun]
  rfl

theorem first_failed {call : Call} {stream : Bytes} (d : Delivery call stream)
    (hf : find (encode call.needle) (d.vm.receive d.first.received).unread = none)
    (hfail : ∃ f ∈ call.failures, contains (encode f) (d.vm.receive d.first.received).unread) :
    d.verdict = .panicked := by
  obtain ⟨w₁, hs, -, -⟩ := checkSilence_lively d.lively
  obtain ⟨f, hout⟩ := pass_failed hs hf hfail
  rw [Delivery.verdict, expect, expectFrom_ends hout nofun]
  rfl

theorem fresh_lively {call : Call} (hi : 0 < call.idle) (cursor : ℕ) (r : Reader) {w : Wait} (hw : w.lastSeen = 0)
    (chunks : List Bytes) : Lively call cursor r w (chunks.map fun c => showing c 0) := by
  induction chunks generalizing r w with
  | nil => trivial
  | cons c cs ih =>
    rw [List.map_cons, Lively]
    simp only [checkSilence, showing, hw, sub_zero]
    by_cases hlen : (((([Recv.chunk c]).foldl readSerial r).serialBuf.drop cursor).length) = w.seen
    · rw [if_neg (not_not.2 hlen), if_neg (not_le.2 hi), if_neg fun h => absurd h.1 (by norm_num [stuckAfter])]
      exact ih _ hw
    · rw [if_pos hlen]
      exact ih _ rfl

/-- the stream in two chunks, at once -/
def twoLooks (call : Call) (now later : Bytes) (ht : 0 < call.timeout) (hi : 0 < call.idle) (hne : now ≠ []) :
    Delivery call (now ++ later) where
  vm := fresh
  started := 0
  first := showing now 0
  later := [showing later 0]
  delivered := by
    cases now with
    | nil => contradiction
    | cons b bs => cases later <;> simp [received, showing, Vm.receive, Vm.unread, readSerial, fresh]
  lively := fresh_lively hi _ _ rfl [now, later]
  alive := by
    intro p hp
    rcases List.mem_cons.1 hp with rfl | hp
    · exact showing_alive now 0
    · rw [List.mem_singleton.1 hp]
      exact showing_alive later 0
  inTime := by
    intro p hp
    rw [List.mem_singleton.1 hp]
    simpa [showing] using ht

/-- the stream in one chunk -/
def oneLook (call : Call) (stream : Bytes) (hi : 0 < call.idle) : Delivery call stream where
  vm := fresh
  started := 0
  first := showing stream 0
  later := []
  delivered := fresh_receive stream
  lively := fresh_lively hi _ _ rfl [stream]
  alive := by
    intro p hp
    rw [List.mem_singleton.1 hp]
    exact showing_alive stream 0
  inTime := nofun

theorem late_of_verdicts {call : Call} {stream : Bytes} (ht : 0 < call.timeout) (hi : 0 < call.idle)
    (h : ∀ d : Delivery call stream, d.verdict = verdictOf call stream) : LateFailures call stream := by
  intro f hm e i he hs
  have hone := h (oneLook call stream hi)
  have hfound : find (encode call.needle) (fresh.receive [.chunk stream]).unread = some i := by
    rw [fresh_receive, hs]
  rw [first_found (oneLook call stream hi) hfound] at hone
  -- seen at once, the stream is a return
  have hno : ¬ failsBy call stream i := by
    intro hby
    simp only [verdictOf, hs, if_pos hby] at hone
    cases hone
  have hie : i < e := not_le.1 fun hle => hno (failsBy_iff.2 ⟨f, hm, e, he, hle⟩)
  refine ⟨hie, not_lt.1 fun hlt => ?_⟩
  -- seen up to the end of the failure, it is a panic
  obtain ⟨now, later, rfl, hlen⟩ : ∃ now later, now ++ later = stream ∧ now.length = e :=
    ⟨stream.take e, stream.drop e, List.take_append_drop e stream, by rw [List.length_take, Nat.min_eq_left (ends_le he)]⟩
  have hp : now <+: now ++ later := List.prefix_append now later
  have hne : now ≠ [] := by
    rintro rfl
    simp only [List.length_nil] at hlen
    omega
  have hnone : find (encode call.needle) now = none := by
    cases hf : find (encode call.needle) now with
    | none => rfl
    | some j =>
      have hj : some j = some i := (find_extend hp hf).symm.trans hs
      have hle := (find_eq_some.1 hf).1.le
      rw [Option.some.inj hj] at hle
      omega
  have hfail : ∃ f ∈ call.failures, contains (encode f) now :=
    ⟨f, hm, (find_isSome_extend hp).2 ⟨e, he, hlen.ge⟩⟩
  have htwo := h (twoLooks call now later ht hi hne)
  have hnow : (fresh.receive [.chunk now]).unread = now := fresh_receive now
  rw [first_failed (twoLooks call now later ht hi hne) (by exact hnow.symm ▸ hnone)
    (by exact hnow.symm ▸ hfail)] at htwo
  simp only [verdictOf, hs, if_neg hno] at htwo
  cases htwo

/-- **The same end, whatever the timing.** Every two deliveries end alike, as the stream says, exactly when no failure
ends before the first needle does. -/
theorem same_verdict_iff (call : Call) (stream : Bytes) (ht : 0 < call.timeout) (hi : 0 < call.idle) :
    (∀ d d' : Delivery call stream, d.verdict = d'.verdict ∧ d.verdict = verdictOf call stream) ↔
      LateFailures call stream := by
  constructor
  · intro h
    exact late_of_verdicts ht hi fun d => (h d d).2
  · intro hl d d'
    rw [delivery_verdict hl d, delivery_verdict hl d']
    exact ⟨rfl, rfl⟩

/-- the wait for the login prompt behind the banner -/
def loginWait : Call := (Console.waitForLogin 600 "Welcome").getLast (List.cons_ne_nil _ _)

def panicLine : Bytes := encode "Kernel panic - not syncing: TPM extend\r\n"

def loginLine : Bytes := encode "tb login: "

/-- a panic behind the prompt is late, and the prompt is found in one look and in two -/
theorem login_then_panic :
    (twoLooks loginWait loginLine panicLine (by decide +kernel) (by decide +kernel) (by decide +kernel)).verdict =
        (oneLook loginWait (loginLine ++ panicLine) (by decide +kernel)).verdict ∧
      (twoLooks loginWait loginLine panicLine (by decide +kernel) (by decide +kernel) (by decide +kernel)).verdict =
        .returned (encode "tb login:") := by
  have hneedle : find (encode loginWait.needle) (loginLine ++ panicLine) = some 3 := by decide +kernel
  have hends : ∀ f ∈ loginWait.failures, (ends (encode f) (loginLine ++ panicLine)).all (10 ≤ ·) := by decide +kernel
  have hlate : LateFailures loginWait (loginLine ++ panicLine) := by
    intro f hm e i he hs
    have h10 := hends f hm
    rw [he, Option.all_some, decide_eq_true_eq] at h10
    have hlen : (encode loginWait.needle).length = 6 := by decide +kernel
    rw [hneedle] at hs
    cases hs
    omega
  have hspec : verdictOf loginWait (loginLine ++ panicLine) = .returned (encode "tb login:") := by decide +kernel
  rw [← hspec]
  exact (same_verdict_iff loginWait (loginLine ++ panicLine) (by decide +kernel) (by decide +kernel)).2 hlate _ _

/-- a panic and the prompt behind it: in one poll a login, in two a panic, and the stream says panic -/
theorem panic_then_login :
    (oneLook loginWait (panicLine ++ loginLine) (by decide +kernel)).verdict =
        .returned (panicLine ++ encode "tb login:") ∧
      (twoLooks loginWait panicLine loginLine (by decide +kernel) (by decide +kernel) (by decide +kernel)).verdict =
        .panicked ∧
      verdictOf loginWait (panicLine ++ loginLine) = .panicked ∧
      ¬ ∀ d d' : Delivery loginWait (panicLine ++ loginLine),
        d.verdict = d'.verdict ∧ d.verdict = verdictOf loginWait (panicLine ++ loginLine) := by
  have hone : (oneLook loginWait (panicLine ++ loginLine) (by decide +kernel)).verdict =
      .returned (panicLine ++ encode "tb login:") := by decide +kernel
  have hspec : verdictOf loginWait (panicLine ++ loginLine) = .panicked := by decide +kernel
  refine ⟨hone, by decide +kernel, hspec, fun h => ?_⟩
  have hd := (h (oneLook loginWait (panicLine ++ loginLine) (by decide +kernel))
    (oneLook loginWait (panicLine ++ loginLine) (by decide +kernel))).2
  rw [hone, hspec] at hd
  cases hd

end DrtmTest.ConsoleVerdict
