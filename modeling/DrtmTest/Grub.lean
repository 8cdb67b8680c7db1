/-
GRUB's menu under `select_entry`: which entry is booted, whatever keys are lost or late.

GRUB handles the keys in the order they were sent, each at any time after it was sent. A Down either is lost or moves the
highlight down, not below the last entry, and draws `*` and the new title, between bytes that hold no `*`. What is
drawn reaches the console in any pieces. `moves step again` says whether the Down of a step moves, the first time or the
second time it is pressed.

- `step_inv`, `foldl_inv`: until a step's entry is drawn nothing unread holds a `*`, and at most one Down that moves is
  still to come.
- `select_entry_boots`: where no entry's Down moves both times it is pressed, an Enter boots the title asked for, and an
  Enter is sent exactly by a `select_entry` that returned.
- `late_down_boots_next`: a Down that is only late moves as well as the one pressed in its place, and the Enter behind them
  boots the entry after the title's.
-/
import DrtmTest.Console

namespace DrtmTest.Grub

open DrtmTest.Find DrtmTest.Text DrtmTest.QemuVm DrtmTest.Console

/-! ## Model -/

/-- the byte of `*` -/
def star : UInt8 := 42

/-- what is drawn besides the highlight -/
structure Quiet where
  bytes : Bytes
  no_star : star ∉ bytes

/-- a boot up to the finished menu, as the serial port shows it -/
structure Menu where
  /-- the firmware shows its prompt -/
  boot : Bool
  text : Bytes
  /-- the text behind the firmware's prompt -/
  behind : Bytes
  answered : if boot then ∃ slice, cut (encode bootPrompt) text = some (slice, behind) else behind = text
  /-- the menu's render, and what comes behind it -/
  render : Bytes
  rest : Quiet
  ready : cut (encode menuReady) behind = some (render, rest.bytes)

/-- the entries, as `menu_titles` reads them -/
def Menu.titles (m : Menu) : List String := menuTitles (decodeReplace m.render)

inductive Key where
  | down (moves : Bool)
  | enter
  deriving DecidableEq

structure St where
  vm : Vm
  select : Select
  /-- what `select_entry` has sent, in order -/
  pressed : List Press
  /-- what GRUB has not handled yet -/
  queue : List Key
  highlight : ℕ
  /-- the entry highlighted when the Enter was handled -/
  booted : Option ℕ
  /-- what is drawn and not yet in the buffer -/
  wire : Bytes

inductive Op where
  /-- GRUB handles a key, and draws between `before` and `after` if it moves -/
  | handle (before after : Quiet)
  /-- `n` bytes reach the buffer, and the wait looks -/
  | poll (n : ℕ) (p : Poll) (next : Time)

def start (m : Menu) (bootTimeout now : Time) : St where
  vm := fresh
  select := selectBegin m.boot bootTimeout 0 now
  pressed := []
  queue := []
  highlight := 0
  booted := none
  wire := m.text

def drawn (m : Menu) (h : ℕ) : Bytes := encode ("*" ++ m.titles.getD h "")

/-- the highlight after a Down -/
def below (m : Menu) (h : ℕ) : ℕ := min (h + 1) (m.titles.length - 1)

def handle (m : Menu) (before after : Quiet) (s : St) : St :=
  match s.queue with
  | [] => s
  | .enter :: keys => { s with queue := keys, booted := some s.highlight }
  | .down false :: keys => { s with queue := keys }
  | .down true :: keys =>
    { s with
      queue := keys
      highlight := below m s.highlight
      wire := s.wire ++ (before.bytes ++ drawn m (below m s.highlight) ++ after.bytes) }

/-- the key GRUB gets, if what was pressed goes to GRUB -/
def keys (moves : ℕ → Bool → Bool) : Option Press → List Key
  | some (.down step again) => [.down (moves step again)]
  | some .enter => [.enter]
  | _ => []

/-- what `recv` gives the reader -/
def arrived (b : Bytes) : List Recv := if b = [] then [] else [.chunk b]

/-- the state behind one look -/
def advance (moves : ℕ → Bool → Bool) (s : St) (vm : Vm) (wire : Bytes) (next : Select × Option Press) : St where
  vm := vm
  select := next.1
  pressed := s.pressed ++ next.2.toList
  queue := s.queue ++ keys moves next.2
  highlight := s.highlight
  booted := s.booted
  wire := wire

def poll (title : String) (bootTimeout : Time) (moves : ℕ → Bool → Bool) (n : ℕ) (p : Poll) (next : Time) (s : St) : St :=
  let p := { p with received := arrived (s.wire.take n) }
  let (vm, next) := selectPoll title bootTimeout s.vm p next s.select
  advance moves s vm (s.wire.drop n) next

def step (m : Menu) (title : String) (bootTimeout : Time) (moves : ℕ → Bool → Bool) (s : St) : Op → St
  | .handle before after => handle m before after s
  | .poll n p next => poll title bootTimeout moves n p next s

def run (m : Menu) (title : String) (bootTimeout now : Time) (moves : ℕ → Bool → Bool) (ops : List Op) : St :=
  ops.foldl (step m title bootTimeout moves) (start m bootTimeout now)

/-! ## What arrives -/

/-- the reader runs, and the cursor is in the buffer -/
structure Reading (vm : Vm) : Prop where
  running : vm.reader.running = true
  stop : vm.reader.stop = false
  cursor : vm.cursor ≤ vm.reader.serialBuf.length

theorem receive_arrived {vm : Vm} (hv : Reading vm) (b : Bytes) :
    Reading (vm.receive (arrived b)) ∧ (vm.receive (arrived b)).unread = vm.unread ++ b := by
  have hstop := hv.stop
  cases b with
  | nil => exact ⟨hv, (List.append_nil _).symm⟩
  | cons c b =>
    have hr : (vm.receive (arrived (c :: b))).reader =
        { vm.reader with serialBuf := vm.reader.serialBuf ++ c :: b, serialLog := vm.reader.serialLog ++ c :: b } := by
      simp [Vm.receive, arrived, readSerial, hv.running, hstop]
    have hc : (vm.receive (arrived (c :: b))).cursor = vm.cursor := rfl
    refine ⟨⟨by rw [hr]; exact hv.running, by rw [hr]; exact hstop, ?_⟩, ?_⟩
    · have := hv.cursor
      rw [hr, hc, List.length_append]
      omega
    · rw [Vm.unread, Vm.unread, hr, hc, List.drop_append_of_le_length hv.cursor]

/-- a look cuts the needle off all there is to read, or leaves it all -/
def Reads (call : Call) (total left : Bytes) : Outcome → Prop
  | .returned slice => cut (encode call.needle) total = some (slice, left)
  | _ => left = total

theorem pass_arrived {call : Call} {vm : Vm} {w : Wait} {p : Poll} {b : Bytes} (hv : Reading vm)
    (hp : p.received = arrived b) (rest : Bytes) :
    Reading (pass call vm w p).1 ∧
      Reads call (vm.unread ++ (b ++ rest)) ((pass call vm w p).1.unread ++ rest) (pass call vm w p).2 := by
  obtain ⟨hread, hun⟩ := receive_arrived hv b
  rw [← hp] at hread hun
  have hreader := pass_reader call vm w p
  rcases pass_cases call vm w p with ⟨i, hi, heq⟩ | ⟨hcur, hend⟩
  · have hat := (find_eq_some.1 hi).1.le
    have hlen : (vm.receive p.received).unread.length = (vm.receive p.received).reader.serialBuf.length - vm.cursor :=
      List.length_drop
    rw [heq]
    refine ⟨⟨hread.running, hread.stop, ?_⟩, ?_⟩
    · have := hread.cursor
      have : (vm.receive p.received).cursor = vm.cursor := rfl
      change vm.cursor + (i + (encode call.needle).length) ≤ (vm.receive p.received).reader.serialBuf.length
      omega
    · have hext := cut_extend (List.prefix_append (vm.receive p.received).unread rest) (cut_found hi)
      change cut _ (vm.unread ++ (b ++ rest)) = some (_, _)
      rw [← List.append_assoc, ← hun, hext, List.length_take, Nat.min_eq_left hat,
        List.drop_append_of_le_length hat]
      simp only [Vm.unread, List.drop_drop]
      rfl
  · rcases hpass : pass call vm w p with ⟨vm', out⟩
    rw [hpass] at hcur hend hreader
    simp only at hcur hreader
    have hun' : vm'.unread = vm.unread ++ b := by
      rw [← hun, Vm.unread, Vm.unread, hcur, hreader]
      rfl
    refine ⟨⟨by rw [hreader]; exact hread.running, by rw [hreader]; exact hread.stop, ?_⟩, ?_⟩
    · rw [hreader, hcur]
      exact hread.cursor
    · cases out with
      | returned slice => rcases hend with ⟨e, he⟩ | ⟨⟨w', hw'⟩, -⟩ <;> contradiction
      | raised e => simp only [Reads, hun', List.append_assoc]
      | waiting w' => simp only [Reads, hun', List.append_assoc]

/-! ## The invariant -/

/-- all the wait can still read -/
def St.total (s : St) : Bytes := s.vm.unread ++ s.wire

/-- how many keys to come move the highlight -/
def pending (queue : List Key) : ℕ := queue.count (.down true)

/-- no entry's Down moves both times it is pressed -/
def MovesOnce (moves : ℕ → Bool → Bool) (s : St) : Prop :=
  ∀ step, .down step true ∈ s.pressed → ¬ (moves step false = true ∧ moves step true = true)

structure NotEntered (s : St) : Prop where
  pressed : .enter ∉ s.pressed
  queue : .enter ∉ s.queue
  booted : s.booted = none

/-- between the press of a Down and its entry drawn: no press of the step moves, or one does and is still to come, or one
did and has drawn -/
inductive Stage (m : Menu) (moves : ℕ → Bool → Bool) (step : ℕ) (again : Bool) (s : St) : Prop where
  | still (queue : pending s.queue = 0) (highlight : s.highlight = step) (quiet : star ∉ s.total)
      (first : moves step false = false) (second : again = true → moves step true = false)
  | coming (queue : pending s.queue = 1) (highlight : s.highlight = step) (quiet : star ∉ s.total)
      (moved : moves step false = true ∨ again = true)
  | drawn (queue : pending s.queue = 0) (highlight : s.highlight = step + 1) (before after : Quiet)
      (shown : s.total = before.bytes ++ drawn m (step + 1) ++ after.bytes)
      (moved : moves step false = true ∨ again = true)

/-- GRUB has got no key -/
structure Untouched (s : St) : Prop extends NotEntered s where
  empty : s.queue = []
  highlight : s.highlight = 0

/-- the Enter is sent with the highlight on the title and no move to come -/
structure Entered (m : Menu) (title : String) (s : St) : Prop where
  known : title ∈ m.titles
  pressed : .enter ∈ s.pressed
  queue : pending s.queue = 0
  highlight : s.highlight = m.titles.idxOf title
  booted : ∀ h ∈ s.booted, h = m.titles.idxOf title

/-- what holds of the state where `select_entry` is -/
def Holds (m : Menu) (title : String) (moves : ℕ → Bool → Bool) (s : St) : Select → Prop
  | .prompt _ => m.boot = true ∧ s.total = m.text ∧ Untouched s
  | .menu _ => s.total = m.behind ∧ Untouched s
  | .moving titles step again _ =>
    titles = m.titles ∧ title ∈ m.titles ∧ step < m.titles.idxOf title ∧ NotEntered s ∧ Stage m moves step again s
  | .done titles => titles = m.titles ∧ Entered m title s
  | .failed _ => NotEntered s

structure Inv (m : Menu) (title : String) (moves : ℕ → Bool → Bool) (s : St) : Prop where
  reading : Reading s.vm
  holds : Holds m title moves s s.select

theorem start_inv (m : Menu) (title : String) (bootTimeout now : Time) (moves : ℕ → Bool → Bool) :
    Inv m title moves (start m bootTimeout now) := by
  have hun : Untouched (start m bootTimeout now) := ⟨⟨List.not_mem_nil, List.not_mem_nil, rfl⟩, rfl, rfl⟩
  have htotal : (start m bootTimeout now).total = m.text := rfl
  have hanswered := m.answered
  refine ⟨⟨rfl, rfl, le_rfl⟩, ?_⟩
  change Holds m title moves _ (selectBegin m.boot bootTimeout 0 now)
  unfold selectBegin
  split_ifs at hanswered ⊢ with hb
  · exact ⟨hb, htotal, hun⟩
  · exact ⟨hanswered ▸ htotal, hun⟩

/-! ## GRUB handles a key -/

theorem drawn_eq (m : Menu) (h : ℕ) : drawn m h = star :: encode (m.titles.getD h "") := by
  rw [drawn, encode_append]
  rfl

theorem below_eq {m : Menu} {title : String} {step : ℕ} (ht : title ∈ m.titles) (hs : step < m.titles.idxOf title) :
    below m step = step + 1 := by
  have := List.idxOf_lt_length_of_mem ht
  rw [below]
  omega

theorem NotEntered.handle {m : Menu} {before after : Quiet} {s : St} (h : NotEntered s) :
    NotEntered (handle m before after s) := by
  obtain ⟨hp, hq, hb⟩ := h
  unfold Grub.handle
  split
  · exact ⟨hp, hq, hb⟩
  · rename_i hqueue
    exact absurd (hqueue ▸ List.mem_cons_self) hq
  · rename_i hqueue
    exact ⟨hp, fun hm => hq (hqueue ▸ List.mem_cons_of_mem _ hm), hb⟩
  · rename_i hqueue
    exact ⟨hp, fun hm => hq (hqueue ▸ List.mem_cons_of_mem _ hm), hb⟩

theorem Stage.handle {m : Menu} {title : String} {moves : ℕ → Bool → Bool} {step : ℕ} {again : Bool} {s : St}
    {before after : Quiet} (ht : title ∈ m.titles) (hs : step < m.titles.idxOf title) (hne : NotEntered s)
    (h : Stage m moves step again s) : Stage m moves step again (handle m before after s) := by
  unfold Grub.handle
  split
  · exact h
  · rename_i hqueue
    exact absurd (hqueue ▸ List.mem_cons_self) hne.queue
  · rename_i rest hqueue
    have hpend : pending rest = pending s.queue := by simp [pending, hqueue]
    cases h with
    | still hq hh hquiet hf hsec => exact .still (hpend.trans hq) hh hquiet hf hsec
    | coming hq hh hquiet hm => exact .coming (hpend.trans hq) hh hquiet hm
    | drawn hq hh b a hshown hm => exact .drawn (hpend.trans hq) hh b a hshown hm
  · rename_i rest hqueue
    have hpend : pending rest + 1 = pending s.queue := by simp [pending, hqueue]
    cases h with
    | still hq => omega
    | drawn hq => omega
    | coming hq hh hquiet hm =>
      have hnext : below m s.highlight = step + 1 := by rw [hh, below_eq ht hs]
      have hbefore : star ∉ s.total ++ before.bytes := fun hmem =>
        (List.mem_append.1 hmem).elim hquiet before.no_star
      refine .drawn (by simp only; omega) hnext ⟨s.total ++ before.bytes, hbefore⟩ after ?_ hm
      simp only [St.total, hnext, List.append_assoc]

theorem Entered.handle {m : Menu} {title : String} {s : St} {before after : Quiet} (h : Entered m title s) :
    Entered m title (handle m before after s) := by
  obtain ⟨ht, hp, hq, hh, hb⟩ := h
  unfold Grub.handle
  split
  · exact ⟨ht, hp, hq, hh, hb⟩
  · rename_i rest hqueue
    have hpend : pending rest = pending s.queue := by simp [pending, hqueue]
    exact ⟨ht, hp, hpend.trans hq, hh, by rintro k ⟨⟩; exact hh⟩
  · rename_i rest hqueue
    have hpend : pending rest = pending s.queue := by simp [pending, hqueue]
    exact ⟨ht, hp, hpend.trans hq, hh, hb⟩
  · rename_i rest hqueue
    have hpend : pending rest + 1 = pending s.queue := by simp [pending, hqueue]
    omega

theorem Untouched.handle {m : Menu} {s : St} (h : Untouched s) (before after : Quiet) : handle m before after s = s := by
  rw [Grub.handle, h.empty]

theorem handle_inv {m : Menu} {title : String} {moves : ℕ → Bool → Bool} {s : St} (before after : Quiet)
    (h : Inv m title moves s) : Inv m title moves (handle m before after s) := by
  have hvm : (handle m before after s).vm = s.vm := by
    unfold handle
    split <;> rfl
  have hselect : (handle m before after s).select = s.select := by
    unfold handle
    split <;> rfl
  refine ⟨hvm ▸ h.reading, ?_⟩
  have hholds := h.holds
  rw [hselect]
  cases hs : s.select with
  | prompt w =>
    rw [hs] at hholds
    rwa [hholds.2.2.handle]
  | menu w =>
    rw [hs] at hholds
    rwa [hholds.2.handle]
  | moving titles step again w =>
    rw [hs] at hholds
    obtain ⟨heq, ht, hstep, hne, hstage⟩ := hholds
    exact ⟨heq, ht, hstep, hne.handle, hstage.handle ht hstep hne⟩
  | failed e =>
    rw [hs] at hholds
    exact NotEntered.handle hholds
  | done titles =>
    rw [hs] at hholds
    exact ⟨hholds.1, hholds.2.handle⟩

/-! ## The wait looks -/

theorem advance_none (moves : ℕ → Bool → Bool) (s : St) (vm : Vm) (wire : Bytes) (select : Select) :
    advance moves s vm wire (select, none) = { s with vm := vm, wire := wire, select := select } := by
  simp [advance, keys]

theorem NotEntered.press {s : St} (h : NotEntered s) (moves : ℕ → Bool → Bool) (vm : Vm) (wire : Bytes)
    (titles : List String) (step : ℕ) (again : Bool) (cursor : ℕ) (now : Time) :
    NotEntered (advance moves s vm wire (press titles step again cursor now)) := by
  obtain ⟨hp, hq, hb⟩ := h
  exact ⟨by simpa [advance, Console.press] using hp, by simpa [advance, Console.press, keys] using hq, hb⟩

theorem pending_press (moves : ℕ → Bool → Bool) (s : St) (vm : Vm) (wire : Bytes) (titles : List String) (step : ℕ)
    (again : Bool) (cursor : ℕ) (now : Time) :
    pending (advance moves s vm wire (press titles step again cursor now)).queue =
      pending s.queue + if moves step again then 1 else 0 := by
  cases h : moves step again <;> simp [pending, advance, press, keys, h]

/-- with nothing unread and no move to come, the next step's Down or the Enter goes out -/
theorem nextStep_holds {m : Menu} {title : String} {moves : ℕ → Bool → Bool} {s : St} {vm : Vm} {wire : Bytes} {k : ℕ}
    (ht : title ∈ m.titles) (hk : k ≤ m.titles.idxOf title) (hne : NotEntered s) (hq : pending s.queue = 0)
    (hh : s.highlight = k) (hquiet : star ∉ vm.unread ++ wire) (cursor : ℕ) (now : Time) :
    Holds m title moves (advance moves s vm wire (nextStep title m.titles k cursor now))
      (nextStep title m.titles k cursor now).1 := by
  unfold nextStep
  split_ifs with hlt
  · refine ⟨rfl, ht, hlt, hne.press .., ?_⟩
    have hpend := pending_press moves s vm wire m.titles k false cursor now
    rw [hq] at hpend
    cases hm : moves k false with
    | false => exact .still (by rw [hpend, hm]; rfl) hh hquiet hm nofun
    | true => exact .coming (by rw [hpend, hm]; rfl) hh hquiet (Or.inl hm)
  · have hlast : k = m.titles.idxOf title := by omega
    refine ⟨rfl, ht, by simp [advance], ?_, hh.trans hlast, ?_⟩
    · simpa [advance, keys, pending] using hq
    · simp [advance, hne.booted]

/-- the second press of a step moves only if the first one does not -/
theorem press_again_holds {m : Menu} {title : String} {moves : ℕ → Bool → Bool} {s : St} {vm : Vm} {wire : Bytes}
    {step : ℕ} (ht : title ∈ m.titles) (hs : step < m.titles.idxOf title) (hne : NotEntered s)
    (hstage : Stage m moves step false s) (htotal : vm.unread ++ wire = s.total) (cursor : ℕ) (now : Time)
    (honce : MovesOnce moves (advance moves s vm wire (press m.titles step true cursor now))) :
    Holds m title moves (advance moves s vm wire (press m.titles step true cursor now))
      (press m.titles step true cursor now).1 := by
  refine ⟨rfl, ht, hs, hne.press .., ?_⟩
  have hnot := honce step (by simp [advance, press])
  have hpend := pending_press moves s vm wire m.titles step true cursor now
  cases hstage with
  | still hq hh hquiet hf _ =>
    rw [hq] at hpend
    rw [← htotal] at hquiet
    cases hm : moves step true with
    | false => exact .still (by rw [hpend, hm]; rfl) hh hquiet hf fun _ => hm
    | true => exact .coming (by rw [hpend, hm]; rfl) hh hquiet (Or.inr rfl)
  | coming hq hh hquiet hmoved =>
    have hf : moves step false = true := hmoved.resolve_right nofun
    have hm : moves step true = false := by simpa [hf] using hnot
    rw [hq, hm] at hpend
    rw [← htotal] at hquiet
    exact .coming hpend hh hquiet (Or.inl hf)
  | drawn hq hh before after hshown hmoved =>
    have hf : moves step false = true := hmoved.resolve_right nofun
    have hm : moves step true = false := by simpa [hf] using hnot
    rw [hq, hm] at hpend
    rw [← htotal] at hshown
    exact .drawn hpend hh before after hshown (Or.inl hf)

theorem Stage.congr {m : Menu} {moves : ℕ → Bool → Bool} {step : ℕ} {again : Bool} {s t : St}
    (h : Stage m moves step again s) (hq : t.queue = s.queue) (hh : t.highlight = s.highlight)
    (ht : t.total = s.total) : Stage m moves step again t := by
  cases h with
  | still q k quiet f g => exact .still (hq ▸ q) (hh ▸ k) (ht ▸ quiet) f g
  | coming q k quiet f => exact .coming (hq ▸ q) (hh ▸ k) (ht ▸ quiet) f
  | drawn q k before after shown f => exact .drawn (hq ▸ q) (hh ▸ k) before after (ht ▸ shown) f

/-- a wait returns only where its entry is drawn, and then no `*` is left -/
theorem Stage.cut {m : Menu} {moves : ℕ → Bool → Bool} {step : ℕ} {again : Bool} {s : St} {slice rest : Bytes}
    (h : Stage m moves step again s) (hcut : cut (encode (moveCall m.titles step).needle) s.total = some (slice, rest)) :
    pending s.queue = 0 ∧ s.highlight = step + 1 ∧ star ∉ rest := by
  have hneedle : encode (moveCall m.titles step).needle = star :: encode (m.titles.getD (step + 1) "") :=
    drawn_eq m (step + 1)
  rw [hneedle] at hcut
  cases h with
  | still _ _ quiet => rw [cut_none quiet] at hcut; cases hcut
  | coming _ _ quiet => rw [cut_none quiet] at hcut; cases hcut
  | drawn q k before after shown =>
    rw [shown, drawn_eq, cut_fresh before.no_star] at hcut
    cases hcut
    exact ⟨q, k, after.no_star⟩

theorem NotEntered.advance_none {s : St} (h : NotEntered s) (moves : ℕ → Bool → Bool) (vm : Vm) (wire : Bytes)
    (select : Select) : NotEntered (advance moves s vm wire (select, none)) := by
  rw [Grub.advance_none]
  exact ⟨h.pressed, h.queue, h.booted⟩

theorem afterPrompt_holds {m : Menu} {title : String} {bootTimeout : Time} {moves : ℕ → Bool → Bool} {s : St} {vm : Vm}
    {wire : Bytes} {out : Outcome} (hb : m.boot = true) (ht : s.total = m.text) (hun : Untouched s)
    (hout : Reads (waitCall bootPrompt bootTimeout) s.total (vm.unread ++ wire) out) (cursor : ℕ) (now : Time) :
    Holds m title moves (advance moves s vm wire (afterPrompt bootTimeout cursor now out))
      (afterPrompt bootTimeout cursor now out).1 := by
  cases out with
  | waiting w =>
    rw [afterPrompt, advance_none]
    exact ⟨hb, hout.trans ht, ⟨⟨hun.pressed, hun.queue, hun.booted⟩, hun.empty, hun.highlight⟩⟩
  | raised e => exact hun.toNotEntered.advance_none ..
  | returned slice =>
    have hanswered := m.answered
    rw [if_pos hb] at hanswered
    obtain ⟨slice', hslice⟩ := hanswered
    have hcut : cut (encode bootPrompt) m.text = some (slice, vm.unread ++ wire) := ht ▸ hout
    rw [hslice] at hcut
    injection hcut with hcut
    injection hcut with _ hleft
    refine ⟨hleft.symm, ⟨⟨?_, ?_, hun.booted⟩, ?_, hun.highlight⟩⟩
    · simpa [advance, afterPrompt] using hun.pressed
    · simpa [advance, afterPrompt, keys] using hun.queue
    · simpa [advance, afterPrompt, keys] using hun.empty

theorem afterMenu_holds {m : Menu} {title : String} {bootTimeout : Time} {moves : ℕ → Bool → Bool} {s : St} {vm : Vm}
    {wire : Bytes} {out : Outcome} (ht : s.total = m.behind) (hun : Untouched s)
    (hout : Reads (waitCall menuReady bootTimeout) s.total (vm.unread ++ wire) out) (cursor : ℕ) (now : Time) :
    Holds m title moves (advance moves s vm wire (afterMenu title cursor now out))
      (afterMenu title cursor now out).1 := by
  cases out with
  | waiting w =>
    rw [afterMenu, advance_none]
    exact ⟨hout.trans ht, ⟨⟨hun.pressed, hun.queue, hun.booted⟩, hun.empty, hun.highlight⟩⟩
  | raised e => exact hun.toNotEntered.advance_none ..
  | returned slice =>
    have hcut : cut (encode menuReady) m.behind = some (slice, vm.unread ++ wire) := ht ▸ hout
    rw [m.ready] at hcut
    injection hcut with hcut
    injection hcut with hslice hleft
    simp only [afterMenu, ← hslice]
    split_ifs with htitle
    · exact nextStep_holds htitle (Nat.zero_le _) hun.toNotEntered (by rw [hun.empty]; rfl) hun.highlight
        (hleft ▸ m.rest.no_star) cursor now
    · exact hun.toNotEntered.advance_none ..

theorem afterMove_holds {m : Menu} {title : String} {moves : ℕ → Bool → Bool} {s : St} {vm : Vm} {wire : Bytes}
    {out : Outcome} {step : ℕ} {again : Bool} (ht : title ∈ m.titles) (hs : step < m.titles.idxOf title)
    (hne : NotEntered s) (hstage : Stage m moves step again s)
    (hout : Reads (moveCall m.titles step) s.total (vm.unread ++ wire) out) (cursor : ℕ) (now : Time)
    (honce : MovesOnce moves (advance moves s vm wire (afterMove title m.titles step again cursor now out))) :
    Holds m title moves (advance moves s vm wire (afterMove title m.titles step again cursor now out))
      (afterMove title m.titles step again cursor now out).1 := by
  cases out with
  | waiting w =>
    rw [afterMove, advance_none]
    exact ⟨rfl, ht, hs, ⟨hne.pressed, hne.queue, hne.booted⟩, hstage.congr rfl rfl hout⟩
  | returned slice =>
    obtain ⟨hq, hh, hquiet⟩ := hstage.cut hout
    exact nextStep_holds ht hs hne hq hh hquiet cursor now
  | raised e =>
    cases e with
    | timedOut needle timeout read =>
      cases again with
      | true => exact hne.advance_none ..
      | false => exact press_again_holds ht hs hne hstage hout cursor now honce
    | _ => exact hne.advance_none ..

theorem poll_inv {m : Menu} {title : String} {bootTimeout : Time} {moves : ℕ → Bool → Bool} {s : St} {n : ℕ} {p : Poll}
    {next : Time} (h : Inv m title moves s) (honce : MovesOnce moves (poll title bootTimeout moves n p next s)) :
    Inv m title moves (poll title bootTimeout moves n p next s) := by
  have hholds := h.holds
  have harrived (call : Call) (w : Wait) :=
    @pass_arrived call s.vm w { p with received := arrived (s.wire.take n) } (s.wire.take n) h.reading rfl (s.wire.drop n)
  have htotal : s.vm.unread ++ (s.wire.take n ++ s.wire.drop n) = s.total := by
    rw [List.take_append_drop, St.total]
  rw [htotal] at harrived
  unfold poll at honce ⊢
  cases hs : s.select with
  | prompt w =>
    rw [hs] at hholds
    obtain ⟨hb, ht, hun⟩ := hholds
    obtain ⟨hread, hout⟩ := harrived (waitCall bootPrompt bootTimeout) w
    exact ⟨hread, afterPrompt_holds hb ht hun hout _ _⟩
  | menu w =>
    rw [hs] at hholds
    obtain ⟨ht, hun⟩ := hholds
    obtain ⟨hread, hout⟩ := harrived (waitCall menuReady bootTimeout) w
    exact ⟨hread, afterMenu_holds ht hun hout _ _⟩
  | moving titles step again w =>
    rw [hs] at hholds honce
    obtain ⟨rfl, ht, hstep, hne, hstage⟩ := hholds
    obtain ⟨hread, hout⟩ := harrived (moveCall m.titles step) w
    exact ⟨hread, afterMove_holds ht hstep hne hstage hout _ _ honce⟩
  | done titles =>
    rw [hs] at hholds
    obtain ⟨heq, ht, hp, hq, hh, hb⟩ := hholds
    simp only [selectPoll, advance_none]
    exact ⟨h.reading, heq, ht, hp, hq, hh, hb⟩
  | failed e =>
    rw [hs] at hholds
    exact ⟨h.reading, NotEntered.advance_none hholds ..⟩

/-! ## The entry booted -/

theorem step_inv {m : Menu} {title : String} {bootTimeout : Time} {moves : ℕ → Bool → Bool} {s : St} {op : Op}
    (h : Inv m title moves s) (honce : MovesOnce moves (step m title bootTimeout moves s op)) :
    Inv m title moves (step m title bootTimeout moves s op) := by
  cases op with
  | handle before after => exact handle_inv before after h
  | poll n p next => exact poll_inv h honce

theorem step_pressed (m : Menu) (title : String) (bootTimeout : Time) (moves : ℕ → Bool → Bool) (s : St) (op : Op) :
    s.pressed <+: (step m title bootTimeout moves s op).pressed := by
  cases op with
  | handle before after =>
    simp only [step, handle]
    split <;> exact List.prefix_rfl
  | poll n p next => exact List.prefix_append _ _

theorem foldl_pressed (m : Menu) (title : String) (bootTimeout : Time) (moves : ℕ → Bool → Bool) (s : St) (ops : List Op) :
    s.pressed <+: (ops.foldl (step m title bootTimeout moves) s).pressed := by
  induction ops generalizing s with
  | nil => exact List.prefix_rfl
  | cons op ops ih => exact (step_pressed m title bootTimeout moves s op).trans (ih _)

theorem foldl_inv {m : Menu} {title : String} {bootTimeout : Time} {moves : ℕ → Bool → Bool} {s : St} {ops : List Op}
    (h : Inv m title moves s) (honce : MovesOnce moves (ops.foldl (step m title bootTimeout moves) s)) :
    Inv m title moves (ops.foldl (step m title bootTimeout moves) s) := by
  induction ops generalizing s with
  | nil => exact h
  | cons op ops ih =>
    have hstep : MovesOnce moves (step m title bootTimeout moves s op) := fun k hk =>
      honce k ((foldl_pressed m title bootTimeout moves (step m title bootTimeout moves s op) ops).subset hk)
    exact ih (step_inv h hstep) honce

/-- **The entry asked for, or none.** Where no entry's Down moves both times it is pressed, the entry booted is the title's,
and the Enter is sent exactly by a `select_entry` that returned: one that raised has sent none. -/
theorem select_entry_boots (m : Menu) (title : String) (bootTimeout now : Time) (moves : ℕ → Bool → Bool) (ops : List Op)
    (honce : MovesOnce moves (run m title bootTimeout now moves ops)) :
    (∀ h ∈ (run m title bootTimeout now moves ops).booted, m.titles[h]? = some title) ∧
      (.enter ∈ (run m title bootTimeout now moves ops).pressed ↔
        ∃ titles, (run m title bootTimeout now moves ops).select = .done titles) ∧
      ((run m title bootTimeout now moves ops).booted ≠ none →
        .enter ∈ (run m title bootTimeout now moves ops).pressed) := by
  have hinv : Inv m title moves (run m title bootTimeout now moves ops) :=
    foldl_inv (start_inv m title bootTimeout now moves) honce
  have hholds := hinv.holds
  generalize run m title bootTimeout now moves ops = s at hholds
  have hno (hne : NotEntered s) (hdone : ∀ titles, s.select ≠ .done titles) :
      (∀ h ∈ s.booted, m.titles[h]? = some title) ∧ (.enter ∈ s.pressed ↔ ∃ titles, s.select = .done titles) ∧
        (s.booted ≠ none → .enter ∈ s.pressed) := by
    refine ⟨fun h hb => ?_, ⟨fun h => absurd h hne.pressed, fun ⟨t, ht⟩ => absurd ht (hdone t)⟩,
      fun h => absurd hne.booted h⟩
    rw [hne.booted] at hb
    cases hb
  cases hs : s.select with
  | prompt w => rw [hs] at hholds; rw [← hs]; exact hno hholds.2.2.toNotEntered (hs ▸ nofun)
  | menu w => rw [hs] at hholds; rw [← hs]; exact hno hholds.2.toNotEntered (hs ▸ nofun)
  | moving titles step again w => rw [hs] at hholds; rw [← hs]; exact hno hholds.2.2.2.1 (hs ▸ nofun)
  | failed e => rw [hs] at hholds; rw [← hs]; exact hno hholds (hs ▸ nofun)
  | done titles =>
    rw [hs] at hholds
    obtain ⟨-, ht, hp, -, -, hb⟩ := hholds
    refine ⟨fun h hh => ?_, ⟨fun _ => ⟨titles, rfl⟩, fun _ => hp⟩, fun _ => hp⟩
    rw [hb h hh]
    exact List.getElem?_idxOf ht

/-- a menu of three entries, from a firmware without a prompt -/
def threeEntries : Menu where
  boot := false
  text := encode "*Boot A  \n Boot B  \n Boot C  \nThe highlighted entry will be executed automatically in 5s"
  behind := encode "*Boot A  \n Boot B  \n Boot C  \nThe highlighted entry will be executed automatically in 5s"
  answered := rfl
  render := encode "*Boot A  \n Boot B  \n Boot C  \nThe highlighted entry will be executed automatically"
  rest := ⟨encode " in 5s", by decide +kernel⟩
  ready := by decide +kernel

def nothing : Quiet := ⟨[], List.not_mem_nil⟩

/-- the menu is read, the Down for the second entry draws nothing in time and is pressed again -/
def pressedTwice : List Op :=
  [.poll 100 (showing [] 0) 0, .poll 0 (showing [] 10) 10]

def lostDown : St :=
  run threeEntries "Boot B" 600 0 (fun _ again => again)
    (pressedTwice ++ [.handle nothing nothing, .handle nothing nothing, .poll 100 (showing [] 11) 11,
      .handle nothing nothing])

def lateDown : St :=
  run threeEntries "Boot B" 600 0 (fun _ _ => true)
    (pressedTwice ++ [.handle nothing nothing, .poll 100 (showing [] 11) 11, .handle nothing nothing,
      .handle nothing nothing])

/-- the first Down is lost, the second moves -/
theorem lost_down_boots_title : lostDown.booted = some 1 ∧ threeEntries.titles[1]? = some "Boot B" := by
  have hbooted : lostDown.booted = some 1 := by decide +kernel
  refine ⟨hbooted, (select_entry_boots threeEntries "Boot B" 600 0 (fun _ again => again) _ ?_).1 1 hbooted⟩
  intro step _ h
  exact Bool.noConfusion h.1

/-- the first Down is only late: it moves, the second one moves, and the Enter boots the entry behind -/
theorem late_down_boots_next :
    lateDown.booted = some 2 ∧ threeEntries.titles = ["Boot A", "Boot B", "Boot C"] := by
  decide +kernel

end DrtmTest.Grub
