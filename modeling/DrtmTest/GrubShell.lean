/-
GRUB's own shell under `type_entry`: which lines it runs, however long they take and in whatever pieces the console comes.

`type_entry` sends a line a key at a time, and waits for the shell's prompt ahead of each. GRUB handles the keys in the order
they were sent, each at any time after it was sent. It may draw at any time, and take any time over a line. A key it
handles while no line is edited is lost.

- `handle_inv`, `finish_inv`, `send_inv`, `poll_inv`: what is unread holds the shell's prompt exactly when GRUB is back at it
  from every line it was sent.
- `type_entry_runs`: no key is lost, the lines that run are those asked for in their order, and a `type_entry` that raised
  has not sent the boot.
-/
import DrtmTest.Grub

namespace DrtmTest.GrubShell

open DrtmTest.Find DrtmTest.Text DrtmTest.QemuVm DrtmTest.Console
open DrtmTest.Grub (Menu Reading Reads arrived pass_arrived)

/-! ## `type_entry` -/

def grubPrompt : String := "grub> "

/-- the key that opens the shell -/
def shellKey : UInt8 := 0x63

/-- what `type_entry` writes to the serial port -/
inductive Typed where
  /-- the answer to the firmware's prompt -/
  | answer
  | key (k : UInt8)

/-- where `type_entry` is -/
inductive Typing where
  | prompt (w : Wait)
  | menu (w : Wait)
  /-- the wait for the shell's prompt, ahead of the commands left -/
  | shell (titles left : List String) (w : Wait)
  /-- the keys of a line still to go out, and the commands behind it: none behind the boot -/
  | line (titles : List String) (keys : Bytes) (left : Option (List String))
  | done (titles : List String)
  | failed (e : ExpectError)

def typeBegin (boot : Bool) (bootTimeout : Time) (cursor : ℕ) (now : Time) : Typing :=
  if boot then .prompt (begin (waitCall bootPrompt bootTimeout) cursor now)
  else .menu (begin (waitCall menuReady bootTimeout) cursor now)

/-- the head of the loop over the commands -/
def typeNext (titles : List String) : List String → Typing
  | command :: left => .line titles (encode command ++ carriageReturn) (some left)
  | [] => .line titles (encode "boot" ++ carriageReturn) none

/-- one key of `_type`. `now` is the clock where the next wait begins. -/
def typeKey (commandTimeout : Time) (cursor : ℕ) (now : Time) : Typing → Typing × Option Typed
  | .line titles [k] (some left) =>
    (.shell titles left (begin (waitCall grubPrompt commandTimeout) cursor now), some (.key k))
  | .line titles [k] none => (.done titles, some (.key k))
  | .line titles (k :: keys) left => (.line titles keys left, some (.key k))
  | s => (s, none)

def afterPrompt (bootTimeout : Time) (now : Time) (cursor : ℕ) : Outcome → Typing × Option Typed
  | .waiting w => (.prompt w, none)
  | .raised e => (.failed e, none)
  | .returned _ => (.menu (begin (waitCall menuReady bootTimeout) cursor now), some .answer)

def afterMenu (commands : List String) (commandTimeout : Time) (now : Time) (cursor : ℕ) :
    Outcome → Typing × Option Typed
  | .waiting w => (.menu w, none)
  | .raised e => (.failed e, none)
  | .returned slice =>
    (.shell (menuTitles (decodeReplace slice)) commands (begin (waitCall grubPrompt commandTimeout) cursor now),
      some (.key shellKey))

def afterShell (titles left : List String) : Outcome → Typing × Option Typed
  | .waiting w => (.shell titles left w, none)
  | .raised e => (.failed e, none)
  | .returned _ => (typeNext titles left, none)

/-- the titles `type_entry` returned -/
def Typing.returned : Typing → Option (List String)
  | .done titles => some titles
  | _ => none

def Typing.raised : Typing → Bool
  | .failed _ => true
  | _ => false

/-! ## GRUB -/

inductive Shell where
  | menu
  | editing (line : Bytes)
  /-- the shell opens, or a line runs -/
  | busy

/-- a key that GRUB's line editor takes as a character -/
def isPlain (k : UInt8) : Bool := 0x20 ≤ k && k < 0x7F

structure St where
  vm : Vm
  typing : Typing
  /-- the keys GRUB has not handled yet -/
  queue : Bytes
  shell : Shell
  /-- the lines given to run, in order -/
  ran : List Bytes
  lost : Bytes
  /-- what is drawn since the last prompt -/
  shown : Bytes
  /-- what is drawn and not yet in the buffer -/
  wire : Bytes

inductive Op where
  /-- GRUB draws: an echo, what a command prints, a debug line -/
  | draw (b : Bytes)
  /-- GRUB handles a key. One that is no character, a tab or an escape, leaves `edited` of the line. -/
  | handle (edited : Bytes)
  /-- the shell is open, or the line has run: the prompt is drawn -/
  | finish
  /-- `_type` sends a key -/
  | send (now : Time)
  /-- `n` bytes reach the buffer, and the wait looks -/
  | poll (n : ℕ) (p : Poll) (now : Time)

def start (m : Menu) (bootTimeout now : Time) : St where
  vm := fresh
  typing := typeBegin m.boot bootTimeout 0 now
  queue := []
  shell := .menu
  ran := []
  lost := []
  shown := m.rest.bytes
  wire := m.text

def draw (b : Bytes) (s : St) : St := { s with shown := s.shown ++ b, wire := s.wire ++ b }

def press (edited : Bytes) (k : UInt8) (s : St) : St :=
  match s.shell with
  | .menu => if k = shellKey then { s with shell := .busy } else { s with lost := s.lost ++ [k] }
  | .editing line =>
    if [k] = carriageReturn then { s with shell := .busy, ran := s.ran ++ [line] }
    else { s with shell := .editing (if isPlain k then line ++ [k] else edited) }
  | .busy => { s with lost := s.lost ++ [k] }

def handle (edited : Bytes) (s : St) : St :=
  match s.queue with
  | [] => s
  | k :: keys => press edited k { s with queue := keys }

def finish (s : St) : St :=
  match s.shell with
  | .busy => { s with shell := .editing [], shown := [], wire := s.wire ++ encode grubPrompt }
  | _ => s

/-- the key GRUB gets, if what was written goes to GRUB -/
def toGrub : Option Typed → Bytes
  | some (.key k) => [k]
  | _ => []

def send (commandTimeout now : Time) (s : St) : St :=
  let (typing, typed) := typeKey commandTimeout s.vm.cursor now s.typing
  { s with typing := typing, queue := s.queue ++ toGrub typed }

/-- one look of the wait for `call`, and what follows it -/
def look (call : Call) (w : Wait) (n : ℕ) (p : Poll) (next : ℕ → Outcome → Typing × Option Typed) (s : St) : St :=
  let (vm, out) := pass call s.vm w { p with received := arrived (s.wire.take n) }
  let (typing, typed) := next vm.cursor out
  { s with vm := vm, typing := typing, queue := s.queue ++ toGrub typed, wire := s.wire.drop n }

section

variable (m : Menu) (commands : List String) (bootTimeout commandTimeout : Time)

def poll (n : ℕ) (p : Poll) (now : Time) (s : St) : St :=
  match s.typing with
  | .prompt w => look (waitCall bootPrompt bootTimeout) w n p (afterPrompt bootTimeout now) s
  | .menu w => look (waitCall menuReady bootTimeout) w n p (afterMenu commands commandTimeout now) s
  | .shell titles left w => look (waitCall grubPrompt commandTimeout) w n p (fun _ => afterShell titles left) s
  | _ => s

def step (s : St) : Op → St
  | .draw b => draw b s
  | .handle edited => handle edited s
  | .finish => finish s
  | .send now => send commandTimeout now s
  | .poll n p now => poll commands bootTimeout commandTimeout n p now s

def after (s : St) (ops : List Op) : St := ops.foldl (step commands bootTimeout commandTimeout) s

def run (now : Time) (ops : List Op) : St := after commands bootTimeout commandTimeout (start m bootTimeout now) ops

end

/-- what is drawn between two prompts does not spell one -/
def Calm (s : St) : Prop := find (encode grubPrompt) s.shown = none

instance (s : St) : Decidable (Calm s) := inferInstanceAs (Decidable (_ = _))

/-- every character of the command is one to GRUB's line editor -/
def Plain (command : String) : Prop := ∀ k ∈ encode command, isPlain k = true

instance (command : String) : Decidable (Plain command) := inferInstanceAs (Decidable (∀ _ ∈ _, _))

/-! ## Where GRUB is -/

/-- GRUB shows its menu and was sent nothing -/
structure Idle (s : St) : Prop where
  shell : s.shell = .menu
  queue : s.queue = []
  ran : s.ran = []

/-- GRUB was sent the lines, and is not back at its prompt from the last of them -/
inductive Busy (lines : List Bytes) (s : St) : Prop
  | opens (first : lines = []) (shell : s.shell = .menu) (queue : s.queue = [shellKey]) (ran : s.ran = [])
  | edits (front : List Bytes) (line typed : Bytes) (last : lines = front ++ [line])
      (plain : ∀ k ∈ line, isPlain k = true) (shell : s.shell = .editing typed)
      (queue : typed ++ s.queue = line ++ carriageReturn) (rest : s.queue ≠ []) (ran : s.ran = front)
  | runs (shell : s.shell = .busy) (queue : s.queue = []) (ran : s.ran = lines)

/-- GRUB is back at its prompt from the lines it was sent -/
structure Prompted (lines : List Bytes) (s : St) : Prop where
  shell : s.shell = .editing []
  queue : s.queue = []
  ran : s.ran = lines

/-- behind the lines GRUB edits one of which the keys are not sent yet -/
structure Edits (lines : List Bytes) (line keys : Bytes) (s : St) : Prop where
  plain : ∀ k ∈ line, isPlain k = true
  typed : ∃ typed, s.shell = .editing typed ∧ typed ++ (s.queue ++ keys) = line ++ carriageReturn
  ran : s.ran = lines

theorem next_key {typed line keys : Bytes} {k : UInt8} (h : typed ++ k :: keys = line ++ carriageReturn) :
    keys = [] ∧ [k] = carriageReturn ∧ typed = line ∨ keys ≠ [] ∧ k ∈ line := by
  rcases keys.eq_nil_or_concat with rfl | ⟨front, last, rfl⟩
  · obtain ⟨htyped, hk⟩ := List.append_inj' h rfl
    exact Or.inl ⟨rfl, hk, htyped⟩
  · rw [List.concat_eq_append] at h ⊢
    have hsplit : (typed ++ k :: front) ++ [last] = line ++ carriageReturn := by rw [← h]; simp
    obtain ⟨rfl, -⟩ := List.append_inj' hsplit rfl
    exact Or.inr ⟨by simp, by simp⟩

theorem isPlain_ne_return {k : UInt8} (h : isPlain k = true) : [k] ≠ carriageReturn := by
  intro hk
  cases hk
  exact absurd h (by decide)

theorem handle_empty {s : St} (h : s.queue = []) (edited : Bytes) : handle edited s = s := by
  rw [handle, h]

theorem handle_plain {s : St} {line keys : Bytes} {k : UInt8} (hq : s.queue = k :: keys) (hs : s.shell = .editing line)
    (hk : isPlain k = true) (edited : Bytes) :
    handle edited s = { s with queue := keys, shell := .editing (line ++ [k]) } := by
  simp only [handle, hq, press, hs, if_neg (isPlain_ne_return hk), if_pos hk]

theorem handle_enter {s : St} {line keys : Bytes} {k : UInt8} (hq : s.queue = k :: keys) (hs : s.shell = .editing line)
    (hk : [k] = carriageReturn) (edited : Bytes) :
    handle edited s = { s with queue := keys, shell := .busy, ran := s.ran ++ [line] } := by
  simp only [handle, hq, press, hs, if_pos hk]

theorem Busy.handle {lines : List Bytes} {s : St} (h : Busy lines s) (edited : Bytes) :
    Busy lines (handle edited s) ∧ (handle edited s).lost = s.lost := by
  cases h with
  | opens first shell queue ran =>
    have hpress : GrubShell.handle edited s = { s with queue := [], shell := .busy } := by
      simp only [GrubShell.handle, queue, press, shell, if_true]
    rw [hpress]
    exact ⟨.runs rfl rfl (by simp only [ran, first]), rfl⟩
  | runs shell queue ran =>
    rw [handle_empty queue]
    exact ⟨.runs shell queue ran, rfl⟩
  | edits front line typed last plain shell queue rest ran =>
    obtain ⟨k, keys, hqueue⟩ := List.exists_cons_of_ne_nil rest
    rw [hqueue] at queue
    rcases next_key queue with ⟨rfl, hk, rfl⟩ | ⟨hkeys, hk⟩
    · rw [handle_enter hqueue shell hk]
      exact ⟨.runs rfl rfl (by rw [last, ← ran]), rfl⟩
    · rw [handle_plain hqueue shell (plain k hk)]
      exact ⟨.edits front line (typed ++ [k]) last plain rfl (by simpa using queue) hkeys ran, rfl⟩

theorem Edits.handle {lines : List Bytes} {line keys : Bytes} {s : St} (h : Edits lines line keys s) (hkeys : keys ≠ [])
    (edited : Bytes) : Edits lines line keys (handle edited s) ∧ (handle edited s).lost = s.lost := by
  obtain ⟨plain, ⟨typed, shell, queue⟩, ran⟩ := h
  rcases hqueue : s.queue with - | ⟨k, rest⟩
  · rw [handle_empty hqueue]
    exact ⟨⟨plain, ⟨typed, shell, queue⟩, ran⟩, rfl⟩
  · rw [hqueue, List.cons_append] at queue
    rcases next_key queue with ⟨hnil, -, -⟩ | ⟨-, hk⟩
    · exact absurd (List.append_eq_nil_iff.1 hnil).2 hkeys
    · rw [handle_plain hqueue shell (plain k hk)]
      exact ⟨⟨plain, ⟨typed ++ [k], rfl, by simpa using queue⟩, ran⟩, rfl⟩

/-- GRUB is where it was, with the same keys to come -/
structure Same (s t : St) : Prop where
  shell : t.shell = s.shell
  queue : t.queue = s.queue
  ran : t.ran = s.ran

section

variable {lines : List Bytes} {line keys : Bytes} {s t : St}

theorem Idle.same (h : Idle s) (ht : Same s t) : Idle t :=
  ⟨ht.shell.trans h.shell, ht.queue.trans h.queue, ht.ran.trans h.ran⟩

theorem Busy.same (h : Busy lines s) (ht : Same s t) : Busy lines t := by
  obtain ⟨hs, hq, hr⟩ := ht
  cases h with
  | opens first shell queue ran => exact .opens first (hs.trans shell) (hq.trans queue) (hr.trans ran)
  | edits front line typed last plain shell queue rest ran =>
    exact .edits front line typed last plain (hs.trans shell) (hq ▸ queue) (hq ▸ rest) (hr.trans ran)
  | runs shell queue ran => exact .runs (hs.trans shell) (hq.trans queue) (hr.trans ran)

theorem Prompted.same (h : Prompted lines s) (ht : Same s t) : Prompted lines t :=
  ⟨ht.shell.trans h.shell, ht.queue.trans h.queue, ht.ran.trans h.ran⟩

theorem Edits.same (h : Edits lines line keys s) (ht : Same s t) : Edits lines line keys t := by
  obtain ⟨plain, ⟨typed, shell, queue⟩, ran⟩ := h
  exact ⟨plain, ⟨typed, ht.shell.trans shell, ht.queue ▸ queue⟩, ht.ran.trans ran⟩

end

/-! ## The invariant -/

/-- all that can still be read -/
def St.total (s : St) : Bytes := s.vm.unread ++ s.wire

/-- the line of which the keys go out, and what is left behind it -/
def Follows (commands sent : List String) (line : String) : Option (List String) → Prop
  | some left => commands = sent ++ line :: left
  | none => commands = sent ∧ line = "boot"

/-- what is unread while GRUB is on its way to the prompt, and behind it -/
inductive Awaits (lines : List Bytes) (s : St) : Prop
  | busy (busy : Busy lines s) (total : s.total = s.shown)
  | prompted (prompted : Prompted lines s) (before : Bytes) (calm : find (encode grubPrompt) before = none)
      (total : s.total = before ++ encode grubPrompt ++ s.shown)

/-- GRUB was sent the lines -/
def Sent (lines : List Bytes) (s : St) : Prop := Busy lines s ∨ Prompted lines s

section

variable (m : Menu) (commands : List String)

/-- what holds of GRUB and the console where `type_entry` is -/
def Holds (s : St) : Typing → Prop
  | .prompt _ => m.boot = true ∧ Idle s ∧ ∃ more, s.total = m.text ++ more ∧ s.shown = m.rest.bytes ++ more
  | .menu _ => Idle s ∧ ∃ more, s.total = m.behind ++ more ∧ s.shown = m.rest.bytes ++ more
  | .shell titles left _ => titles = m.titles ∧ ∃ sent, commands = sent ++ left ∧ Awaits (sent.map encode) s
  | .line titles keys left => titles = m.titles ∧ keys ≠ [] ∧ s.total = s.shown ∧
      ∃ sent line, Follows commands sent line left ∧ Edits (sent.map encode) (encode line) keys s
  | .done titles => titles = m.titles ∧ Sent ((commands ++ ["boot"]).map encode) s
  | .failed _ => Idle s ∨ ∃ sent, sent <+: commands ∧ Sent (sent.map encode) s

structure Inv (s : St) : Prop where
  reading : Reading s.vm
  lost : s.lost = []
  holds : Holds m commands s s.typing

end

variable {m : Menu} {commands : List String} {bootTimeout commandTimeout : Time}

theorem start_inv (now : Time) : Inv m commands (start m bootTimeout now) := by
  have hidle : Idle (start m bootTimeout now) := ⟨rfl, rfl, rfl⟩
  have hshown : (start m bootTimeout now).shown = m.rest.bytes ++ [] := (List.append_nil _).symm
  have htotal : (start m bootTimeout now).total = m.text ++ [] := (List.append_nil _).symm
  have hanswered := m.answered
  refine ⟨⟨rfl, rfl, le_rfl⟩, rfl, ?_⟩
  change Holds m commands _ (typeBegin m.boot bootTimeout 0 now)
  unfold typeBegin
  split_ifs at hanswered ⊢ with hb
  · exact ⟨hb, hidle, [], htotal, hshown⟩
  · exact ⟨hidle, [], hanswered ▸ htotal, hshown⟩

/-! ## GRUB goes on -/

theorem draw_total (b : Bytes) (s : St) : (draw b s).total = s.total ++ b := (List.append_assoc _ _ _).symm

theorem Sent.same {lines : List Bytes} {s t : St} (h : Sent lines s) (ht : Same s t) : Sent lines t :=
  h.imp (·.same ht) (·.same ht)

theorem draw_inv {s : St} (h : Inv m commands s) (b : Bytes) : Inv m commands (draw b s) := by
  have hsame : Same s (draw b s) := ⟨rfl, rfl, rfl⟩
  have hholds := h.holds
  refine ⟨h.reading, h.lost, ?_⟩
  change Holds m commands _ s.typing
  cases hs : s.typing with
  | prompt w =>
    rw [hs] at hholds
    obtain ⟨hb, hidle, more, htotal, hshown⟩ := hholds
    exact ⟨hb, hidle.same hsame, more ++ b, by rw [draw_total, htotal, List.append_assoc],
      by rw [draw, hshown, List.append_assoc]⟩
  | menu w =>
    rw [hs] at hholds
    obtain ⟨hidle, more, htotal, hshown⟩ := hholds
    exact ⟨hidle.same hsame, more ++ b, by rw [draw_total, htotal, List.append_assoc],
      by rw [draw, hshown, List.append_assoc]⟩
  | shell titles left w =>
    rw [hs] at hholds
    obtain ⟨ht, sent, hsplit, hawaits⟩ := hholds
    refine ⟨ht, sent, hsplit, ?_⟩
    cases hawaits with
    | busy busy total => exact .busy (busy.same hsame) (by rw [draw_total, total]; rfl)
    | prompted prompted before calm total =>
      exact .prompted (prompted.same hsame) before calm (by rw [draw_total, total, List.append_assoc]; rfl)
  | line titles keys left =>
    rw [hs] at hholds
    obtain ⟨ht, hkeys, htotal, sent, line, hfollows, hedits⟩ := hholds
    exact ⟨ht, hkeys, by rw [draw_total, htotal]; rfl, sent, line, hfollows, hedits.same hsame⟩
  | done titles =>
    rw [hs] at hholds
    exact ⟨hholds.1, hholds.2.same hsame⟩
  | failed e =>
    rw [hs] at hholds
    rcases hholds with hidle | ⟨sent, hsent, hgrub⟩
    · exact Or.inl (hidle.same hsame)
    · exact Or.inr ⟨sent, hsent, hgrub.same hsame⟩

theorem handle_frame (edited : Bytes) (s : St) :
    (handle edited s).vm = s.vm ∧ (handle edited s).typing = s.typing ∧ (handle edited s).total = s.total ∧
      (handle edited s).shown = s.shown := by
  unfold handle
  split
  · exact ⟨rfl, rfl, rfl, rfl⟩
  · unfold press
    split <;> try split_ifs
    all_goals exact ⟨rfl, rfl, rfl, rfl⟩

theorem Sent.handle {lines : List Bytes} {s : St} (h : Sent lines s) (edited : Bytes) :
    Sent lines (handle edited s) ∧ (handle edited s).lost = s.lost := by
  rcases h with hbusy | hprompted
  · exact ⟨Or.inl (hbusy.handle edited).1, (hbusy.handle edited).2⟩
  · rw [handle_empty hprompted.queue]
    exact ⟨Or.inr hprompted, rfl⟩

theorem handle_inv {s : St} (h : Inv m commands s) (edited : Bytes) : Inv m commands (handle edited s) := by
  obtain ⟨hvm, htyping, htotal', hshown'⟩ := handle_frame edited s
  have hholds := h.holds
  have hstill (hq : s.queue = []) : Inv m commands (handle edited s) := (handle_empty hq edited).symm ▸ h
  have hmoves (hlost : (handle edited s).lost = s.lost) (hnow : Holds m commands (handle edited s) s.typing) :
      Inv m commands (handle edited s) := ⟨hvm ▸ h.reading, hlost.trans h.lost, htyping.symm ▸ hnow⟩
  cases hs : s.typing with
  | prompt w =>
    rw [hs] at hholds
    exact hstill hholds.2.1.queue
  | menu w =>
    rw [hs] at hholds
    exact hstill hholds.1.queue
  | shell titles left w =>
    rw [hs] at hholds hmoves
    obtain ⟨ht, sent, hsplit, hawaits⟩ := hholds
    cases hawaits with
    | prompted prompted => exact hstill prompted.queue
    | busy busy total =>
      obtain ⟨hbusy, hlost⟩ := busy.handle edited
      exact hmoves hlost ⟨ht, sent, hsplit, .busy hbusy (by rw [htotal', total, hshown'])⟩
  | line titles keys left =>
    rw [hs] at hholds hmoves
    obtain ⟨ht, hkeys, htotal, sent, line, hfollows, hedits⟩ := hholds
    obtain ⟨hedits', hlost⟩ := hedits.handle hkeys edited
    exact hmoves hlost ⟨ht, hkeys, by rw [htotal', htotal, hshown'], sent, line, hfollows, hedits'⟩
  | done titles =>
    rw [hs] at hholds hmoves
    obtain ⟨hsent, hlost⟩ := hholds.2.handle edited
    exact hmoves hlost ⟨hholds.1, hsent⟩
  | failed e =>
    rw [hs] at hholds hmoves
    rcases hholds with hidle | ⟨sent, hpre, hgrub⟩
    · exact hstill hidle.queue
    · obtain ⟨hsent, hlost⟩ := hgrub.handle edited
      exact hmoves hlost (Or.inr ⟨sent, hpre, hsent⟩)

theorem finish_other {s : St} (h : s.shell ≠ .busy) : finish s = s := by
  unfold finish
  split
  · rename_i hbusy
    exact absurd hbusy h
  · rfl

/-- only a shell that is busy draws its prompt -/
theorem Busy.finish {lines : List Bytes} {s : St} (h : Busy lines s) :
    finish s = s ∨ Prompted lines (finish s) ∧ (finish s).total = s.total ++ encode grubPrompt ∧ (finish s).shown = [] := by
  cases h with
  | opens first shell => exact Or.inl (finish_other (shell ▸ nofun))
  | edits front line typed last plain shell => exact Or.inl (finish_other (shell ▸ nofun))
  | runs shell queue ran =>
    rw [GrubShell.finish, shell]
    exact Or.inr ⟨⟨rfl, queue, ran⟩, (List.append_assoc _ _ _).symm, rfl⟩

theorem Sent.finish {lines : List Bytes} {s : St} (h : Sent lines s) : Sent lines (finish s) := by
  rcases h with hbusy | hprompted
  · rcases hbusy.finish with hsame | ⟨hprompted, -⟩
    · rw [hsame]
      exact Or.inl hbusy
    · exact Or.inr hprompted
  · rw [finish_other (hprompted.shell ▸ nofun)]
    exact Or.inr hprompted

theorem finish_frame (s : St) : (finish s).vm = s.vm ∧ (finish s).typing = s.typing ∧ (finish s).lost = s.lost := by
  unfold finish
  split <;> exact ⟨rfl, rfl, rfl⟩

theorem finish_inv {s : St} (h : Inv m commands s) (hcalm : Calm s) : Inv m commands (finish s) := by
  obtain ⟨hvm, htyping, hlost⟩ := finish_frame s
  have hholds := h.holds
  have hstill (hs : s.shell ≠ .busy) : Inv m commands (finish s) := (finish_other hs).symm ▸ h
  have hmoves (hnow : Holds m commands (finish s) s.typing) : Inv m commands (finish s) :=
    ⟨hvm ▸ h.reading, hlost.trans h.lost, htyping.symm ▸ hnow⟩
  cases hs : s.typing with
  | prompt w =>
    rw [hs] at hholds
    exact hstill (hholds.2.1.shell ▸ nofun)
  | menu w =>
    rw [hs] at hholds
    exact hstill (hholds.1.shell ▸ nofun)
  | shell titles left w =>
    rw [hs] at hholds hmoves
    obtain ⟨ht, sent, hsplit, hawaits⟩ := hholds
    cases hawaits with
    | prompted prompted => exact hstill (prompted.shell ▸ nofun)
    | busy busy total =>
      rcases busy.finish with hsame | ⟨hprompted, htotal, hshown⟩
      · exact hsame.symm ▸ h
      · exact hmoves ⟨ht, sent, hsplit, .prompted hprompted s.shown hcalm (by rw [htotal, total, hshown, List.append_nil])⟩
  | line titles keys left =>
    rw [hs] at hholds
    obtain ⟨-, -, -, sent, line, -, hedits⟩ := hholds
    obtain ⟨typed, hshell, -⟩ := hedits.typed
    exact hstill (hshell ▸ nofun)
  | done titles =>
    rw [hs] at hholds hmoves
    exact hmoves ⟨hholds.1, hholds.2.finish⟩
  | failed e =>
    rw [hs] at hholds hmoves
    rcases hholds with hidle | ⟨sent, hpre, hgrub⟩
    · exact hstill (hidle.shell ▸ nofun)
    · exact hmoves (Or.inr ⟨sent, hpre, hgrub.finish⟩)

/-! ## `type_entry` goes on -/

/-- with its last key a line is GRUB's -/
theorem Edits.sent {lines : List Bytes} {line : Bytes} {k : UInt8} {s t : St} (h : Edits lines line [k] s)
    (hshell : t.shell = s.shell) (hqueue : t.queue = s.queue ++ [k]) (hran : t.ran = s.ran) :
    Busy (lines ++ [line]) t := by
  obtain ⟨plain, ⟨typed, shell, queue⟩, ran⟩ := h
  exact .edits lines line typed rfl plain (hshell.trans shell) (hqueue ▸ queue) (by simp [hqueue]) (hran.trans ran)

theorem Edits.key {lines : List Bytes} {line keys : Bytes} {k : UInt8} {s t : St} (h : Edits lines line (k :: keys) s)
    (hshell : t.shell = s.shell) (hqueue : t.queue = s.queue ++ [k]) (hran : t.ran = s.ran) : Edits lines line keys t := by
  obtain ⟨plain, ⟨typed, shell, queue⟩, ran⟩ := h
  exact ⟨plain, ⟨typed, hshell.trans shell, by rw [hqueue]; simpa using queue⟩, hran.trans ran⟩

theorem send_inv {s : St} (h : Inv m commands s) (now : Time) : Inv m commands (send commandTimeout now s) := by
  have hholds := h.holds
  refine ⟨h.reading, h.lost, ?_⟩
  unfold send
  cases hs : s.typing with
  | line titles keys left =>
    rw [hs] at hholds
    obtain ⟨ht, hkeys, htotal, sent, line, hfollows, hedits⟩ := hholds
    match keys with
    | [] => exact absurd rfl hkeys
    | k :: l :: keys => exact ⟨ht, by simp, htotal, sent, line, hfollows, hedits.key rfl rfl rfl⟩
    | [k] =>
      cases left with
      | some left =>
        refine ⟨ht, sent ++ [line], by rw [hfollows]; simp, .busy ?_ htotal⟩
        rw [List.map_append]
        exact hedits.sent rfl rfl rfl
      | none =>
        obtain ⟨rfl, rfl⟩ := hfollows
        refine ⟨ht, Or.inl ?_⟩
        rw [List.map_append]
        exact hedits.sent rfl rfl rfl
  | _ =>
    rw [hs] at hholds
    simp only [typeKey, toGrub, List.append_nil]
    simpa only [← hs] using hholds

/-! ## The wait looks -/

/-- a look draws nothing, and GRUB gets what it makes `type_entry` write -/
structure Looked (s t : St) (typed : Option Typed) : Prop where
  shell : t.shell = s.shell
  queue : t.queue = s.queue ++ toGrub typed
  ran : t.ran = s.ran
  lost : t.lost = s.lost
  shown : t.shown = s.shown

theorem Looked.same {s t : St} {typed : Option Typed} (h : Looked s t typed) (hnothing : toGrub typed = []) : Same s t :=
  ⟨h.shell, by rw [h.queue, hnothing, List.append_nil], h.ran⟩

theorem afterPrompt_holds {s t : St} {now : Time} {cursor : ℕ} {out : Outcome} (hb : m.boot = true) (hidle : Idle s)
    {more : Bytes} (htotal : s.total = m.text ++ more) (hshown : s.shown = m.rest.bytes ++ more)
    (ht : Looked s t (afterPrompt bootTimeout now cursor out).2)
    (hout : Reads (waitCall bootPrompt bootTimeout) s.total t.total out) :
    Holds m commands t (afterPrompt bootTimeout now cursor out).1 := by
  cases out with
  | waiting w => exact ⟨hb, hidle.same (ht.same rfl), more, hout.trans htotal, ht.shown.trans hshown⟩
  | raised e => exact Or.inl (hidle.same (ht.same rfl))
  | returned slice =>
    have hanswered := m.answered
    rw [if_pos hb] at hanswered
    obtain ⟨slice', hslice⟩ := hanswered
    have hcut := cut_more hslice more
    rw [← htotal, show cut (encode bootPrompt) s.total = some (slice, t.total) from hout] at hcut
    injection hcut with hcut
    injection hcut with _ hleft
    exact ⟨hidle.same (ht.same rfl), more, hleft, ht.shown.trans hshown⟩

theorem afterMenu_holds {s t : St} {now : Time} {cursor : ℕ} {out : Outcome} (hidle : Idle s) {more : Bytes}
    (htotal : s.total = m.behind ++ more) (hshown : s.shown = m.rest.bytes ++ more)
    (ht : Looked s t (afterMenu commands commandTimeout now cursor out).2)
    (hout : Reads (waitCall menuReady bootTimeout) s.total t.total out) :
    Holds m commands t (afterMenu commands commandTimeout now cursor out).1 := by
  cases out with
  | waiting w => exact ⟨hidle.same (ht.same rfl), more, hout.trans htotal, ht.shown.trans hshown⟩
  | raised e => exact Or.inl (hidle.same (ht.same rfl))
  | returned slice =>
    have hcut := cut_more m.ready more
    rw [← htotal, show cut (encode menuReady) s.total = some (slice, t.total) from hout] at hcut
    injection hcut with hcut
    injection hcut with hslice hleft
    have hqueue : t.queue = [shellKey] := by rw [ht.queue, hidle.queue]; rfl
    refine ⟨by rw [hslice]; rfl, [], rfl, .busy (.opens rfl (ht.shell.trans hidle.shell) hqueue (ht.ran.trans hidle.ran)) ?_⟩
    rw [hleft, ht.shown, hshown]

/-- **The wait for the prompt.** It returns only when GRUB is back at its prompt, and then nothing of what is unread is from
before it. -/
theorem Awaits.returned {lines : List Bytes} {s : St} {slice left : Bytes} (h : Awaits lines s) (hcalm : Calm s)
    (hcut : cut (encode grubPrompt) s.total = some (slice, left)) : Prompted lines s ∧ left = s.shown := by
  cases h with
  | busy busy total =>
    rw [total, cut_missing hcalm] at hcut
    cases hcut
  | prompted prompted before calm total =>
    have hprompt : encode grubPrompt = 0x67 :: encode "rub> " := by decide
    rw [hprompt] at calm total hcut
    rw [total, cut_first (by decide) calm] at hcut
    cases hcut
    exact ⟨prompted, rfl⟩

theorem Awaits.kept {lines : List Bytes} {s t : St} (h : Awaits lines s) (ht : Same s t) (htotal : t.total = s.total)
    (hshown : t.shown = s.shown) : Awaits lines t := by
  cases h with
  | busy busy total => exact .busy (busy.same ht) (by rw [htotal, total, hshown])
  | prompted prompted before calm total =>
    exact .prompted (prompted.same ht) before calm (by rw [htotal, total, hshown])

theorem Awaits.sent {lines : List Bytes} {s : St} (h : Awaits lines s) : Sent lines s := by
  cases h with
  | busy busy => exact Or.inl busy
  | prompted prompted => exact Or.inr prompted

theorem Prompted.next {lines : List Bytes} {s : St} (h : Prompted lines s) {line : Bytes}
    (hplain : ∀ k ∈ line, isPlain k = true) : Edits lines line (line ++ carriageReturn) s :=
  ⟨hplain, ⟨[], h.shell, by rw [h.queue]; rfl⟩, h.ran⟩

theorem typeNext_holds {s : St} {sent left : List String} (hplain : ∀ c ∈ commands, Plain c)
    (hsplit : commands = sent ++ left) (hgrub : Prompted (sent.map encode) s) (htotal : s.total = s.shown) :
    Holds m commands s (typeNext m.titles left) := by
  have hkeys (line : Bytes) : line ++ carriageReturn ≠ [] := List.append_ne_nil_of_right_ne_nil _ (by decide)
  cases left with
  | nil =>
    have hall : commands = sent := by rw [hsplit, List.append_nil]
    exact ⟨rfl, hkeys _, htotal, sent, "boot", ⟨hall, rfl⟩, hgrub.next (by decide +kernel)⟩
  | cons c left =>
    exact ⟨rfl, hkeys _, htotal, sent, c, hsplit, hgrub.next (hplain c (by simp [hsplit]))⟩

theorem afterShell_holds {s t : St} {sent left : List String} {out : Outcome} (hplain : ∀ c ∈ commands, Plain c)
    (hsplit : commands = sent ++ left) (h : Awaits (sent.map encode) s) (hcalm : Calm s)
    (ht : Looked s t (afterShell m.titles left out).2)
    (hout : Reads (waitCall grubPrompt commandTimeout) s.total t.total out) :
    Holds m commands t (afterShell m.titles left out).1 := by
  cases out with
  | waiting w => exact ⟨rfl, sent, hsplit, h.kept (ht.same rfl) hout ht.shown⟩
  | raised e =>
    exact Or.inr ⟨sent, hsplit ▸ List.prefix_append sent left, h.sent.same (ht.same rfl)⟩
  | returned slice =>
    obtain ⟨hprompted, hleft⟩ := h.returned hcalm hout
    exact typeNext_holds hplain hsplit (hprompted.same (ht.same rfl)) (hleft.trans ht.shown.symm)

theorem look_spec {s : St} (hread : Reading s.vm) (call : Call) (w : Wait) (n : ℕ) (p : Poll)
    (next : ℕ → Outcome → Typing × Option Typed) :
    ∃ cursor out, (look call w n p next s).typing = (next cursor out).1 ∧
      Looked s (look call w n p next s) (next cursor out).2 ∧ Reading (look call w n p next s).vm ∧
      Reads call s.total (look call w n p next s).total out := by
  have harrived := @pass_arrived call s.vm w { p with received := arrived (s.wire.take n) } (s.wire.take n) hread rfl
    (s.wire.drop n)
  rw [List.take_append_drop] at harrived
  exact ⟨_, _, rfl, ⟨rfl, rfl, rfl, rfl, rfl⟩, harrived.1, harrived.2⟩

theorem poll_inv {s : St} (hplain : ∀ c ∈ commands, Plain c) (h : Inv m commands s) (hcalm : Calm s) (n : ℕ) (p : Poll)
    (now : Time) : Inv m commands (poll commands bootTimeout commandTimeout n p now s) := by
  have hholds := h.holds
  unfold poll
  cases hs : s.typing with
  | prompt w =>
    rw [hs] at hholds
    obtain ⟨hb, hidle, more, htotal, hshown⟩ := hholds
    obtain ⟨cursor, out, htyping, hlooked, hread, hout⟩ :=
      look_spec h.reading (waitCall bootPrompt bootTimeout) w n p (afterPrompt bootTimeout now)
    exact ⟨hread, hlooked.lost.trans h.lost, htyping ▸ afterPrompt_holds hb hidle htotal hshown hlooked hout⟩
  | menu w =>
    rw [hs] at hholds
    obtain ⟨hidle, more, htotal, hshown⟩ := hholds
    obtain ⟨cursor, out, htyping, hlooked, hread, hout⟩ :=
      look_spec h.reading (waitCall menuReady bootTimeout) w n p (afterMenu commands commandTimeout now)
    exact ⟨hread, hlooked.lost.trans h.lost, htyping ▸ afterMenu_holds hidle htotal hshown hlooked hout⟩
  | shell titles left w =>
    rw [hs] at hholds
    obtain ⟨rfl, sent, hsplit, hawaits⟩ := hholds
    obtain ⟨cursor, out, htyping, hlooked, hread, hout⟩ :=
      look_spec h.reading (waitCall grubPrompt commandTimeout) w n p (fun _ => afterShell m.titles left)
    exact ⟨hread, hlooked.lost.trans h.lost, htyping ▸ afterShell_holds hplain hsplit hawaits hcalm hlooked hout⟩
  | _ => exact h

/-! ## The lines that run -/

theorem step_inv {s : St} (hplain : ∀ c ∈ commands, Plain c) (h : Inv m commands s) (hcalm : Calm s) (op : Op) :
    Inv m commands (step commands bootTimeout commandTimeout s op) := by
  cases op with
  | draw b => exact draw_inv h b
  | handle edited => exact handle_inv h edited
  | finish => exact finish_inv h hcalm
  | send now => exact send_inv h now
  | poll n p now => exact poll_inv hplain h hcalm n p now

theorem after_inv {s : St} (hplain : ∀ c ∈ commands, Plain c) (h : Inv m commands s) (ops : List Op)
    (hcalm : ∀ front ∈ ops.inits, Calm (after commands bootTimeout commandTimeout s front)) :
    Inv m commands (after commands bootTimeout commandTimeout s ops) := by
  induction ops generalizing s with
  | nil => exact h
  | cons op ops ih =>
    have hfirst : Calm s := hcalm [] (by simp)
    refine ih (step_inv hplain h hfirst op) fun front hfront => ?_
    exact hcalm (op :: front) (by simpa using hfront)

theorem Sent.ran {lines : List Bytes} {s : St} (h : Sent lines s) :
    s.ran <+: lines ∧ lines.dropLast <+: s.ran ∧ (s.queue = [] → s.ran = lines) := by
  rcases h with (⟨first, -, queue, ran⟩ | ⟨front, line, typed, last, -, -, -, rest, ran⟩ | ⟨-, -, ran⟩) | ⟨-, -, ran⟩
  · rw [first, ran]
    exact ⟨List.prefix_rfl, List.prefix_rfl, fun _ => rfl⟩
  · rw [last, ran, List.dropLast_concat]
    exact ⟨List.prefix_append _ _, List.prefix_rfl, fun hnil => absurd hnil rest⟩
  · rw [ran]
    exact ⟨List.prefix_rfl, List.dropLast_prefix _, fun _ => rfl⟩
  · rw [ran]
    exact ⟨List.prefix_rfl, List.dropLast_prefix _, fun _ => rfl⟩

/-- the lines that ran are the first of those asked for -/
theorem Holds.ran {s : St} (h : Holds m commands s s.typing) :
    s.ran <+: (commands ++ ["boot"]).map encode ∧ (s.typing.raised = true → s.ran <+: commands.map encode) := by
  have hwith (lines : List Bytes) (hran : lines <+: commands.map encode) (hs : s.ran <+: lines) :
      s.ran <+: (commands ++ ["boot"]).map encode ∧ (s.typing.raised = true → s.ran <+: commands.map encode) := by
    rw [List.map_append]
    exact ⟨(hs.trans hran).trans (List.prefix_append _ _), fun _ => hs.trans hran⟩
  have hidle (h : Idle s) := hwith [] List.nil_prefix (h.ran ▸ List.prefix_rfl)
  cases hs : s.typing with
  | prompt w => rw [hs] at h; rw [← hs]; exact hidle h.2.1
  | menu w => rw [hs] at h; rw [← hs]; exact hidle h.1
  | shell titles left w =>
    rw [hs] at h
    obtain ⟨-, sent, hsplit, hawaits⟩ := h
    rw [← hs]
    exact hwith _ ((hsplit ▸ List.prefix_append sent left : sent <+: commands).map encode) hawaits.sent.ran.1
  | line titles keys left =>
    rw [hs] at h
    obtain ⟨-, -, -, sent, line, hfollows, hedits⟩ := h
    have hsent : sent <+: commands := by
      cases left with
      | some left => exact hfollows ▸ List.prefix_append sent _
      | none => exact hfollows.1 ▸ List.prefix_rfl
    rw [← hs]
    exact hwith _ (hsent.map encode) (hedits.ran ▸ List.prefix_rfl)
  | done titles =>
    rw [hs] at h
    exact ⟨h.2.ran.1, nofun⟩
  | failed e =>
    rw [hs] at h
    rw [← hs]
    rcases h with h | ⟨sent, hpre, hgrub⟩
    · exact hidle h
    · exact hwith _ (hpre.map encode) hgrub.ran.1

/-- the commands and then the boot, and nothing lost -/
structure Runs (m : Menu) (commands : List String) (s : St) : Prop where
  lost : s.lost = []
  ran : s.ran <+: (commands ++ ["boot"]).map encode
  /-- a `type_entry` that returned has given every command to run -/
  returned : ∀ titles, s.typing.returned = some titles → titles = m.titles ∧ commands.map encode <+: s.ran ∧
    (s.queue = [] → s.ran = (commands ++ ["boot"]).map encode)
  /-- one that raised has not sent the boot -/
  raised : s.typing.raised = true → s.ran <+: commands.map encode

theorem Inv.runs {s : St} (h : Inv m commands s) : Runs m commands s := by
  obtain ⟨hran, hraised⟩ := h.holds.ran
  refine ⟨h.lost, hran, fun titles hreturned => ?_, hraised⟩
  have hholds := h.holds
  cases hs : s.typing with
  | done titles' =>
    rw [hs] at hreturned hholds
    cases hreturned
    obtain ⟨-, hlast, hall⟩ := hholds.2.ran
    rw [List.map_append, List.map_singleton, List.dropLast_concat] at hlast
    exact ⟨hholds.1, hlast, hall⟩
  | _ =>
    rw [hs] at hreturned
    cases hreturned

theorem run_inv {ops : List Op} {now : Time} (hplain : ∀ c ∈ commands, Plain c)
    (hcalm : ∀ front ∈ ops.inits, Calm (run m commands bootTimeout commandTimeout now front)) :
    Inv m commands (run m commands bootTimeout commandTimeout now ops) :=
  after_inv hplain (start_inv now) ops hcalm

/-- **The lines asked for, and then the boot.** While nothing that is drawn between two prompts spells one, no key GRUB gets is
lost, and the lines it runs are the commands and then the boot, each whole and in their order. When `type_entry` returns, with
the titles of the menu, every command has been given to run; when it raises, the boot has not been sent. -/
theorem type_entry_runs (m : Menu) (commands : List String) (bootTimeout commandTimeout now : Time) (ops : List Op)
    (hplain : ∀ c ∈ commands, Plain c)
    (hcalm : ∀ front ∈ ops.inits, Calm (run m commands bootTimeout commandTimeout now front)) :
    Runs m commands (run m commands bootTimeout commandTimeout now ops) :=
  (run_inv hplain hcalm).runs

/-- one command typed and run, its echo between cursor moves -/
def oneCommand : List Op :=
  [.poll 100 (showing [] 0) 0, .draw (encode " GNU GRUB "), .handle [], .finish, .poll 100 (showing [] 1) 1,
    .send 1, .draw (encode "l"), .handle [], .send 1, .handle [], .send 2, .handle [], .draw (encode "efi/ "), .finish,
    .poll 100 (showing [] 3) 3, .send 3, .send 3, .send 3, .handle [], .send 3, .send 3, .handle [], .handle [],
    .handle [], .handle []]

theorem type_entry_runs_one :
    (run Grub.threeEntries ["ls"] 600 60 0 oneCommand).lost = [] ∧
      (run Grub.threeEntries ["ls"] 600 60 0 oneCommand).ran = ["ls", "boot"].map encode := by
  have h := type_entry_runs Grub.threeEntries ["ls"] 600 60 0 oneCommand (by decide +kernel) (by decide +kernel)
  exact ⟨h.lost, (h.returned ["Boot A", "Boot B", "Boot C"] (by decide +kernel)).2.2 (by decide +kernel)⟩

end DrtmTest.GrubShell
