/-
The answers a wait sends while it waits: which appearance of which prompt each of them is for.

`expect` searches a prompt from behind the last appearance it has answered, once a pass and only in the text behind its
cursor. `Sent` is one `send` of that loop with the appearance it answers, `callSent` all of one call, and `begun` the calls
of a run with the state each starts from. The buffer is any prefix of the stream, so everything is said of the appearances
in the stream.

- `answer_eq`: the loop over the answers sends what `answersAt` lists, and moves each prompt it has answered.
- `pass_served`, `expectFrom_served`: in every state of a wait, what a prompt was sent for and what it still finds are all
  its appearances from the cursor on (`Served`).
- `expectFrom_behind`: a call that returns leaves the cursor behind every appearance it has answered.
- `expectFrom_left`: where nothing arrives, a poll answers one more of the appearances left.
- `prompts_answered_once`: so over a run of successful calls each appearance is answered at most once and in order, and a
  wait on a silent console gets to the last of them.
-/
import DrtmTest.ConsoleCursor
import DrtmTest.Console

namespace DrtmTest.ConsoleAnswers

open DrtmTest.Find DrtmTest.Text DrtmTest.Qmp DrtmTest.QemuVm DrtmTest.ConsoleCursor

/-- one answer: the prompt, where the appearance it is for begins in the console's bytes, and what was sent -/
structure Sent where
  prompt : Bytes
  position : ℕ
  reply : Bytes
  deriving DecidableEq

/-- what the loop over the answers sends in one pass -/
def answersAt (cursor : ℕ) (buf : Bytes) (as : List Answer) : List Sent :=
  as.filterMap fun a => (findFrom a.prompt buf (a.after - cursor)).map fun i => ⟨a.prompt, cursor + i, a.reply⟩

/-- what one pass sends: nothing where the needle, a failure or a hang ends it first -/
def passSent (call : Call) (vm : Vm) (w : Wait) (p : Poll) : List Sent :=
  let buf := (vm.receive p.received).unread
  match checkSilence call p buf w with
  | .error _ => []
  | .ok w =>
    match find (encode call.needle) buf with
    | some _ => []
    | none =>
      match call.failures.find? fun f => contains (encode f) buf with
      | some _ => []
      | none => answersAt vm.cursor buf w.answered

def expectSent (call : Call) : Vm → Wait → List Poll → List Sent
  | _, _, [] => []
  | vm, w, p :: ps =>
    passSent call vm w p ++
      match pass call vm w p with
      | (vm, .waiting w) => expectSent call vm w ps
      | _ => []

/-- what one call sends -/
def callSent (vm : Vm) (s : Scripted) : List Sent :=
  expectSent s.call vm (begin s.call vm.cursor s.started) (s.first :: s.later)

/-- the calls of a run, each with the state it starts from -/
def begun : Vm → List Scripted → List (Vm × Scripted)
  | _, [] => []
  | vm, s :: ss =>
    (vm, s) ::
      match expect vm s with
      | (_, .waiting _) => []
      | (vm, _) => begun vm ss

/-- the answers to one prompt -/
def answersTo (prompt : Bytes) (sent : List Sent) : List Sent := sent.filter fun x => x.prompt = prompt

/-! ## One pass -/

/-- the position of a prompt after the loop has looked for it -/
def advance (cursor : ℕ) (buf : Bytes) (a : Answer) : Answer :=
  match findFrom a.prompt buf (a.after - cursor) with
  | some i => { a with after := cursor + i + a.prompt.length }
  | none => a

theorem advance_prompt (cursor : ℕ) (buf : Bytes) (a : Answer) :
    (advance cursor buf a).prompt = a.prompt ∧ (advance cursor buf a).reply = a.reply := by
  unfold advance
  split <;> exact ⟨rfl, rfl⟩

theorem advance_after {cursor : ℕ} {a : Answer} (h : cursor ≤ a.after) (buf : Bytes) :
    cursor ≤ (advance cursor buf a).after := by
  unfold advance
  split
  · exact (Nat.le_add_right cursor _).trans (Nat.le_add_right _ _)
  · exact h

theorem answer_eq (cursor : ℕ) (buf : Bytes) (as : List Answer) :
    answer cursor buf as = ((answersAt cursor buf as).map Sent.reply, as.map (advance cursor buf)) := by
  induction as with
  | nil => rfl
  | cons a as ih =>
    simp only [answer, ih, answersAt, List.filterMap_cons, List.map_cons, advance]
    cases findFrom a.prompt buf (a.after - cursor) <;> rfl

theorem checkAlive_sent {vm vm' : Vm} {p : Poll} {e : Option ExpectError} (h : checkAlive vm p = (vm', e)) :
    vm'.sent = vm.sent := by
  unfold checkAlive at h
  split at h
  · cases h; rfl
  · split_ifs at h <;> cases h <;> rfl

theorem checkSilence_answered {call : Call} {p : Poll} {buf : Bytes} {w w' : Wait}
    (h : checkSilence call p buf w = .ok w') : w'.answered = w.answered := by
  unfold checkSilence at h
  split_ifs at h <;> cases h <;> rfl

/-- `passSent` is what the pass sends, and a pass that goes on has moved the prompts it answered -/
theorem pass_sent (call : Call) (vm : Vm) (w : Wait) (p : Poll) :
    (pass call vm w p).1.sent = vm.sent ++ (passSent call vm w p).map Sent.reply ∧
      (passSent call vm w p = [] ∧ (∀ w', (pass call vm w p).2 ≠ .waiting w') ∨
        passSent call vm w p = answersAt vm.cursor (vm.receive p.received).unread w.answered ∧
          (∀ slice, (pass call vm w p).2 ≠ .returned slice) ∧ ∀ w', (pass call vm w p).2 = .waiting w' →
            w'.answered = w.answered.map (advance vm.cursor (vm.receive p.received).unread)) := by
  unfold QemuVm.pass passSent
  simp only [answer_eq]
  cases hsil : checkSilence call p (vm.receive p.received).unread w with
  | error e => exact ⟨(List.append_nil vm.sent).symm, Or.inl ⟨rfl, fun _ h => by cases h⟩⟩
  | ok w₁ =>
    simp only [checkSilence_answered hsil]
    cases find (encode call.needle) (vm.receive p.received).unread with
    | some i => exact ⟨(List.append_nil vm.sent).symm, Or.inl ⟨rfl, fun _ h => by cases h⟩⟩
    | none =>
      cases call.failures.find? fun f => contains (encode f) (vm.receive p.received).unread with
      | some f => exact ⟨(List.append_nil vm.sent).symm, Or.inl ⟨rfl, fun _ h => by cases h⟩⟩
      | none =>
        simp only
        split
        · rename_i hc
          exact ⟨checkAlive_sent hc, Or.inr ⟨trivial, (fun _ h => by cases h), fun _ h => by cases h⟩⟩
        · rename_i hc
          split_ifs
          · exact ⟨checkAlive_sent hc, Or.inr ⟨trivial, (fun _ h => by cases h), fun _ h => by cases h⟩⟩
          · refine ⟨checkAlive_sent hc, Or.inr ⟨trivial, (fun _ h => by cases h), fun w' hw' => ?_⟩⟩
            cases hw'
            rfl

theorem expectFrom_sent (call : Call) (vm : Vm) (w : Wait) (ps : List Poll) :
    (expectFrom call vm w ps).1.sent = vm.sent ++ (expectSent call vm w ps).map Sent.reply := by
  induction ps generalizing vm w with
  | nil => exact (List.append_nil _).symm
  | cons p ps ih =>
    have hp := (pass_sent call vm w p).1
    rcases heq : pass call vm w p with ⟨vm', out⟩
    rw [heq] at hp
    change vm'.sent = _ at hp
    cases out with
    | waiting w' => simp only [expectFrom, expectSent, heq, ih, hp, List.map_append, List.append_assoc]
    | _ => simp only [expectFrom, expectSent, heq, hp, List.append_nil]

/-! ## What a prompt was sent for, and what it still finds -/

/-- the answers sent for a prompt and the appearances still behind its position are all its appearances, in order -/
def Served (cursor : ℕ) (stream : Bytes) (sent : List Sent) (a : Answer) : Prop :=
  ∃ positions, answersTo a.prompt sent = positions.map (fun i => ⟨a.prompt, i, a.reply⟩) ∧
    appearances a.prompt stream cursor = positions ++ appearances a.prompt stream a.after

/-- the state of a wait: its prompts with what they were sent for, over every stream the buffer begins -/
structure Serving (call : Call) (cursor : ℕ) (buffer : Bytes) (sent : List Sent) (as : List Answer) : Prop where
  asked : as.map (fun a => (a.prompt, a.reply)) = call.answers.entries.map fun e => (encode e.1, e.2)
  prompts : (as.map Answer.prompt).Nodup
  nonempty : ∀ a ∈ as, a.prompt ≠ []
  after : ∀ a ∈ as, cursor ≤ a.after
  served : ∀ a ∈ as, ∀ stream, buffer <+: stream → Served cursor stream sent a
  known : ∀ x ∈ sent, ∃ a ∈ as, x.prompt = a.prompt
  inside : ∀ x ∈ sent, cursor ≤ x.position ∧ x.position + x.prompt.length ≤ buffer.length

theorem Serving.extend {call : Call} {cursor : ℕ} {buffer stream : Bytes} {sent : List Sent} {as : List Answer}
    (h : Serving call cursor buffer sent as) (hp : buffer <+: stream) : Serving call cursor stream sent as :=
  ⟨h.asked, h.prompts, h.nonempty, h.after, fun a ha s hs => h.served a ha s (hp.trans hs), h.known,
    fun x hx => ⟨(h.inside x hx).1, (h.inside x hx).2.trans hp.length_le⟩⟩

theorem answersTo_append (prompt : Bytes) (sent more : List Sent) :
    answersTo prompt (sent ++ more) = answersTo prompt sent ++ answersTo prompt more := List.filter_append ..

theorem mem_answersAt {cursor : ℕ} {buf : Bytes} {as : List Answer} {x : Sent} :
    x ∈ answersAt cursor buf as ↔
      ∃ a ∈ as, ∃ i, findFrom a.prompt buf (a.after - cursor) = some i ∧ x = ⟨a.prompt, cursor + i, a.reply⟩ := by
  simp only [answersAt, List.mem_filterMap, Option.map_eq_some_iff]
  exact ⟨fun ⟨a, ha, i, hi, hx⟩ => ⟨a, ha, i, hi, hx.symm⟩, fun ⟨a, ha, i, hi, hx⟩ => ⟨a, ha, i, hi, hx.symm⟩⟩

/-- a pass sends at most one answer to a prompt -/
theorem answersTo_answersAt (cursor : ℕ) (buf : Bytes) {as : List Answer} (hnodup : (as.map Answer.prompt).Nodup)
    {a : Answer} (ha : a ∈ as) :
    answersTo a.prompt (answersAt cursor buf as) =
      ((findFrom a.prompt buf (a.after - cursor)).map fun i => ⟨a.prompt, cursor + i, a.reply⟩).toList := by
  induction as with
  | nil => cases ha
  | cons b as ih =>
    rw [List.map_cons, List.nodup_cons] at hnodup
    have hsplit : answersAt cursor buf (b :: as) = answersAt cursor buf [b] ++ answersAt cursor buf as :=
      List.filterMap_append (l := [b])
    have hone : answersAt cursor buf [b] =
        ((findFrom b.prompt buf (b.after - cursor)).map fun i => ⟨b.prompt, cursor + i, b.reply⟩).toList := by
      simp only [answersAt, List.filterMap_cons, List.filterMap_nil]
      cases findFrom b.prompt buf (b.after - cursor) <;> rfl
    rw [hsplit, answersTo_append, hone]
    rcases List.mem_cons.1 ha with rfl | ha
    · have hrest : answersTo a.prompt (answersAt cursor buf as) = [] := by
        refine List.filter_eq_nil_iff.2 fun x hx hp => hnodup.1 ?_
        obtain ⟨c, hc, i, -, rfl⟩ := mem_answersAt.1 hx
        exact (of_decide_eq_true hp : c.prompt = a.prompt) ▸ List.mem_map_of_mem hc
      rw [hrest, List.append_nil]
      cases findFrom a.prompt buf (a.after - cursor) <;> simp [answersTo]
    · have hne : b.prompt ≠ a.prompt := fun h => hnodup.1 (h ▸ List.mem_map_of_mem ha)
      rw [ih hnodup.2 ha]
      cases findFrom b.prompt buf (b.after - cursor) <;> simp [answersTo, hne]

theorem findFrom_after {cursor after : ℕ} (hle : cursor ≤ after) (pat buffer : Bytes) :
    findFrom pat (buffer.drop cursor) (after - cursor) =
      (find pat (buffer.drop after)).map (· + (after - cursor)) := by
  rw [findFrom, List.drop_drop, Nat.add_sub_of_le hle]

/-- a prompt that is found was sent one answer, for the next of its appearances -/
theorem served_advance {cursor : ℕ} {buffer stream : Bytes} {sent : List Sent} {as : List Answer}
    (hprompts : (as.map Answer.prompt).Nodup) {a : Answer} (ha : a ∈ as) (hne : a.prompt ≠ []) (hafter : cursor ≤ a.after)
    (hp : buffer <+: stream) (h : Served cursor stream sent a) :
    Served cursor stream (sent ++ answersAt cursor (buffer.drop cursor) as) (advance cursor (buffer.drop cursor) a) := by
  obtain ⟨positions, hsent, happ⟩ := h
  have hnow := answersTo_answersAt cursor (buffer.drop cursor) hprompts ha
  rw [Served, (advance_prompt _ _ a).1, (advance_prompt _ _ a).2, answersTo_append, hsent, hnow, advance,
    findFrom_after hafter]
  cases hf : find a.prompt (buffer.drop a.after) with
  | none => exact ⟨positions, List.append_nil _, happ⟩
  | some j =>
    have hpos : cursor + (j + (a.after - cursor)) = a.after + j := by omega
    refine ⟨positions ++ [a.after + j], by simp [hpos], ?_⟩
    rw [happ, appearances_found hne (find_extend (hp.drop a.after) hf), List.append_assoc]
    simp only [Option.map_some, hpos]
    rfl

/-- what a pass answers lies in the buffer -/
theorem answersAt_inside {cursor : ℕ} {buffer : Bytes} {as : List Answer} (hne : ∀ a ∈ as, a.prompt ≠ [])
    (hafter : ∀ a ∈ as, cursor ≤ a.after) {x : Sent} (hx : x ∈ answersAt cursor (buffer.drop cursor) as) :
    cursor ≤ x.position ∧ x.position + x.prompt.length ≤ buffer.length := by
  obtain ⟨a, ha, i, hi, rfl⟩ := mem_answersAt.1 hx
  have hle := hafter a ha
  rw [findFrom_after hle] at hi
  obtain ⟨j, hj, rfl⟩ := Option.map_eq_some_iff.1 hi
  have hin := (find_eq_some.1 hj).1.le
  have hpos := List.length_pos_iff.2 (hne a ha)
  rw [List.length_drop] at hin
  refine ⟨Nat.le_add_right _ _, ?_⟩
  simp only
  omega

/-- **One pass keeps the books.** A prompt that is found was sent one answer, for the next of its appearances. -/
theorem serving_step {call : Call} {cursor : ℕ} {buffer : Bytes} {sent : List Sent} {as : List Answer}
    (h : Serving call cursor buffer sent as) :
    Serving call cursor buffer (sent ++ answersAt cursor (buffer.drop cursor) as)
      (as.map (advance cursor (buffer.drop cursor))) := by
  have hkept : (as.map (advance cursor (buffer.drop cursor))).map (fun a => (a.prompt, a.reply)) =
      as.map fun a => (a.prompt, a.reply) := by
    rw [List.map_map]
    exact List.map_congr_left fun a _ => Prod.ext (advance_prompt _ _ a).1 (advance_prompt _ _ a).2
  have hprompts : (as.map (advance cursor (buffer.drop cursor))).map Answer.prompt = as.map Answer.prompt := by
    rw [List.map_map]
    exact List.map_congr_left fun a _ => (advance_prompt _ _ a).1
  refine ⟨hkept.trans h.asked, hprompts ▸ h.prompts, ?_, ?_, ?_, ?_, ?_⟩
  · intro a' ha'
    obtain ⟨a, ha, rfl⟩ := List.mem_map.1 ha'
    rw [(advance_prompt _ _ a).1]
    exact h.nonempty a ha
  · intro a' ha'
    obtain ⟨a, ha, rfl⟩ := List.mem_map.1 ha'
    exact advance_after (h.after a ha) _
  · intro a' ha' stream hp
    obtain ⟨a, ha, rfl⟩ := List.mem_map.1 ha'
    exact served_advance h.prompts ha (h.nonempty a ha) (h.after a ha) hp (h.served a ha stream hp)
  · intro x hx
    rcases List.mem_append.1 hx with hx | hx
    · obtain ⟨a, ha, hxa⟩ := h.known x hx
      exact ⟨_, List.mem_map_of_mem ha, hxa.trans (advance_prompt _ _ a).1.symm⟩
    · obtain ⟨a, ha, i, -, rfl⟩ := mem_answersAt.1 hx
      exact ⟨_, List.mem_map_of_mem ha, (advance_prompt _ _ a).1.symm⟩
  · intro x hx
    rcases List.mem_append.1 hx with hx | hx
    · exact h.inside x hx
    · exact answersAt_inside h.nonempty h.after hx

/-! ## A whole wait -/

theorem pass_served {call : Call} {vm : Vm} {w : Wait} {sent : List Sent} (p : Poll)
    (h : Serving call vm.cursor vm.reader.serialBuf sent w.answered) :
    ∃ as, Serving call vm.cursor (pass call vm w p).1.reader.serialBuf (sent ++ passSent call vm w p) as ∧
      ∀ w', (pass call vm w p).2 = .waiting w' →
        w'.answered = as ∧ as = w.answered.map (advance vm.cursor (vm.receive p.received).unread) := by
  rw [pass_reader]
  have hgrown := h.extend (reader_grows vm.reader p.received)
  rcases (pass_sent call vm w p).2 with ⟨hnil, hend⟩ | ⟨hsent, -, hgo⟩
  · exact ⟨w.answered, by rwa [hnil, List.append_nil], fun w' hw' => absurd hw' (hend w')⟩
  · exact ⟨_, hsent ▸ serving_step hgrown, fun w' hw' => ⟨hgo w' hw', rfl⟩⟩

/-- a pass that goes on leaves the cursor -/
theorem pass_cursor {call : Call} {vm vm' : Vm} {w w' : Wait} {p : Poll} (h : pass call vm w p = (vm', .waiting w')) :
    vm'.cursor = vm.cursor ∧ find (encode call.needle) vm'.unread = none := by
  have hreader := pass_reader call vm w p
  rcases pass_cases call vm w p with ⟨i, -, heq⟩ | ⟨hcur, ⟨e, he⟩ | ⟨-, hnone, -⟩⟩
  · rw [heq] at h; cases h
  · rw [h] at he; cases he
  · rw [h] at hreader hcur
    refine ⟨hcur, ?_⟩
    rw [Vm.unread, show vm'.cursor = vm.cursor from hcur, show vm'.reader = _ from hreader]
    exact hnone

theorem expectFrom_served {call : Call} {vm : Vm} {w : Wait} {sent : List Sent} (ps : List Poll)
    (h : Serving call vm.cursor vm.reader.serialBuf sent w.answered) :
    ∃ as, Serving call vm.cursor (expectFrom call vm w ps).1.reader.serialBuf (sent ++ expectSent call vm w ps) as ∧
      ∀ w', (expectFrom call vm w ps).2 = .waiting w' → w'.answered = as := by
  induction ps generalizing vm w sent with
  | nil =>
    refine ⟨w.answered, by rwa [expectSent, List.append_nil], fun w' hw' => ?_⟩
    cases hw'
    rfl
  | cons p ps ih =>
    obtain ⟨as, has, hgo⟩ := pass_served p h
    rcases hp : pass call vm w p with ⟨vm', out⟩
    rw [hp] at has hgo
    simp only [expectFrom, expectSent, hp]
    cases out with
    | waiting w' =>
      have hcur := (pass_cursor hp).1
      rw [← (hgo w' rfl).1, ← hcur] at has
      rw [← List.append_assoc, ← hcur]
      exact ih has
    | _ =>
      rw [List.append_nil]
      exact ⟨as, has, fun w' hw' => by cases hw'⟩

/-- the prompts of a call are no empty texts -/
def Prompting (call : Call) : Prop := ∀ e ∈ call.answers.entries, e.1 ≠ ""

theorem serving_begin {call : Call} (hne : Prompting call) (cursor : ℕ) (now : Time) (buffer : Bytes) :
    Serving call cursor buffer [] (begin call cursor now).answered := by
  have hmem : ∀ a ∈ (begin call cursor now).answered, ∃ e ∈ call.answers.entries, (⟨encode e.1, e.2, cursor⟩ : Answer) = a :=
    fun a ha => List.mem_map.1 ha
  refine ⟨?_, ?_, ?_, ?_, ?_, ?_, ?_⟩
  · rw [begin, List.map_map]
    rfl
  · have hmap : (begin call cursor now).answered.map Answer.prompt = call.answers.keys.map encode := by
      rw [begin, Dict.keys, List.map_map, List.map_map]
      rfl
    exact hmap ▸ call.answers.keys_nodup.map encode_injective
  · intro a ha
    obtain ⟨e, he, rfl⟩ := hmem a ha
    exact mt encode_eq_nil.1 (hne e he)
  · intro a ha
    obtain ⟨e, -, rfl⟩ := hmem a ha
    exact le_rfl
  · intro a ha stream _
    obtain ⟨e, -, rfl⟩ := hmem a ha
    exact ⟨[], rfl, rfl⟩
  · exact List.forall_mem_nil _
  · exact List.forall_mem_nil _

/-- a needle that was not there before ends behind all that was -/
theorem pass_behind {call : Call} {vm vm' : Vm} {w : Wait} {p : Poll} {slice : Bytes}
    (h : pass call vm w p = (vm', .returned slice)) (hnone : find (encode call.needle) vm.unread = none) :
    vm.reader.serialBuf.length ≤ vm'.cursor := by
  rcases pass_cases call vm w p with ⟨i, hi, heq⟩ | ⟨-, ⟨e, he⟩ | ⟨⟨w', hw'⟩, -⟩⟩
  · rw [heq] at h
    cases h
    have hnew : ¬ i + (encode call.needle).length ≤ vm.unread.length := by
      intro hle
      have hfound := find_restrict (unread_grows vm p.received) hi hle
      rw [hnone] at hfound
      cases hfound
    rw [Vm.unread, List.length_drop] at hnew
    simp only
    omega
  · rw [h] at he; cases he
  · rw [h] at hw'; cases hw'

/-- A call that returns leaves the cursor behind every appearance it has answered: its needle was not there when it
answered, so it ends behind what had arrived by then. -/
theorem expectFrom_behind {call : Call} {vm vm' : Vm} {w : Wait} {sent : List Sent} {ps : List Poll} {slice : Bytes}
    (h : Serving call vm.cursor vm.reader.serialBuf sent w.answered)
    (hclean : sent = [] ∨ find (encode call.needle) vm.unread = none)
    (hret : expectFrom call vm w ps = (vm', .returned slice)) :
    ∀ x ∈ sent ++ expectSent call vm w ps, x.position + x.prompt.length ≤ vm'.cursor := by
  induction ps generalizing vm w sent with
  | nil => cases hret
  | cons p ps ih =>
    obtain ⟨as, has, hgo⟩ := pass_served p h
    have hsent := (pass_sent call vm w p).2
    rcases hp : pass call vm w p with ⟨vm₁, out⟩
    rw [hp] at has hgo hsent
    simp only [expectFrom, hp] at hret
    simp only [expectSent, hp]
    cases out with
    | waiting w' =>
      obtain ⟨hcur, hnone⟩ := pass_cursor hp
      rw [← (hgo w' rfl).1, ← hcur] at has
      rw [← List.append_assoc]
      exact ih has (Or.inr hnone) hret
    | raised e => cases hret
    | returned slice' =>
      cases hret
      rcases hsent with ⟨hnil, -⟩ | ⟨-, hno, -⟩
      · rw [hnil, List.append_nil, List.append_nil]
        intro x hx
        have hnone := hclean.resolve_left (List.ne_nil_of_mem hx)
        exact (h.inside x hx).2.trans (pass_behind hp hnone)
      · exact absurd rfl (hno slice)

/-- a prompt that is looked for has one appearance less behind its position -/
theorem advance_left {cursor : ℕ} {buffer : Bytes} {a : Answer} (hne : a.prompt ≠ []) (hle : cursor ≤ a.after) :
    (appearances a.prompt buffer (advance cursor (buffer.drop cursor) a).after).length =
      (appearances a.prompt buffer a.after).length - 1 := by
  rw [advance, findFrom_after hle]
  cases hf : find a.prompt (buffer.drop a.after) with
  | none => rw [Option.map_none, appearances_none hf]; rfl
  | some j =>
    have hpos : cursor + (j + (a.after - cursor)) = a.after + j := by omega
    rw [appearances_found hne hf, List.length_cons, Nat.add_sub_cancel]
    simp only [Option.map_some, hpos]

/-- While nothing arrives each poll answers one more, so as many polls as are left answer all. -/
theorem expectFrom_left {call : Call} {vm vm' : Vm} {w w' : Wait} {sent : List Sent} {ps : List Poll} (prompt : Bytes)
    (h : Serving call vm.cursor vm.reader.serialBuf sent w.answered)
    (hend : expectFrom call vm w ps = (vm', .waiting w')) (hsilent : vm'.reader.serialBuf = vm.reader.serialBuf)
    (hleft : ∀ a ∈ w.answered, a.prompt = prompt →
      (appearances prompt vm.reader.serialBuf a.after).length ≤ ps.length) :
    ∀ a ∈ w'.answered, a.prompt = prompt → appearances prompt vm'.reader.serialBuf a.after = [] := by
  induction ps generalizing vm w sent with
  | nil =>
    cases hend
    exact fun a ha hp => List.eq_nil_of_length_eq_zero (Nat.le_zero.1 (hleft a ha hp))
  | cons p ps ih =>
    obtain ⟨as, has, hgo⟩ := pass_served p h
    have hreader := pass_reader call vm w p
    rcases hp : pass call vm w p with ⟨vm₁, out⟩
    rw [hp] at has hgo hreader
    simp only [expectFrom, hp] at hend
    cases out with
    | waiting w₁ =>
      have hcur := (pass_cursor hp).1
      obtain ⟨hw₁, hadv⟩ := hgo w₁ rfl
      rw [← hw₁, ← hcur] at has
      have hsame : vm₁.reader.serialBuf = vm.reader.serialBuf := by
        have h₁ : vm.reader.serialBuf <+: vm₁.reader.serialBuf := hreader ▸ reader_grows vm.reader p.received
        have h₂ := expectFrom_grows call vm₁ w₁ ps
        rw [show expectFrom call vm₁ w₁ ps = (vm', .waiting w') from hend, hsilent] at h₂
        exact h₂.eq_of_length (le_antisymm h₂.length_le h₁.length_le)
      have hunread : (vm.receive p.received).unread = vm.reader.serialBuf.drop vm.cursor := by
        rw [← hsame, show vm₁.reader = (vm.receive p.received).reader from hreader]
        rfl
      refine ih has hend (hsilent.trans hsame.symm) fun a' ha' hprompt => ?_
      rw [hw₁, hadv, hunread] at ha'
      obtain ⟨a, ha, rfl⟩ := List.mem_map.1 ha'
      rw [(advance_prompt _ _ a).1] at hprompt
      subst hprompt
      have hle := hleft a ha rfl
      rw [hsame, advance_left (h.nonempty a ha) (h.after a ha)]
      rw [List.length_cons] at hle
      omega
    | _ => cases hend

/-! ## The answers of a run -/

theorem expectFrom_split {call : Call} {vm vm' : Vm} {w w' : Wait} {ps qs : List Poll}
    (h : expectFrom call vm w (ps ++ qs) = (vm', .waiting w')) :
    ∃ vm₁ w₁, expectFrom call vm w ps = (vm₁, .waiting w₁) ∧ expectFrom call vm₁ w₁ qs = (vm', .waiting w') ∧
      vm₁.cursor = vm.cursor ∧ expectSent call vm w (ps ++ qs) = expectSent call vm w ps ++ expectSent call vm₁ w₁ qs := by
  induction ps generalizing vm w with
  | nil => exact ⟨vm, w, rfl, h, rfl, rfl⟩
  | cons p ps ih =>
    rcases hp : pass call vm w p with ⟨vm₁, out⟩
    simp only [List.cons_append, expectFrom, hp] at h
    cases out with
    | waiting w₁ =>
      obtain ⟨vm₂, w₂, h₁, h₂, hcur, hsent⟩ := ih h
      refine ⟨vm₂, w₂, ?_, h₂, hcur.trans (pass_cursor hp).1, ?_⟩
      · simp only [expectFrom, hp]
        exact h₁
      · simp only [List.cons_append, expectSent, hp, hsent, List.append_assoc]
    | _ => cases h

/-- each prompt of the call is among those of the wait -/
theorem Serving.answer_of {call : Call} {cursor : ℕ} {buffer : Bytes} {sent : List Sent} {as : List Answer}
    (h : Serving call cursor buffer sent as) {e : String × Bytes} (he : e ∈ call.answers.entries) :
    ∃ a ∈ as, a.prompt = encode e.1 ∧ a.reply = e.2 := by
  have hmem : (encode e.1, e.2) ∈ as.map fun a => (a.prompt, a.reply) := h.asked ▸ List.mem_map_of_mem he
  obtain ⟨a, ha, heq⟩ := List.mem_map.1 hmem
  exact ⟨a, ha, Prod.mk.inj heq⟩

/-- what the answers to one prompt of a call are for: the first of its appearances from the cursor on -/
theorem Serving.answersTo {call : Call} {cursor : ℕ} {buffer : Bytes} {sent : List Sent} {as : List Answer}
    (h : Serving call cursor buffer sent as) {e : String × Bytes} (he : e ∈ call.answers.entries) :
    ∃ m, ∀ stream, buffer <+: stream → answersTo (encode e.1) sent =
      ((appearances (encode e.1) stream cursor).take m).map fun i => ⟨encode e.1, i, e.2⟩ := by
  obtain ⟨a, ha, hprompt, hreply⟩ := h.answer_of he
  refine ⟨(ConsoleAnswers.answersTo (encode e.1) sent).length, fun stream hp => ?_⟩
  obtain ⟨positions, hsent, happ⟩ := h.served a ha stream hp
  rw [hprompt, hreply] at hsent
  rw [hprompt] at happ
  rw [hsent, happ, List.length_map, List.take_left]

theorem callSent_serving (vm : Vm) {s : Scripted} (hne : Prompting s.call) :
    ∃ as, Serving s.call vm.cursor (expect vm s).1.reader.serialBuf (callSent vm s) as ∧
      ∀ w', (expect vm s).2 = .waiting w' → w'.answered = as :=
  expectFrom_served _ (serving_begin hne vm.cursor s.started _)

/-- a wait on a console that has fallen silent gets to the last appearance -/
theorem silent_answers {vm : Vm} {s : Scripted} (hne : Prompting s.call) {ps qs : List Poll} {w : Wait}
    (hlater : s.later = ps ++ qs) (hend : (expect vm s).2 = .waiting w)
    (hsilent : (expect vm s).1.reader.serialBuf = (expect vm { s with later := ps }).1.reader.serialBuf)
    {e : String × Bytes} (he : e ∈ s.call.answers.entries)
    (hmany : (appearances (encode e.1) (expect vm s).1.reader.serialBuf vm.cursor).length ≤ qs.length) :
    answersTo (encode e.1) (callSent vm s) =
      (appearances (encode e.1) (expect vm s).1.reader.serialBuf vm.cursor).map fun i => ⟨encode e.1, i, e.2⟩ := by
  obtain ⟨as, has, hwait⟩ := callSent_serving vm hne
  have has' := hwait w hend
  have hrun : expectFrom s.call vm (begin s.call vm.cursor s.started) (s.first :: ps ++ qs) =
      ((expect vm s).1, .waiting w) := by
    rw [← hend, expect, hlater]
    rfl
  obtain ⟨vm₁, w₁, h₁, h₂, hcur, -⟩ := expectFrom_split hrun
  have hfirst : (expect vm { s with later := ps }).1 = vm₁ := congrArg Prod.fst h₁
  rw [hfirst] at hsilent
  obtain ⟨as₁, has₁, hwait₁⟩ := expectFrom_served (s.first :: ps) (serving_begin hne vm.cursor s.started _)
  rw [h₁, ← hwait₁ w₁ (by rw [h₁]), ← hcur] at has₁
  change Serving s.call vm₁.cursor vm₁.reader.serialBuf _ _ at has₁
  have hnone := expectFrom_left (encode e.1) has₁ h₂ hsilent fun a ha hprompt => by
    obtain ⟨positions, -, happ⟩ := has₁.served a ha _ List.prefix_rfl
    rw [hprompt] at happ
    rw [hsilent, ← hcur, happ, List.length_append] at hmany
    omega
  obtain ⟨a, ha, hprompt, hreply⟩ := has.answer_of he
  obtain ⟨positions, hsent, happ⟩ := has.served a ha _ List.prefix_rfl
  rw [hprompt, hnone a (has' ▸ ha) hprompt, List.append_nil] at happ
  rw [hprompt, hreply] at hsent
  rw [hsent, happ]

theorem callSent_behind {vm : Vm} {s : Scripted} (hne : Prompting s.call) {slice : Bytes}
    (hret : (expect vm s).2 = .returned slice) :
    ∀ x ∈ callSent vm s, x.position + x.prompt.length ≤ (expect vm s).1.cursor := by
  have hrun : expectFrom s.call vm (begin s.call vm.cursor s.started) (s.first :: s.later) =
      ((expect vm s).1, .returned slice) := by
    rw [← hret]
    rfl
  exact expectFrom_behind (serving_begin hne vm.cursor s.started _) (Or.inl rfl) hrun

theorem begun_returned {vm vm' : Vm} {s : Scripted} {ss : List Scripted} {slice : Bytes}
    (h : expect vm s = (vm', .returned slice)) : begun vm (s :: ss) = (vm, s) :: begun vm' ss := by
  simp only [begun, h]

/-- a call of a run is one of its calls, starts no earlier than the run, and what it reads the run has read -/
theorem mem_begun {vm : Vm} {ss : List Scripted} {b : Vm × Scripted} (hb : b ∈ begun vm ss) :
    b.2 ∈ ss ∧ vm.cursor ≤ b.1.cursor ∧
      (expect b.1 b.2).1.reader.serialBuf <+: (runCalls vm ss).1.reader.serialBuf := by
  induction ss generalizing vm with
  | nil => cases hb
  | cons s ss ih =>
    have hspec := expect_spec vm s
    have hgrows := fun vm' => runCalls_grows vm' ss
    rcases he : expect vm s with ⟨vm', out⟩
    rw [he] at hspec
    simp only [begun, runCalls, he] at hb ⊢
    rcases List.mem_cons.1 hb with rfl | hb
    · refine ⟨List.mem_cons_self, le_rfl, ?_⟩
      rw [he]
      cases out with
      | waiting w => exact List.prefix_rfl
      | _ => exact hgrows vm'
    · cases out with
      | waiting w => cases hb
      | raised e =>
        obtain ⟨hs, hcur, hread⟩ := ih hb
        simp only at hspec
        exact ⟨List.mem_cons_of_mem s hs, hspec ▸ hcur, hread⟩
      | returned slice =>
        obtain ⟨hs, hcur, hread⟩ := ih hb
        exact ⟨List.mem_cons_of_mem s hs, by have := hspec.1; omega, hread⟩

/-- no later call answers what an earlier one that returned has answered -/
theorem begun_pairwise {vm : Vm} {ss : List Scripted} {next : Scripted} (hne : ∀ s ∈ ss ++ [next], Prompting s.call)
    (hret : ∀ out ∈ (runCalls vm ss).2, ∃ slice, out = .returned slice) :
    (begun vm (ss ++ [next])).Pairwise fun b b' =>
      ∀ x ∈ callSent b.1 b.2, ∀ y ∈ callSent b'.1 b'.2, x.position + x.prompt.length ≤ y.position := by
  induction ss generalizing vm with
  | nil =>
    simp only [List.nil_append, begun]
    split <;> exact List.pairwise_singleton ..
  | cons s ss ih =>
    have hrest : ∀ t ∈ ss ++ [next], Prompting t.call := fun t ht => hne t (List.mem_cons_of_mem s ht)
    have hbehind : ∀ slice, (expect vm s).2 = .returned slice →
        ∀ x ∈ callSent vm s, x.position + x.prompt.length ≤ (expect vm s).1.cursor :=
      fun slice h => callSent_behind (hne s List.mem_cons_self) h
    rcases he : expect vm s with ⟨vm', out⟩
    rw [he] at hbehind
    simp only [runCalls, he] at hret
    cases out with
    | waiting w => obtain ⟨slice, h⟩ := hret _ (List.mem_singleton_self _); cases h
    | raised e => obtain ⟨slice, h⟩ := hret _ List.mem_cons_self; cases h
    | returned slice =>
      rw [List.cons_append, begun_returned he, List.pairwise_cons]
      refine ⟨fun b hb x hx y hy => ?_, ih hrest fun out hout => hret out (List.mem_cons_of_mem _ hout)⟩
      obtain ⟨hs, hcur, -⟩ := mem_begun hb
      obtain ⟨as, has, -⟩ := callSent_serving b.1 (hrest b.2 hs)
      calc x.position + x.prompt.length ≤ vm'.cursor := hbehind slice rfl x hx
        _ ≤ b.1.cursor := hcur
        _ ≤ y.position := (has.inside y hy).1

/-- **A prompt is answered once per appearance, in order.** Over every run of calls that return, with one more call that
ends in any way or not at all, however the bytes arrive: the answers of a call to a prompt are one for each of the first
`m` appearances of it behind the cursor the call starts from; no appearance is answered by two calls; and where the console
falls silent on a call that goes on waiting, as many polls as there are appearances answer all of them. -/
theorem prompts_answered_once (vm : Vm) (ss : List Scripted) (next : Scripted)
    (hne : ∀ s ∈ ss ++ [next], Prompting s.call)
    (hret : ∀ out ∈ (runCalls vm ss).2, ∃ slice, out = .returned slice) :
    (∀ b ∈ begun vm (ss ++ [next]),
      (expect b.1 b.2).1.sent = b.1.sent ++ (callSent b.1 b.2).map Sent.reply ∧
        (∀ x ∈ callSent b.1 b.2, ∃ e ∈ b.2.call.answers.entries, x.prompt = encode e.1) ∧
        ∀ e ∈ b.2.call.answers.entries, ∃ m, ∀ stream, (runCalls vm (ss ++ [next])).1.reader.serialBuf <+: stream →
          answersTo (encode e.1) (callSent b.1 b.2) =
            ((appearances (encode e.1) stream b.1.cursor).take m).map fun i => ⟨encode e.1, i, e.2⟩) ∧
      ((begun vm (ss ++ [next])).Pairwise fun b b' =>
        ∀ x ∈ callSent b.1 b.2, ∀ y ∈ callSent b'.1 b'.2, x.position + x.prompt.length ≤ y.position) ∧
      ∀ b ∈ begun vm (ss ++ [next]), ∀ ps qs w, b.2.later = ps ++ qs → (expect b.1 b.2).2 = .waiting w →
        (expect b.1 b.2).1.reader.serialBuf = (expect b.1 { b.2 with later := ps }).1.reader.serialBuf →
        ∀ e ∈ b.2.call.answers.entries,
          (appearances (encode e.1) (expect b.1 b.2).1.reader.serialBuf b.1.cursor).length ≤ qs.length →
          answersTo (encode e.1) (callSent b.1 b.2) =
            (appearances (encode e.1) (expect b.1 b.2).1.reader.serialBuf b.1.cursor).map fun i =>
              ⟨encode e.1, i, e.2⟩ := by
  refine ⟨fun b hb => ?_, begun_pairwise hne hret, fun b hb ps qs w hlater hend hsilent e he hmany => ?_⟩
  · obtain ⟨hs, -, hread⟩ := mem_begun hb
    obtain ⟨as, has, -⟩ := callSent_serving b.1 (hne b.2 hs)
    refine ⟨expectFrom_sent _ _ _ _, fun x hx => ?_, fun e he => ?_⟩
    · obtain ⟨a, ha, hx⟩ := has.known x hx
      have hmem : (a.prompt, a.reply) ∈ b.2.call.answers.entries.map fun e => (encode e.1, e.2) :=
        has.asked ▸ List.mem_map_of_mem ha
      obtain ⟨e, he, heq⟩ := List.mem_map.1 hmem
      exact ⟨e, he, hx.trans (Prod.mk.inj heq).1.symm⟩
    · obtain ⟨m, hm⟩ := has.answersTo he
      exact ⟨m, fun stream hp => hm stream (hread.trans hp)⟩
  · exact silent_answers (hne b.2 (mem_begun hb).1) hlater hend hsilent he hmany

/-- the wait for a banner that answers the loader's pause -/
def bannerWait (banner : String) (first : Poll) (later : List Poll) : Scripted :=
  ⟨(Console.waitForLogin 600 banner).head (List.cons_ne_nil _ _), 0, first, later⟩

/-- a poll that shows nothing -/
def silentPoll (now : Time) : Poll := { showing [] now with received := [] }

/-- the pause twice in one chunk, and the banner once both are answered -/
def xenWait : Scripted :=
  bannerWait Console.xenBanner (showing (encode "Press any key to continue\r\nPress any key to continue\r\n") 1)
    [silentPoll 2, silentPoll 3, showing (encode "(XEN) Xen version 4.20") 4]

/-- the pause once more, and then nothing -/
def linuxWait : Scripted :=
  bannerWait Console.linuxBanner (showing (encode "\r\nPress any key to continue") 5) [silentPoll 6]

def isWaiting : Outcome → Bool
  | .waiting _ => true
  | _ => false

theorem prompts_answered_once_pause :
    answersTo (encode Console.anyKey) (callSent (expect fresh xenWait).1 linuxWait) =
      (appearances (encode Console.anyKey) (expect (expect fresh xenWait).1 linuxWait).1.reader.serialBuf
        (expect fresh xenWait).1.cursor).map fun i => ⟨encode Console.anyKey, i, Console.carriageReturn⟩ := by
  have hne : ∀ s ∈ [xenWait] ++ [linuxWait], Prompting s.call := by
    have hkey : ∀ banner first later, Prompting (bannerWait banner first later).call := fun _ _ _ e he => by
      rcases List.mem_singleton.1 he with rfl
      decide
    intro s hs
    rcases List.mem_pair.1 hs with rfl | rfl <;> exact hkey _ _ _
  have hxen : returned (expect fresh xenWait).2 = true := by decide +kernel
  have hlinux : isWaiting (expect (expect fresh xenWait).1 linuxWait).2 = true := by decide +kernel
  have hsilent : (expect (expect fresh xenWait).1 linuxWait).1.reader.serialBuf =
      (expect (expect fresh xenWait).1 { linuxWait with later := [] }).1.reader.serialBuf := by decide +kernel
  have hmany : (appearances (encode Console.anyKey) (expect (expect fresh xenWait).1 linuxWait).1.reader.serialBuf
      (expect fresh xenWait).1.cursor).length ≤ 1 := by decide +kernel
  rcases he : expect fresh xenWait with ⟨vm, out⟩
  rw [he] at hxen hlinux hsilent hmany
  rcases out with slice | e | w
  · have hret : ∀ out ∈ (runCalls fresh [xenWait]).2, ∃ slice, out = .returned slice := by
      simp only [runCalls, he, List.mem_singleton]
      exact fun out hout => ⟨slice, hout⟩
    have hbegun : (vm, linuxWait) ∈ begun fresh ([xenWait] ++ [linuxWait]) := by
      rw [List.singleton_append, begun_returned he]
      exact List.mem_cons_of_mem _ List.mem_cons_self
    rcases hw : (expect vm linuxWait).2 with slice' | e' | w
    · rw [hw] at hlinux; cases hlinux
    · rw [hw] at hlinux; cases hlinux
    · exact (prompts_answered_once fresh [xenWait] linuxWait hne hret).2.2 _ hbegun [] [silentPoll 6] w rfl hw hsilent
        (Console.anyKey, Console.carriageReturn) (List.mem_singleton_self _) hmany
  · cases hxen
  · cases hxen

end DrtmTest.ConsoleAnswers
