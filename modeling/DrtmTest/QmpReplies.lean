/-
Which reply a QMP command gets, for a server that speaks QMP.

A `Message` is one line of the server that is an object. An `Exchange` is all a connection shows: the greeting, what
comes before the reply to the command (the reply to `qmp_capabilities` and events), that reply, and what comes after, in
any chunks.

- `recvLoop_bursts`: what is received between two chunks that end in a newline is a burst, and one reply is read to the end
  of the first burst that mentions a return or an error.
- `run_messages`: such a run of bursts is whole messages.
- `message_read`: a message on one line for `splitlines` too is what that line reads as.
- `execute_answers_iff`: the command gets its answer exactly when its reply, or a message that says the same, is a burst of
  its own, the first to mention a return or an error behind the one that is taken for the reply to `qmp_capabilities`.
- `event_with_reply`: an event in the same burst takes the reply's place.
-/
import DrtmTest.Core.JsonReads
import DrtmTest.QemuVm

namespace DrtmTest.QmpReplies

open DrtmTest.Find DrtmTest.Text DrtmTest.Qmp DrtmTest.QemuVm

/-! ## What the server sends -/

/-- one line that is an object, whether or not it is too deep or too long for the client -/
structure Message where
  line : List Char
  fields : List (String × Json)
  no_newline : '\n' ∉ line
  object : ∃ limits, Json.loads limits line = .ok (.obj fields)

def Message.text (m : Message) : List Char := m.line ++ ['\n']

def Message.bytes (m : Message) : Bytes := encodeChars m.text

/-- what the server has to say to the command -/
inductive Answer where
  | ret (v : Json)
  | err (desc : Json)

/-- the answer a reply gives: its error's `desc` where it has an error, its `return` else -/
def answerOf (fields : List (String × Json)) : Option Answer :=
  match fields.lookup "error" with
  | none => (fields.lookup "return").map .ret
  | some (.obj e) => (e.lookup "desc").map .err
  | some _ => none

def IsEvent (m : Message) : Prop := (m.fields.lookup "event").isSome

/-- what a server says over one connection -/
structure Dialogue where
  command : String
  greeting : Message
  /-- events around the reply to `qmp_capabilities` -/
  early : List Message
  capabilities : Message
  late : List Message
  reply : Message
  answer : Answer
  after : List Message
  negotiated : (answerOf capabilities.fields).isSome
  gives : answerOf reply.fields = some answer
  events : ∀ m ∈ early ++ late ++ after, IsEvent m

def Dialogue.messages (d : Dialogue) : List Message :=
  d.greeting :: d.early ++ d.capabilities :: d.late ++ d.reply :: d.after

/-- a dialogue, and what the calls of `recv` return -/
structure Exchange extends Dialogue where
  chunks : List Bytes
  nonempty : ∀ c ∈ chunks, c ≠ []
  sent : chunks.flatten = (toDialogue.messages.map Message.bytes).flatten

/-- what `execute` owes its caller -/
def owed (command : String) : Answer → Except QmpError Json
  | .ret v => .ok v
  | .err desc => .error (.runtimeError command desc)

/-! ## Bursts -/

/-- what is received, behind `begun`, up to each chunk that ends in a newline -/
def bursts : Bytes → List Bytes → List Bytes
  | _, [] => []
  | begun, c :: cs => if (begun ++ c).getLast? = some 10 then (begun ++ c) :: bursts [] cs else bursts (begun ++ c) cs

/-- a return or an error is mentioned -/
def mentions (burst : Bytes) : Bool := contains returnMark burst || contains errorMark burst

/-- the bursts up to the first that mentions one, and those behind it -/
def firstMention : List Bytes → Option (Bytes × List Bytes)
  | [] => none
  | b :: bs => if mentions b then some (b, bs) else (firstMention bs).map fun r => (b ++ r.1, r.2)

theorem firstMention_iff {bs rest : List Bytes} {data : Bytes} :
    firstMention bs = some (data, rest) ↔ ∃ early mark, bs = early ++ mark :: rest ∧
      (∀ b ∈ early, mentions b = false) ∧ mentions mark = true ∧ data = early.flatten ++ mark := by
  induction bs generalizing data with
  | nil => simp [firstMention]
  | cons b bs ih =>
    rw [firstMention]
    constructor
    · intro h
      split_ifs at h with hb
      · cases h
        exact ⟨[], b, rfl, List.forall_mem_nil _, hb, rfl⟩
      · obtain ⟨⟨data, rest⟩, hfirst, heq⟩ := Option.map_eq_some_iff.1 h
        cases heq
        obtain ⟨early, mark, rfl, hearly, hmark, rfl⟩ := ih.1 hfirst
        exact ⟨b :: early, mark, rfl, List.forall_mem_cons.2 ⟨Bool.eq_false_iff.2 hb, hearly⟩, hmark,
          (List.append_assoc b early.flatten mark).symm⟩
    · rintro ⟨early, mark, heq, hearly, hmark, rfl⟩
      cases early with
      | nil =>
        cases heq
        rw [if_pos hmark]
        rfl
      | cons e early =>
        cases heq
        obtain ⟨hb, hearly⟩ := List.forall_mem_cons.1 hearly
        rw [if_neg (Bool.eq_false_iff.1 hb), ih.2 ⟨early, mark, rfl, hearly, hmark, rfl⟩, Option.map_some,
          List.flatten_cons, List.append_assoc]

theorem contains_iff {pat data : Bytes} : contains pat data = true ↔ pat <:+: data := by
  rw [contains]
  constructor
  · intro h
    obtain ⟨i, hi⟩ := Option.isSome_iff_exists.1 h
    exact (find_eq_some.1 hi).1.2.isInfix.trans (List.drop_suffix i data).isInfix
  · rintro ⟨before, behind, rfl⟩
    by_contra hnone
    refine find_eq_none.1 (Option.not_isSome_iff_eq_none.1 hnone) before.length ⟨?_, ?_⟩
    · simp only [List.length_append]
      omega
    · rw [List.append_assoc, List.drop_left]
      exact List.prefix_append pat behind

/-- what stands on one line stands on this side of a newline or on the other -/
theorem contains_append (pat : Bytes) {acc : Bytes} (hpat : 10 ∉ pat) (hne : pat ≠ []) (hacc : acc = [] ∨ acc.getLast? = some 10)
    (data : Bytes) : contains pat (acc ++ data) = (contains pat acc || contains pat data) := by
  rw [Bool.eq_iff_iff, Bool.or_eq_true, contains_iff, contains_iff, contains_iff, List.infix_append_iff]
  constructor
  · rintro (h | h | ⟨p, q, rfl, hp, hq⟩)
    · exact .inl h
    · exact .inr h
    · rcases hacc with rfl | hacc
      · rw [List.suffix_nil.1 hp]
        exact .inr hq.isInfix
      · cases p using List.reverseRecOn with
        | nil => exact .inr hq.isInfix
        | append_singleton p x =>
          obtain ⟨before, rfl⟩ := hp
          rw [← List.append_assoc, List.getLast?_concat] at hacc
          cases hacc
          exact absurd (List.mem_append_left q (List.mem_append_right p (List.mem_singleton_self 10))) hpat
  · rintro (h | h)
    · exact .inl h
    · exact .inr (.inl h)

theorem mentions_append {acc : Bytes} (hacc : acc = [] ∨ acc.getLast? = some 10) (data : Bytes) :
    mentions (acc ++ data) = (mentions acc || mentions data) := by
  have hreturn := contains_append returnMark (by decide) (by decide) hacc data
  have herror := contains_append errorMark (by decide) (by decide) hacc data
  rw [mentions, hreturn, herror, mentions, mentions]
  ac_rfl

theorem done_eq (data : Bytes) : done data = (decide (data.getLast? = some 10) && mentions data) := rfl

theorem getLast?_append_newline (acc : Bytes) {data : Bytes} (h : data.getLast? = some 10) : (acc ++ data).getLast? = some 10 := by
  rw [List.getLast?_append, h]
  rfl

/-- what ends in a newline and mentions nothing, with the beginning of a burst behind it, is not a reply yet -/
theorem not_done {acc begun : Bytes} (hacc : mentions acc = false) (hbegun : begun.getLast? ≠ some 10) :
    done (acc ++ begun) = false := by
  rw [done_eq]
  cases begun using List.reverseRecOn with
  | nil => rw [List.append_nil, hacc, Bool.and_false]
  | append_singleton begun x =>
    rw [← List.append_assoc, List.getLast?_concat, ← List.getLast?_concat (l := begun), decide_eq_false hbegun, Bool.false_and]

/-- One reply is read up to the end of the first burst that mentions a return or an error. -/
theorem recvLoop_bursts (acc begun : Bytes) {chunks : List Bytes} (hne : ∀ c ∈ chunks, c ≠ [])
    (hlast : acc = [] ∨ acc.getLast? = some 10) (hacc : mentions acc = false) (hbegun : begun.getLast? ≠ some 10) :
    (recvLoop (acc ++ begun) chunks).map (fun r => (r.1, bursts [] r.2)) =
      (firstMention (bursts begun chunks)).map fun r => (acc ++ r.1, r.2) := by
  induction chunks generalizing acc begun with
  | nil => rw [recvLoop, not_done hacc hbegun, if_neg Bool.false_ne_true, bursts, firstMention]; rfl
  | cons c cs ih =>
    have hcs : ∀ b ∈ cs, b ≠ [] := fun b hb => hne b (List.mem_cons_of_mem c hb)
    have hnil : ([] : Bytes).getLast? ≠ some 10 := fun h => by cases h
    rw [recvLoop, not_done hacc hbegun, if_neg Bool.false_ne_true, if_neg (hne c List.mem_cons_self), List.append_assoc, bursts]
    by_cases hburst : (begun ++ c).getLast? = some 10
    · rw [if_pos hburst, firstMention]
      cases hmentions : mentions (begun ++ c) with
      | true =>
        have hdone : done (acc ++ (begun ++ c)) = true := by
          rw [done_eq, mentions_append hlast, hmentions, Bool.or_true, Bool.and_true,
            decide_eq_true (getLast?_append_newline acc hburst)]
        have hloop : recvLoop (acc ++ (begun ++ c)) cs = some (acc ++ (begun ++ c), cs) := by
          cases cs <;> rw [recvLoop, if_pos hdone]
        rw [hloop, if_pos rfl]
        rfl
      | false =>
        have hmore := ih _ [] hcs (.inr (getLast?_append_newline acc hburst))
          (by rw [mentions_append hlast, hacc, hmentions]; rfl) hnil
        rw [List.append_nil] at hmore
        rw [hmore, if_neg Bool.false_ne_true, Option.map_map]
        congr 1
        funext r
        simp only [Function.comp_apply, List.append_assoc]
    · rw [if_neg hburst]
      exact ih _ _ hcs hlast hacc hburst

theorem recvLoop_suffix {data d : Bytes} {chunks rest : List Bytes} (h : recvLoop data chunks = some (d, rest)) :
    rest <:+ chunks := by
  induction chunks generalizing data with
  | nil =>
    rw [recvLoop] at h
    split_ifs at h
    cases h
    exact List.suffix_refl []
  | cons c cs ih =>
    rw [recvLoop] at h
    split_ifs at h
    · cases h
      exact List.suffix_refl _
    · cases h
      exact List.suffix_cons c rest
    · exact (ih h).trans (List.suffix_cons c cs)

/-- what `_send` does, of the bursts it has left to receive -/
def readReply (limits : Json.Limits) (bs : List Bytes) : Except QmpError (Json × List Bytes) :=
  match firstMention bs with
  | none => .error .osError
  | some (data, rest) => (parseReply limits data).map fun o => (o, rest)

theorem send_bursts (limits : Json.Limits) {chunks : List Bytes} (hne : ∀ c ∈ chunks, c ≠ []) :
    (send limits chunks).map (fun r => (r.1, bursts [] r.2)) = readReply limits (bursts [] chunks) := by
  have hloop := recvLoop_bursts [] [] hne (.inl rfl) (by decide) (fun h => by cases h)
  simp only [List.nil_append, Option.map_id_fun'] at hloop
  rw [readReply, ← show _ = firstMention (bursts [] chunks) from hloop, send]
  cases recvLoop [] chunks with
  | none => rfl
  | some r =>
    simp only [Option.map_some]
    cases parseReply limits r.1 <;> rfl

theorem bursts_end {begun : Bytes} {chunks : List Bytes} : ∀ b ∈ bursts begun chunks, b.getLast? = some 10 := by
  induction chunks generalizing begun with
  | nil => exact List.forall_mem_nil _
  | cons c cs ih =>
    rw [bursts]
    split_ifs with h
    · exact List.forall_mem_cons.2 ⟨h, ih⟩
    · exact ih

/-- the bursts are what was received, but for what is not ended -/
theorem bursts_flatten (begun : Bytes) (chunks : List Bytes) :
    ∃ left, begun ++ chunks.flatten = (bursts begun chunks).flatten ++ left := by
  induction chunks generalizing begun with
  | nil => exact ⟨begun, by rw [bursts, List.flatten_nil, List.append_nil, List.nil_append]⟩
  | cons c cs ih =>
    rw [bursts]
    split_ifs with h
    · obtain ⟨left, hleft⟩ := ih []
      refine ⟨left, ?_⟩
      rw [List.flatten_cons, List.flatten_cons, List.append_assoc, ← hleft, List.nil_append, ← List.append_assoc]
    · obtain ⟨left, hleft⟩ := ih (begun ++ c)
      exact ⟨left, by rw [← hleft, List.flatten_cons, List.append_assoc]⟩

/-! ## A run is whole messages -/

theorem Message.endsIn (m : Message) : EndsIn 10 m.bytes := by
  refine ⟨encodeChars m.line, encodeChars_append m.line ['\n'], fun h => m.no_newline (newline_mem_encodeChars h)⟩

/-- between two newlines there are whole messages -/
theorem run_messages {msgs : List Message} {before run rest : Bytes}
    (h : before ++ (run ++ rest) = (msgs.map Message.bytes).flatten) (hbefore : before.getLast? = some 10)
    (hrun : run.getLast? = some 10) : ∃ ms, ms ⊆ msgs ∧ run = (ms.map Message.bytes).flatten := by
  have hends : ∀ p ∈ msgs.map Message.bytes, EndsIn 10 p := by
    intro p hp
    obtain ⟨m, -, rfl⟩ := List.mem_map.1 hp
    exact m.endsIn
  obtain ⟨k, -, hk⟩ := whole_pieces hends h (Or.inr hbefore)
  obtain ⟨j, hj, -⟩ := whole_pieces (fun p hp => hends p (List.mem_of_mem_drop hp)) hk (Or.inr hrun)
  refine ⟨(msgs.drop k).take j, fun m hm => List.mem_of_mem_drop (List.mem_of_mem_take hm), ?_⟩
  rw [hj, List.map_take, List.map_drop]

theorem jsonLines_append (a b : List Char) : jsonLines (a ++ '\n' :: b) = jsonLines (a ++ ['\n']) ++ jsonLines b := by
  rw [jsonLines, splitlines_newline, List.filter_append]
  rfl

theorem jsonLines_messages (ms : List Message) :
    jsonLines (ms.map Message.text).flatten = (ms.map fun m => jsonLines m.text).flatten := by
  induction ms with
  | nil => rfl
  | cons m ms ih =>
    rw [List.map_cons, List.flatten_cons, Message.text, List.append_assoc, List.singleton_append, jsonLines_append, ih]
    rfl

theorem Message.jsonLines_ne_nil (m : Message) : jsonLines m.text ≠ [] := by
  obtain ⟨limits, hobject⟩ := m.object
  obtain ⟨c, hc, hspace⟩ := Json.loads_not_blank hobject
  have hbreak : isLineBreak c = false := by
    cases h : isLineBreak c with
    | false => rfl
    | true => rw [isSpace_of_isLineBreak h] at hspace; cases hspace
  obtain ⟨l, hl, hm⟩ := mem_splitlines hbreak (List.mem_append_left ['\n'] hc)
  refine List.ne_nil_of_mem (List.mem_filter.2 ⟨hl, ?_⟩)
  exact List.any_eq_true.2 ⟨c, hm, by simp [hspace]⟩

/-- one line to read is one message -/
theorem single_message {ms : List Message} {l : List Char} (h : jsonLines (ms.map Message.text).flatten = [l]) :
    ∃ m, ms = [m] ∧ jsonLines m.text = [l] := by
  rw [jsonLines_messages] at h
  cases ms with
  | nil => cases h
  | cons m ms =>
    rw [List.map_cons, List.flatten_cons] at h
    obtain ⟨l', ls, hl⟩ := List.exists_cons_of_ne_nil m.jsonLines_ne_nil
    rw [hl, List.cons_append] at h
    obtain ⟨rfl, htail⟩ := List.cons_eq_cons.1 h
    obtain ⟨rfl, hrest⟩ := List.append_eq_nil_iff.1 htail
    cases ms with
    | nil => exact ⟨m, rfl, hl⟩
    | cons n ns =>
      rw [List.map_cons, List.flatten_cons] at hrest
      exact absurd (List.append_eq_nil_iff.1 hrest).1 n.jsonLines_ne_nil

theorem decode_messages (ms : List Message) :
    decodeUtf8 (ms.map Message.bytes).flatten = some (ms.map Message.text).flatten := by
  rw [← decodeUtf8_encode]
  congr 1
  induction ms with
  | nil => rfl
  | cons m ms ih => rw [List.map_cons, List.flatten_cons, ih, List.map_cons, List.flatten_cons, encodeChars_append]; rfl

theorem notBlank_eq_false {l : List Char} : notBlank l = false ↔ ∀ c ∈ l, isSpace c = true := by
  simp [notBlank]

/-- Around the one line of a text that is not blank there are only spaces. `w` is a carriage return that is part of the break
ahead. -/
theorem splitlinesFrom_one (cur w cs : List Char) (hw : ∀ c ∈ w, isSpace c = true) (hcr : w ≠ [] → cs.head? = some '\n') :
    ((splitlinesFrom cur cs).filter notBlank = [] → ∀ c ∈ cur ++ (w ++ cs), isSpace c = true) ∧
      ∀ l, (splitlinesFrom cur cs).filter notBlank = [l] → ∃ pre post, cur ++ (w ++ cs) = pre ++ (l ++ post) ∧
        (∀ c ∈ pre, isSpace c = true) ∧ ∀ c ∈ post, isSpace c = true := by
  induction cs generalizing cur w with
  | nil =>
    have hnil : w = [] := by
      by_contra hne
      cases hcr hne
    subst hnil
    rw [List.nil_append, List.append_nil, splitlinesFrom]
    split_ifs with hcur
    · subst hcur
      exact ⟨fun _ => List.forall_mem_nil _, fun l h => by cases h⟩
    · cases hb : notBlank cur with
      | true =>
        rw [List.filter_cons_of_pos hb]
        refine ⟨fun h => absurd h (List.cons_ne_nil _ _), fun l h => ?_⟩
        cases h
        exact ⟨[], [], (List.append_nil cur).symm, List.forall_mem_nil _, List.forall_mem_nil _⟩
      | false =>
        rw [List.filter_cons_of_neg (by rw [hb]; exact Bool.false_ne_true)]
        exact ⟨fun _ => notBlank_eq_false.1 hb, fun l h => by cases h⟩
  | cons c cs ih =>
    rw [splitlinesFrom]
    split_ifs with hbreak hline
    · -- the carriage return of a break
      have hwc : ∀ d ∈ w ++ [c], isSpace d = true := List.forall_mem_append.2 ⟨hw, List.forall_mem_singleton.2 (by
        rw [hbreak.1]
        rfl)⟩
      have h := ih cur _ hwc fun _ => hbreak.2
      rwa [List.append_assoc, List.singleton_append] at h
    · obtain ⟨hall, hone⟩ := ih [] [] (List.forall_mem_nil _) fun h => absurd rfl h
      rw [List.nil_append, List.nil_append] at hall hone
      have hspace : ∀ d ∈ w ++ [c], isSpace d = true :=
        List.forall_mem_append.2 ⟨hw, List.forall_mem_singleton.2 (isSpace_of_isLineBreak hline)⟩
      have htext : cur ++ (w ++ c :: cs) = cur ++ ((w ++ [c]) ++ cs) := by rw [List.append_assoc w, List.singleton_append]
      rw [htext]
      cases hb : notBlank cur with
      | true =>
        rw [List.filter_cons_of_pos hb]
        refine ⟨fun h => absurd h (List.cons_ne_nil _ _), fun l h => ?_⟩
        obtain ⟨rfl, hrest⟩ := List.cons_eq_cons.1 h
        exact ⟨[], (w ++ [c]) ++ cs, rfl, List.forall_mem_nil _, List.forall_mem_append.2 ⟨hspace, hall hrest⟩⟩
      | false =>
        have hcur := notBlank_eq_false.1 hb
        rw [List.filter_cons_of_neg (by rw [hb]; exact Bool.false_ne_true)]
        refine ⟨fun h => List.forall_mem_append.2 ⟨hcur, List.forall_mem_append.2 ⟨hspace, hall h⟩⟩, fun l h => ?_⟩
        obtain ⟨pre, post, rfl, hpre, hpost⟩ := hone l h
        refine ⟨cur ++ ((w ++ [c]) ++ pre), post, ?_, ?_, hpost⟩
        · simp only [List.append_assoc]
        · exact List.forall_mem_append.2 ⟨hcur, List.forall_mem_append.2 ⟨hspace, hpre⟩⟩
    · have hnil : w = [] := by
        by_contra hne
        cases hcr hne
        exact hline rfl
      subst hnil
      have h := ih (cur ++ [c]) [] (List.forall_mem_nil _) fun h => absurd rfl h
      rwa [List.append_assoc, List.nil_append, List.singleton_append] at h

/-- A message on one line for `splitlines` too is what that line reads as. -/
theorem message_read {m : Message} {l : List Char} (hl : jsonLines m.text = [l]) {limits : Json.Limits} {v : Json}
    (hv : Json.loads limits l = .ok v) : v = .obj m.fields := by
  obtain ⟨pre, post, htext, hpre, hpost⟩ :=
    (splitlinesFrom_one [] [] _ (List.forall_mem_nil _) fun h => absurd rfl h).2 l hl
  rw [List.nil_append, List.nil_append] at htext
  have hmem : l ∈ splitlines m.text := (List.mem_filter.1 (hl ▸ List.mem_singleton_self l)).1
  have hline : ∃ post', m.line = pre ++ (l ++ post') ∧ ∀ c ∈ post', isSpace c = true := by
    cases post using List.reverseRecOn with
    | nil =>
      -- the newline behind the message is no part of the line
      obtain ⟨c, hc, hspace⟩ := Json.loads_not_blank hv
      have hne : l ≠ [] := List.ne_nil_of_mem hc
      have hlast : l.getLast? = some '\n' := by
        rw [← List.getLast?_append_of_ne_nil pre hne, ← List.append_nil l, ← htext, Message.text, List.getLast?_concat]
      cases splitlines_plain hmem '\n' (List.mem_of_getLast? hlast)
    | append_singleton post c =>
      rw [← List.append_assoc l, ← List.append_assoc pre] at htext
      exact ⟨post, (List.append_inj' htext rfl).1, (List.forall_mem_append.1 hpost).1⟩
  obtain ⟨post', hline, hpost'⟩ := hline
  obtain ⟨limits', hobject⟩ := m.object
  rw [hline] at hobject
  exact (Json.loads_surrounded hpre hpost' hobject hv).symm

/-! ## Reading one reply -/

/-- UTF-8 of lines that `json.loads` reads, blank ones apart, and there is one -/
def Readable (limits : Json.Limits) (data : Bytes) : Prop :=
  ∃ text, decodeUtf8 data = some text ∧ jsonLines text ≠ [] ∧ ∀ l ∈ jsonLines text, ∃ v, Json.loads limits l = .ok v

theorem mapM_eq_ok {E A B : Type} {f : A → Except E B} {as : List A} {bs : List B} :
    as.mapM f = .ok bs ↔ as.map f = bs.map .ok := by
  induction as generalizing bs with
  | nil => cases bs <;> simp [pure, Except.pure]
  | cons a as ih =>
    rw [List.mapM_cons, List.map_cons]
    cases hf : f a with
    | error e => cases bs <;> simp [Bind.bind, Except.bind]
    | ok b =>
      cases hs : as.mapM f with
      | error e =>
        cases bs with
        | nil => simp [Bind.bind, Except.bind]
        | cons c cs =>
          have hne : as.map f ≠ cs.map .ok := fun h => by
            rw [← ih, hs] at h
            cases h
          simp [Bind.bind, Except.bind, hne]
      | ok bs' =>
        cases bs with
        | nil => simp [Bind.bind, Except.bind, pure, Except.pure]
        | cons c cs =>
          have hmap := ih.1 hs
          have hinj : bs'.map (Except.ok : B → Except E B) = cs.map .ok ↔ bs' = cs :=
            (List.map_injective_iff.2 fun _ _ h => Except.ok.inj h).eq_iff
          simp [Bind.bind, Except.bind, pure, Except.pure, hmap, hinj]

theorem exists_map_ok {E A B : Type} {f : A → Except E B} {as : List A} (h : ∀ a ∈ as, ∃ b, f a = .ok b) :
    ∃ bs : List B, as.map f = bs.map .ok := by
  induction as with
  | nil => exact ⟨[], rfl⟩
  | cons a as ih =>
    obtain ⟨⟨b, hb⟩, has⟩ := List.forall_mem_cons.1 h
    obtain ⟨bs, hbs⟩ := ih has
    exact ⟨b :: bs, by rw [List.map_cons, hb, hbs, List.map_cons]⟩

theorem readable_iff {limits : Json.Limits} {data : Bytes} : Readable limits data ↔ ∃ o, parseReply limits data = .ok o := by
  unfold Readable parseReply
  cases decodeUtf8 data with
  | none => simp
  | some text =>
    simp only [Option.some.injEq, exists_eq_left']
    constructor
    · rintro ⟨hne, hall⟩
      obtain ⟨os, hos⟩ := exists_map_ok hall
      rw [mapM_eq_ok.2 hos]
      cases os with
      | nil => exact absurd (List.map_eq_nil_iff.1 hos) hne
      | cons o os => cases os <;> exact ⟨_, rfl⟩
    · rintro ⟨o, ho⟩
      cases hm : (jsonLines text).mapM (Json.loads limits) with
      | error e => rw [hm] at ho; cases ho
      | ok os =>
        rw [hm] at ho
        have hmap := mapM_eq_ok.1 hm
        refine ⟨fun hnil => ?_, fun l hl => ?_⟩
        · rw [hnil] at hmap
          rw [List.map_eq_nil_iff.1 hmap.symm] at ho
          cases ho
        · obtain ⟨v, -, hv⟩ := List.mem_map.1 (hmap ▸ List.mem_map_of_mem hl)
          exact ⟨v, hv.symm⟩

/-- what reads as an answer is one line -/
theorem parseReply_answer {limits : Json.Limits} {data : Bytes} {fields : List (String × Json)} {a : Answer}
    (ha : answerOf fields = some a) (h : parseReply limits data = .ok (.obj fields)) :
    ∃ text l, decodeUtf8 data = some text ∧ jsonLines text = [l] ∧ Json.loads limits l = .ok (.obj fields) := by
  unfold parseReply at h
  split at h
  · cases h
  · rename_i text htext
    refine ⟨text, ?_⟩
    split at h
    · cases h
    · cases h
    · rename_i o hm
      cases h
      obtain ⟨l, hl, ho⟩ := List.map_eq_singleton_iff.1 (mapM_eq_ok.1 hm)
      exact ⟨l, htext, hl, ho⟩
    · -- a pair has neither key
      cases h
      cases ha

theorem parseReply_line {limits : Json.Limits} {data : Bytes} {text l : List Char} {o : Json}
    (htext : decodeUtf8 data = some text) (hl : jsonLines text = [l]) (ho : Json.loads limits l = .ok o) :
    parseReply limits data = .ok o := by
  have hm : (jsonLines text).mapM (Json.loads limits) = .ok [o] :=
    mapM_eq_ok.2 (by rw [hl, List.map_singleton, ho, List.map_singleton])
  simp only [parseReply, htext, hm]

theorem readReply_iff {limits : Json.Limits} {bs rest : List Bytes} {o : Json} :
    readReply limits bs = .ok (o, rest) ↔ ∃ early mark, bs = early ++ mark :: rest ∧ (∀ b ∈ early, mentions b = false) ∧
      mentions mark = true ∧ parseReply limits (early.flatten ++ mark) = .ok o := by
  constructor
  · intro h
    unfold readReply at h
    split at h
    · cases h
    · rename_i data rest' hfirst
      obtain ⟨early, mark, hbs, hearly, hmark, rfl⟩ := firstMention_iff.1 hfirst
      cases hp : parseReply limits (early.flatten ++ mark) with
      | error e => rw [hp] at h; cases h
      | ok o' =>
        rw [hp] at h
        cases h
        exact ⟨early, mark, hbs, hearly, hmark, hp⟩
  · rintro ⟨early, mark, hbs, hearly, hmark, hp⟩
    simp only [readReply, firstMention_iff.2 ⟨early, mark, hbs, hearly, hmark, rfl⟩, hp, Except.map]

/-- reading never reports what the server answered -/
theorem readReply_error {limits : Json.Limits} {bs : List Bytes} {e : QmpError} (h : readReply limits bs = .error e)
    (command : String) (desc : Json) : e ≠ .runtimeError command desc := by
  unfold readReply at h
  split at h
  · cases h; exact QmpError.noConfusion
  · rename_i data rest hfirst
    unfold parseReply at h
    split at h
    · cases h; exact QmpError.noConfusion
    · split at h <;> cases h <;> exact QmpError.noConfusion

/-! ## The answer -/

/-- what `execute` does with the reply -/
def settle (command : String) (response : Json) : Except QmpError Json := do
  if ← hasKey "error" response then
    throw (.runtimeError command (← getItem "desc" (← getItem "error" response)))
  getItem "return" response

theorem settle_obj (command : String) (fields : List (String × Json)) :
    settle command (.obj fields) =
      match fields.lookup "error" with
      | none => getItem "return" (.obj fields)
      | some e => (getItem "desc" e).bind fun desc => .error (.runtimeError command desc) := by
  cases h : fields.lookup "error" with
  | none =>
    simp only [settle, hasKey, h]
    rfl
  | some e =>
    simp only [settle, hasKey, getItem, h]
    cases e <;> rfl

theorem settle_object {command : String} {o : Json} {a : Answer} (h : settle command o = owed command a) :
    ∃ fields, o = .obj fields := by
  cases o with
  | obj fields => exact ⟨fields, rfl⟩
  | arr items =>
    have htype : settle command (.arr items) = .error .typeError := by
      simp only [settle, hasKey, getItem]
      cases List.any items _ <;> rfl
    rw [htype] at h
    cases a <;> cases h
  | str s =>
    have htype : settle command (.str s) = .error .typeError := by
      simp only [settle, hasKey, getItem]
      cases Option.isSome _ <;> rfl
    rw [htype] at h
    cases a <;> cases h
  | _ => cases a <;> cases h

/-- the answer is the caller's exactly when the object gives it -/
theorem settle_owed {command : String} {fields : List (String × Json)} {a : Answer} :
    settle command (.obj fields) = owed command a ↔ answerOf fields = some a := by
  rw [settle_obj, answerOf]
  cases h : fields.lookup "error" with
  | none =>
    cases a with
    | ret v => cases hv : fields.lookup "return" <;> simp [owed, getItem, hv]
    | err desc => cases hv : fields.lookup "return" <;> simp [owed, getItem, hv]
  | some e =>
    cases e with
    | obj fields' =>
      cases a with
      | ret v => cases hd : fields'.lookup "desc" <;> simp [owed, getItem, hd, Except.bind]
      | err desc => cases hd : fields'.lookup "desc" <;> simp [owed, getItem, hd, Except.bind]
    | _ => cases a <;> simp [owed, getItem, Except.bind]

/-- A command runs on the bursts behind the chunk taken for the greeting. -/
theorem execute_bursts (limits : Json.Limits) (command : String) (c₀ : Bytes) {chunks : List Bytes}
    (hne : ∀ c ∈ chunks, c ≠ []) :
    execute limits command (c₀ :: chunks) = (readReply limits (bursts [] chunks)).bind fun first =>
      (readReply limits first.2).bind fun second => settle command second.1 := by
  simp only [execute, sendCmd, settle, ← send_bursts limits hne]
  cases hs : send limits chunks with
  | error e => rfl
  | ok first =>
    obtain ⟨o₁, chunks₁⟩ := first
    have hsuffix : chunks₁ <:+ chunks := by
      unfold send at hs
      split at hs
      · cases hs
      · rename_i data rest hloop
        cases hp : parseReply limits data with
        | error e => rw [hp] at hs; cases hs
        | ok o => rw [hp] at hs; cases hs; exact recvLoop_suffix hloop
    simp only [Except.bind, Bind.bind, Except.map, ← send_bursts limits fun c hc => hne c (hsuffix.subset hc)]
    cases hs' : send limits chunks₁ with
    | error e => rfl
    | ok second =>
      obtain ⟨o₂, chunks₂⟩ := second
      simp only
      cases hasKey "error" o₂ with
      | error e => rfl
      | ok b =>
        cases b with
        | false => rfl
        | true =>
          simp only [if_true]
          cases getItem "error" o₂ with
          | error e => rfl
          | ok e =>
            simp only
            cases getItem "desc" e <;> rfl

/-! ## The command's own reply -/

/-- The reply is received alone. Of the bursts behind the chunk taken for the greeting, the first that mentions a return or
an error ends what is taken for the reply to `qmp_capabilities`, which `json.loads` reads. The next is one message: the
reply, or one that says the same. It mentions a return or an error, is one line to `splitlines` too, and `json.loads` reads
it, deep and long as it may be. -/
inductive Alone (limits : Json.Limits) (x : Exchange) : Prop where
  | intro (c₀ : Bytes) (chunks : List Bytes) (early : List Bytes) (mark : Bytes) (rest : List Bytes) (m : Message)
      (l : List Char) (v : Json)
      (received : x.chunks = c₀ :: chunks) (bursts : bursts [] chunks = early ++ mark :: m.bytes :: rest)
      (unmarked : ∀ b ∈ early, mentions b = false) (marked : mentions mark = true)
      (readable : Readable limits (early.flatten ++ mark))
      (message : m ∈ x.messages) (same : answerOf m.fields = answerOf x.reply.fields) (own : mentions m.bytes = true)
      (line : jsonLines m.text = [l]) (within : Json.loads limits l = .ok v)

theorem error_ne_owed {command : String} {a : Answer} {e : QmpError} (he : ∀ command desc, e ≠ .runtimeError command desc) :
    .error e ≠ owed command a := by
  intro heq
  cases a with
  | ret v => cases heq
  | err desc => cases heq; exact he _ _ rfl

/-- bursts that are one message are one burst -/
theorem bursts_message {m : Message} {early : List Bytes} {own : Bytes} (hearly : ∀ b ∈ early, b.getLast? = some 10)
    (hown : own ≠ []) (h : early.flatten ++ own = m.bytes) : early = [] ∧ own = m.bytes := by
  cases early with
  | nil => exact ⟨rfl, h⟩
  | cons b bs =>
    -- the newline a first burst ends in would stand before the message's own
    obtain ⟨body, hbody, hmem⟩ := m.endsIn
    obtain ⟨own, x, rfl⟩ := List.eq_nil_or_concat own |>.resolve_left hown
    rw [hbody, List.concat_eq_append, ← List.append_assoc] at h
    have hin : 10 ∈ (b :: bs).flatten ++ own :=
      List.mem_append_left own (List.mem_flatten.2 ⟨b, List.mem_cons_self, List.mem_of_getLast? (hearly b List.mem_cons_self)⟩)
    exact absurd ((List.append_inj' h rfl).1 ▸ hin) hmem

theorem alone_of_execute {limits : Json.Limits} (x : Exchange)
    (h : execute limits x.command x.chunks = owed x.command x.answer) : Alone limits x := by
  cases hchunks : x.chunks with
  | nil =>
    rw [hchunks] at h
    cases ha : x.answer <;> rw [ha] at h <;> cases h
  | cons c₀ chunks =>
    have hne : ∀ c ∈ chunks, c ≠ [] := fun c hc => x.nonempty c (hchunks ▸ List.mem_cons_of_mem c₀ hc)
    rw [hchunks, execute_bursts limits x.command c₀ hne] at h
    cases hs : readReply limits (bursts [] chunks) with
    | error e => rw [hs] at h; exact absurd h (error_ne_owed (readReply_error hs))
    | ok r =>
      obtain ⟨o₁, behind⟩ := r
      obtain ⟨early, mark, hbs, hearly, hmark, hp₁⟩ := readReply_iff.1 hs
      rw [hs] at h
      simp only [Except.bind] at h
      cases hs' : readReply limits behind with
      | error e => rw [hs'] at h; exact absurd h (error_ne_owed (readReply_error hs'))
      | ok r =>
        obtain ⟨o₂, rest⟩ := r
        obtain ⟨early', own, rfl, hearly', hown, hp₂⟩ := readReply_iff.1 hs'
        rw [hs'] at h
        simp only at h
        obtain ⟨fields, rfl⟩ := settle_object h
        have hanswer := settle_owed.1 h
        have hends : ∀ b ∈ early ++ mark :: (early' ++ own :: rest), b.getLast? = some 10 := hbs ▸ bursts_end
        have hlast : ∀ b ∈ early', b.getLast? = some 10 := fun b hb => hends b (by simp [hb])
        -- what is read for the command is whole messages, and one line is one message
        obtain ⟨left, hleft⟩ := bursts_flatten [] chunks
        have hsent := x.sent
        rw [hchunks, List.flatten_cons, ← List.nil_append chunks.flatten, hleft, hbs] at hsent
        have hsplit : c₀ ++ ((early ++ mark :: (early' ++ own :: rest)).flatten ++ left) =
            (c₀ ++ (early.flatten ++ mark)) ++ ((early'.flatten ++ own) ++ (rest.flatten ++ left)) := by
          simp only [List.flatten_append, List.flatten_cons, List.append_assoc]
        rw [hsplit] at hsent
        obtain ⟨ms, hms, hflat⟩ := run_messages hsent
          (getLast?_append_newline _ (getLast?_append_newline _ (hends mark (by simp))))
          (getLast?_append_newline _ (hends own (by simp)))
        obtain ⟨text, l, htext, hl, hloads⟩ := parseReply_answer hanswer hp₂
        rw [hflat, decode_messages] at htext
        cases htext
        obtain ⟨m, rfl, hline⟩ := single_message hl
        rw [List.map_singleton, List.flatten_singleton] at hflat
        have hne' : own ≠ [] := fun hnil => by
          have := hends own (by simp)
          rw [hnil] at this
          cases this
        obtain ⟨rfl, rfl⟩ := bursts_message hlast hne' hflat
        have hfields := message_read hline hloads
        cases hfields
        exact .intro c₀ chunks early mark rest m l _ hchunks hbs hearly hmark (readable_iff.2 ⟨o₁, hp₁⟩)
          (hms List.mem_cons_self) (hanswer.trans x.gives.symm) hown hline hloads

theorem execute_of_alone {limits : Json.Limits} {x : Exchange} (h : Alone limits x) :
    execute limits x.command x.chunks = owed x.command x.answer := by
  obtain ⟨c₀, chunks, early, mark, rest, m, l, v, hchunks, hbs, hearly, hmark, hread, -, hsame, hown, hline, hv⟩ := h
  have hne : ∀ c ∈ chunks, c ≠ [] := fun c hc => x.nonempty c (hchunks ▸ List.mem_cons_of_mem c₀ hc)
  obtain ⟨o₁, hp₁⟩ := readable_iff.1 hread
  have hs : readReply limits (bursts [] chunks) = .ok (o₁, m.bytes :: rest) :=
    readReply_iff.2 ⟨early, mark, hbs, hearly, hmark, hp₁⟩
  have hp₂ : parseReply limits m.bytes = .ok (.obj m.fields) :=
    parseReply_line (decodeUtf8_encode m.text) hline (message_read hline hv ▸ hv)
  have hs' : readReply limits (m.bytes :: rest) = .ok (.obj m.fields, rest) :=
    readReply_iff.2 ⟨[], m.bytes, rfl, List.forall_mem_nil _, hown, hp₂⟩
  rw [hchunks, execute_bursts limits x.command c₀ hne, hs]
  simp only [Except.bind, hs']
  exact settle_owed.2 (hsame.trans x.gives)

/-- a `query-status` that is answered `guest-panicked` ends the wait of whoever asks a second after the last time -/
def PanicNoticed (limits : Json.Limits) (x : Exchange) : Prop :=
  ∀ status (vm : Vm) (p : Poll), x.command = "query-status" → x.answer = .ret (.obj status) →
    status.lookup "status" = some (.str "guest-panicked") → p.status = execute limits x.command x.chunks →
    p.returncode = none → 1 ≤ p.checked - vm.lastStatusCheck → (checkAlive vm p).2 = some .vmPanicked

theorem panicNoticed_of_execute {limits : Json.Limits} {x : Exchange} (h : execute limits x.command x.chunks = owed x.command x.answer) :
    PanicNoticed limits x := by
  intro status vm p _ hanswer hpanicked hstatus hrc hchecked
  rw [h, hanswer, owed] at hstatus
  simp only [checkAlive, hrc, if_neg (not_lt.2 hchecked), hstatus, hpanicked, if_true]

/-- **A command gets its own reply** exactly when that reply, or a message that says the same, is received alone. -/
theorem execute_answers_iff (limits : Json.Limits) (x : Exchange) :
    (execute limits x.command x.chunks = owed x.command x.answer ∧ PanicNoticed limits x) ↔ Alone limits x := by
  constructor
  · rintro ⟨h, -⟩
    exact alone_of_execute x h
  · intro h
    exact ⟨execute_of_alone h, panicNoticed_of_execute (execute_of_alone h)⟩

/-- the limits of an interpreter as it is installed, well inside its recursion limit of 1000 -/
def installed : Json.Limits := ⟨4300, 900⟩

/-- the object a line reads as -/
def objectOf (line : List Char) : Option (List (String × Json)) :=
  match Json.loads installed line with
  | .ok (.obj fields) => some fields
  | _ => none

theorem loads_of_objectOf {line : List Char} {fields : List (String × Json)} (h : objectOf line = some fields) :
    Json.loads installed line = .ok (.obj fields) := by
  unfold objectOf at h
  split at h
  · rename_i ho
    cases h
    exact ho
  · cases h

def messageOf (line : String) (hline : '\n' ∉ line.toList) (ho : (objectOf line.toList).isSome) : Message where
  line := line.toList
  fields := (objectOf line.toList).get ho
  no_newline := hline
  object := ⟨installed, loads_of_objectOf (Option.some_get ho).symm⟩

def hello : Message := messageOf "\x7b\"QMP\": \x7b\x7d\x7d" (by decide +kernel) (by decide +kernel)

def agreed : Message := messageOf "\x7b\"return\": \x7b\x7d\x7d" (by decide +kernel) (by decide +kernel)

def stopped : Message := messageOf "\x7b\"event\": \"STOP\"\x7d" (by decide +kernel) (by decide +kernel)

def panicked : Message :=
  messageOf "\x7b\"return\": \x7b\"status\": \"guest-panicked\"\x7d\x7d" (by decide +kernel) (by decide +kernel)

theorem answer_return {m : Message} (herror : (m.fields.lookup "error").isNone) (h : (m.fields.lookup "return").isSome) :
    answerOf m.fields = some (.ret ((m.fields.lookup "return").get h)) := by
  obtain ⟨v, hv⟩ := Option.isSome_iff_exists.1 h
  simp only [answerOf, Option.isNone_iff_eq_none.1 herror, hv, Option.map_some, Option.get_some]

/-- a VM that stops as panicked while it is asked: the event and the reply in one chunk -/
def stoppedMeanwhile : Exchange where
  command := "query-status"
  greeting := hello
  early := []
  capabilities := agreed
  late := [stopped]
  reply := panicked
  answer := .ret ((panicked.fields.lookup "return").get (by decide +kernel))
  after := []
  negotiated := by decide +kernel
  gives := answer_return (by decide +kernel) (by decide +kernel)
  events := by
    intro m hm
    rw [List.nil_append, List.append_nil, List.mem_singleton] at hm
    rw [hm]
    exact show (stopped.fields.lookup "event").isSome = true by decide +kernel
  chunks := [hello.bytes, agreed.bytes, stopped.bytes ++ panicked.bytes]
  nonempty := by decide +kernel
  sent := by simp [Dialogue.messages]

def isKeyError : Except QmpError Json → Bool
  | .error (.keyError key) => key = "return"
  | _ => false

/-- the event is taken for the reply's acknowledgement, and the lookup of `return` fails -/
theorem event_with_reply :
    isKeyError (execute installed stoppedMeanwhile.command stoppedMeanwhile.chunks) = true ∧
      ¬ (execute installed stoppedMeanwhile.command stoppedMeanwhile.chunks =
          owed stoppedMeanwhile.command stoppedMeanwhile.answer ∧ PanicNoticed installed stoppedMeanwhile) := by
  have hkey : isKeyError (execute installed stoppedMeanwhile.command stoppedMeanwhile.chunks) = true := by decide +kernel
  refine ⟨hkey, fun h => ?_⟩
  rw [h.1] at hkey
  cases hkey

end DrtmTest.QmpReplies
