/-
What `run` leaves of an output that the hypervisor writes into.

`Item` is what stands on the console behind the echo of a command: a character of its output, a carriage return among them,
or a line of the hypervisor. `run` ends at the leftmost prompt, and a line of the hypervisor may hold one.

- `cut_prompt`: in UTF-8 the leftmost prompt is where the first characters of one are.
- `exists_cut`: that is in the first hypervisor line with a prompt, or it is the shell's own.
- `run_heard`: what `run` returns is what was printed up to the last line end before it (`heard`), without terminal
  sequences and carriage returns.
-/
import DrtmTest.ConsoleRun
import DrtmTest.PcrReads
import Mathlib.Data.List.DropRight

namespace DrtmTest.SharedPort

open DrtmTest.Find DrtmTest.Text DrtmTest.Console DrtmTest.QemuVm DrtmTest.Ansi DrtmTest.Noise DrtmTest.ConsoleRun
  DrtmTest.PcrReads

/-! ## What stands on the console -/

/-- a character of the output, or a line the hypervisor writes -/
inductive Item where
  | printed (c : Char)
  | spliced (x : Spliced)

def Item.text : Item → List Char
  | .printed c => [c]
  | .spliced x => x.chars

def textOf (out : List Item) : List Char := out.flatMap Item.text

/-- no character of the output ends a prompt or starts a terminal sequence -/
def Plain (out : List Item) : Prop := ∀ c, .printed c ∈ out → c ≠ '#' ∧ c ≠ '\x1b'

def prompt : List Char := shellPrompt.toList

/-- of a prompt behind the text and those in it this is the leftmost -/
def Ahead (t : List Char) : Prop := ∀ a b, t ++ prompt = a ++ (prompt ++ b) → b = []

/-- what the shell itself writes around the output of a command -/
structure Frame where
  echo : List Char
  /-- what stands before the prompt on its line -/
  lead : List Char
  echo_line : '\n' ∉ echo
  echo_quiet : ¬ prompt <:+: echo
  lead_line : '\n' ∉ lead
  lead_ahead : Ahead lead

/-- the console from behind one prompt to behind the next -/
def Frame.chars (f : Frame) (out : List Item) : List Char := f.echo ++ '\n' :: (textOf out ++ (f.lead ++ prompt))

/-! ## What `run` leaves of it -/

/-- the line holds no prompt -/
def isQuiet (x : Spliced) : Bool := !decide (prompt <:+: x.text)

def quiet : Item → Bool
  | .printed _ => true
  | .spliced x => isQuiet x

/-- a character printed that ends no line -/
def isOpen : Item → Bool
  | .printed c => c ≠ '\n'
  | .spliced _ => false

/-- what stands before the first line that holds a prompt, up to its last line end -/
def heard (out : List Item) : List Item := (out.takeWhile quiet).rdropWhile isOpen

/-- a text without terminal sequences and carriage returns -/
def bare (cs : List Char) : List Char := (stripAnsi cs).filter (· ≠ '\r')

theorem newline_not_mem_bare {cs : List Char} (h : '\n' ∉ cs) : '\n' ∉ bare cs := fun hm =>
  h (mem_of_mem_stripAnsiFrom (List.mem_filter.1 hm).1)

/-- a hypervisor line as `run` leaves it -/
def cleaned (x : Spliced) : Spliced := ⟨bare x.text, newline_not_mem_bare x.oneLine⟩

/-- an item as `run` leaves it -/
def Item.cleaned : Item → List Char
  | .printed c => if c = '\r' then [] else [c]
  | .spliced x => (SharedPort.cleaned x).chars

def cleanedText (out : List Item) : List Char := out.flatMap Item.cleaned

/-! ## The leftmost prompt -/

theorem ahead_nil : Ahead [] := by
  intro a b h
  have := congrArg List.length h
  simp only [List.length_append, List.nil_append] at this
  exact List.eq_nil_of_length_eq_zero (by omega)

theorem not_infix_snoc {a : List Char} (h : ¬ prompt <:+: a) {c : Char} (hc : c ≠ '#') : ¬ prompt <:+: a ++ [c] := by
  rintro ⟨x, y, hxy⟩
  cases y using List.reverseRecOn with
  | nil =>
    have hlast := congrArg List.getLast? hxy
    rw [List.append_nil, List.getLast?_append_of_ne_nil x (by decide), List.getLast?_concat] at hlast
    exact hc (Option.some.inj hlast).symm
  | append_singleton y d =>
    rw [← List.append_assoc] at hxy
    exact h ⟨x, y, (List.append_inj' hxy rfl).1⟩

theorem not_infix_append {a b : List Char} (ha : ¬ prompt <:+: a) (hb : ¬ prompt <:+: b) (hhead : ∀ c ∈ b.head?, c ∉ prompt) :
    ¬ prompt <:+: a ++ b := by
  rw [List.infix_append_iff]
  rintro (h | h | ⟨s, t, hst, hs, ht⟩)
  · exact ha h
  · exact hb h
  · cases t with
    | nil =>
      rw [List.append_nil] at hst
      exact ha (hst ▸ hs.isInfix)
    | cons c t =>
      obtain ⟨more, rfl⟩ := ht
      exact hhead c rfl (hst ▸ List.mem_append_right s List.mem_cons_self)

/-- what holds no first character of a prompt puts none together -/
theorem not_infix_behind {a b : List Char} (ha : 'r' ∉ a) (hb : ¬ prompt <:+: b) : ¬ prompt <:+: a ++ b := by
  rintro ⟨x, y, hxy⟩
  rw [List.append_assoc] at hxy
  rcases List.append_eq_append_iff.1 hxy with ⟨s, rfl, hs⟩ | ⟨s, rfl, hs⟩
  · cases s with
    | nil => exact hb ⟨[], y, hs⟩
    | cons c s =>
      obtain ⟨rfl, -⟩ := List.cons.inj hs
      exact ha (List.mem_append_right x List.mem_cons_self)
  · exact hb ⟨s, y, by rw [List.append_assoc, hs]⟩

theorem ahead_append {pre t : List Char} (hpre : ¬ prompt <:+: pre) (hlast : ∀ c ∈ pre.getLast?, c ∉ prompt) (ht : Ahead t) :
    Ahead (pre ++ t) := by
  intro a b h
  rw [List.append_assoc] at h
  rcases List.append_eq_append_iff.1 h with ⟨s, rfl, hs⟩ | ⟨s, rfl, hs⟩
  · exact ht s b hs
  · cases s with
    | nil => exact ht [] b hs.symm
    | cons c s =>
      -- the text ends inside the prompt, or holds it
      rcases List.append_eq_append_iff.1 hs with ⟨q, hq, -⟩ | ⟨q, hq, -⟩
      · exact absurd ⟨a, q, by rw [hq, List.append_assoc]⟩ hpre
      · obtain ⟨s', d, hd⟩ := List.eq_nil_or_concat (c :: s) |>.resolve_left (List.cons_ne_nil c s)
        have hmem : d ∈ prompt := by
          rw [hq, hd]
          exact List.mem_append_left q (by simp)
        have hget : (a ++ c :: s).getLast? = some d := by
          rw [List.getLast?_append_of_ne_nil a (List.cons_ne_nil c s), hd, List.concat_eq_append, List.getLast?_concat]
        exact absurd hmem (hlast d hget)

/-- a text that holds a prompt has a leftmost one -/
theorem exists_ahead {cs : List Char} (h : prompt <:+: cs) : ∃ u v, cs = u ++ (prompt ++ v) ∧ Ahead u := by
  induction cs with
  | nil => exact absurd (List.infix_nil.1 h) (by decide)
  | cons c cs ih =>
    by_cases hhead : prompt <+: c :: cs
    · obtain ⟨v, hv⟩ := hhead
      exact ⟨[], v, hv.symm, ahead_nil⟩
    · obtain ⟨u, v, rfl, hu⟩ := ih ((List.infix_cons_iff.1 h).resolve_left hhead)
      refine ⟨c :: u, v, rfl, fun a b hab => ?_⟩
      cases a with
      | nil => exact absurd ⟨b ++ v, by rw [← List.append_assoc, ← List.nil_append (prompt ++ b), ← hab]; simp⟩ hhead
      | cons d a => exact hu a b (List.cons.inj hab).2

theorem prompt_ascii : ∀ c ∈ prompt, c.toNat < 128 := by
  have hall : prompt.all (fun c => decide (c.toNat < 128)) = true := by decide
  exact fun c hc => of_decide_eq_true (List.all_eq_true.1 hall c hc)

/-- The console is cut at the first prompt among its characters. -/
theorem cut_prompt {t : List Char} (h : Ahead t) (more : Bytes) :
    cut (encode shellPrompt) (encodeChars (t ++ prompt) ++ more) = some (encodeChars (t ++ prompt), more) := by
  have hbytes : encodeChars (t ++ prompt) = encodeChars t ++ encode shellPrompt := encodeChars_append t prompt
  have hfind : find (encode shellPrompt) (encodeChars (t ++ prompt)) = some (encodeChars t).length := by
    refine find_eq_some.2 ⟨⟨?_, ?_⟩, fun j hj hat => ?_⟩
    · rw [hbytes, List.length_append]
      exact Nat.le_add_right _ _
    · rw [hbytes, List.drop_left]
    · obtain ⟨hle, rest, hrest⟩ := hat
      have hsplit : encodeChars (t ++ prompt) = (encodeChars (t ++ prompt)).take j ++ (encodeChars prompt ++ rest) := by
        rw [show encodeChars prompt = encode shellPrompt from rfl, hrest, List.take_append_drop]
      obtain ⟨a, b, hab, ha⟩ := split_of_encodeChars (by decide) prompt_ascii hsplit
      have hlength := congrArg List.length ha
      rw [h a b hab, List.append_nil] at hab
      rw [← (List.append_inj' hab rfl).1, List.length_take] at hlength
      omega
  have hlength : (encodeChars t).length + (encode shellPrompt).length = (encodeChars (t ++ prompt)).length := by
    rw [hbytes, List.length_append]
  have hcut : cut (encode shellPrompt) (encodeChars (t ++ prompt)) = some (encodeChars (t ++ prompt), []) := by
    rw [cut_found hfind, hlength, List.take_length, List.drop_length]
  exact cut_more hcut more

/-! ## Where the output is cut -/

theorem quiet_chars {x : Spliced} (h : isQuiet x = true) : ¬ prompt <:+: x.chars := by
  have htext : ¬ prompt <:+: x.text := by simpa [isQuiet] using h
  exact not_infix_snoc (not_infix_behind (by decide) htext) (by decide)

theorem not_infix_quiet {out : List Item} (hplain : Plain out) (hquiet : ∀ i ∈ out, quiet i = true) {start : List Char}
    (h : ¬ prompt <:+: start) : ¬ prompt <:+: start ++ textOf out := by
  induction out generalizing start with
  | nil => rwa [textOf, List.flatMap_nil, List.append_nil]
  | cons i out ih =>
    obtain ⟨hi, hout⟩ := List.forall_mem_cons.1 hquiet
    rw [textOf, List.flatMap_cons, ← List.append_assoc]
    refine ih (fun c hc => hplain c (List.mem_cons_of_mem i hc)) hout ?_
    cases i with
    | printed c => exact not_infix_snoc h (hplain c List.mem_cons_self).1
    | spliced x =>
      refine not_infix_append h (quiet_chars hi) fun c hc => ?_
      obtain rfl : '(' = c := Option.some.inj hc
      decide

/-- the characters behind the last line end -/
def openChars (out : List Item) : List Char := textOf (out.rtakeWhile isOpen)

theorem newline_not_mem_openChars (out : List Item) : '\n' ∉ openChars out := by
  intro h
  obtain ⟨i, hi, hc⟩ := List.mem_flatMap.1 h
  have hopen : isOpen i = true := List.mem_rtakeWhile_imp hi
  cases i with
  | printed c =>
    obtain rfl := List.mem_singleton.1 hc
    cases hopen
  | spliced x => cases hopen

theorem textOf_append (a b : List Item) : textOf (a ++ b) = textOf a ++ textOf b := List.flatMap_append

theorem not_infix_before (f : Frame) {out : List Item} (hplain : Plain out) :
    ¬ prompt <:+: f.echo ++ ['\n'] ++ textOf (out.takeWhile quiet) := by
  have hstart : ¬ prompt <:+: f.echo ++ ['\n'] := not_infix_snoc f.echo_quiet (by decide)
  have hquiet : ∀ i ∈ out.takeWhile quiet, quiet i = true := fun i hi => List.mem_takeWhile_imp hi
  exact not_infix_quiet (fun c hc => hplain c ((List.takeWhile_prefix quiet).subset hc)) hquiet hstart

theorem textOf_heard (out : List Item) : textOf (out.takeWhile quiet) = textOf (heard out) ++ openChars (out.takeWhile quiet) := by
  rw [openChars, ← textOf_append, heard, List.rdropWhile_append_rtakeWhile]

/-- behind what is heard one more line begins, and the leftmost prompt ends in it -/
structure Cut (f : Frame) (out : List Item) (tail more : List Char) : Prop where
  oneLine : '\n' ∉ tail
  chars : f.chars out = f.echo ++ '\n' :: (textOf (heard out) ++ tail) ++ (prompt ++ more)
  ahead : Ahead (f.echo ++ '\n' :: (textOf (heard out) ++ tail))

/-- where no line holds a prompt the shell's own ends the command -/
theorem cut_shell (f : Frame) {out : List Item} (hplain : Plain out) (hend : ∀ c ∈ (textOf out).getLast?, c ∉ prompt)
    (hwhole : out.takeWhile quiet = out) : Cut f out (openChars out ++ f.lead) [] := by
  have hopen := textOf_heard out
  have hbefore := not_infix_before f hplain
  rw [hwhole] at hopen hbefore
  have hlast : ∀ c ∈ (f.echo ++ ['\n'] ++ textOf out).getLast?, c ∉ prompt := by
    intro c hc
    rw [List.getLast?_append] at hc
    cases hlast : (textOf out).getLast? with
    | none =>
      rw [hlast, Option.none_or, List.getLast?_concat] at hc
      obtain rfl := Option.some.inj hc
      decide
    | some d =>
      rw [hlast] at hc
      exact hend c (hlast.trans hc)
  refine ⟨?_, ?_, ?_⟩
  · exact List.mem_append.not.2 (not_or.2 ⟨newline_not_mem_openChars out, f.lead_line⟩)
  · rw [Frame.chars, hopen]
    simp only [List.append_assoc, List.cons_append, List.append_nil]
  · have hahead := ahead_append hbefore hlast f.lead_ahead
    rw [hopen] at hahead
    simpa only [List.append_assoc, List.cons_append, List.nil_append] using hahead

/-- the first line that holds one ends it there -/
theorem cut_spliced (f : Frame) {out rest : List Item} (hplain : Plain out) {x : Spliced}
    (hdrop : out.dropWhile quiet = .spliced x :: rest) {u v : List Char} (htext : x.text = u ++ (prompt ++ v)) (hu : Ahead u) :
    Cut f out (openChars (out.takeWhile quiet) ++ (xenTag ++ u)) (v ++ '\n' :: (textOf rest ++ (f.lead ++ prompt))) := by
  have hopen := textOf_heard out
  have huline : '\n' ∉ u := fun h => x.oneLine (htext ▸ List.mem_append_left _ h)
  have hpre : ¬ prompt <:+: f.echo ++ ['\n'] ++ textOf (out.takeWhile quiet) ++ xenTag :=
    not_infix_append (not_infix_before f hplain) (by decide) fun c hc => by
      obtain rfl : '(' = c := Option.some.inj hc
      decide
  have hlast : ∀ c ∈ (f.echo ++ ['\n'] ++ textOf (out.takeWhile quiet) ++ xenTag).getLast?, c ∉ prompt := by
    intro c hc
    rw [List.getLast?_append_of_ne_nil _ (by decide)] at hc
    obtain rfl : ')' = c := Option.some.inj hc
    decide
  refine ⟨?_, ?_, ?_⟩
  · rw [List.mem_append, List.mem_append, not_or, not_or]
    exact ⟨newline_not_mem_openChars _, by decide, huline⟩
  · have hout : textOf out = textOf (heard out) ++ openChars (out.takeWhile quiet) ++
        (xenTag ++ (u ++ (prompt ++ v)) ++ ['\n'] ++ textOf rest) := by
      rw [← hopen, ← htext, ← Spliced.chars, ← Item.text, textOf, textOf, textOf, ← List.flatMap_cons, ← hdrop,
        ← List.flatMap_append, List.takeWhile_append_dropWhile]
    rw [Frame.chars, hout]
    simp only [List.append_assoc, List.cons_append, List.nil_append]
  · have hahead := ahead_append hpre hlast hu
    rw [hopen] at hahead
    simpa only [List.append_assoc, List.cons_append, List.nil_append] using hahead

/-- **Where `run` ends.** The leftmost prompt is in the first hypervisor line that holds one, or it is the shell's own. -/
theorem exists_cut (f : Frame) {out : List Item} (hplain : Plain out) (hend : ∀ c ∈ (textOf out).getLast?, c ∉ prompt) :
    ∃ tail more, Cut f out tail more := by
  cases hdrop : out.dropWhile quiet with
  | nil =>
    have hsplit := List.takeWhile_append_dropWhile (p := quiet) (l := out)
    rw [hdrop, List.append_nil] at hsplit
    exact ⟨_, _, cut_shell f hplain hend hsplit⟩
  | cons i rest =>
    have hi : quiet i = false := by
      have := List.head?_dropWhile_not quiet out
      rw [hdrop] at this
      simpa using this
    cases i with
    | printed c => cases hi
    | spliced x =>
      have hprompt : prompt <:+: x.text := by simpa [quiet, isQuiet] using hi
      obtain ⟨u, v, htext, hu⟩ := exists_ahead hprompt
      exact ⟨_, _, cut_spliced f hplain hdrop htext hu⟩

/-! ## The hypervisor lines among the items -/

def Item.splice : Item → Option Spliced
  | .printed _ => none
  | .spliced x => some x

def splices (out : List Item) : List Spliced := out.filterMap Item.splice

theorem splices_append (a b : List Item) : splices (a ++ b) = splices a ++ splices b := List.filterMap_append

theorem splices_takeWhile (out : List Item) : splices (out.takeWhile quiet) = (splices out).takeWhile isQuiet := by
  induction out with
  | nil => rfl
  | cons i out ih =>
    cases i with
    | printed c => exact ih
    | spliced x =>
      have hcons : ∀ l : List Item, splices (.spliced x :: l) = x :: splices l := fun l => List.filterMap_cons_some rfl
      rw [hcons, List.takeWhile_cons, List.takeWhile_cons, show quiet (.spliced x) = isQuiet x from rfl]
      split_ifs
      · rw [hcons, ih]
      · rfl

theorem splices_rdropWhile (out : List Item) : splices (out.rdropWhile isOpen) = splices out := by
  have hopen : splices (out.rtakeWhile isOpen) = [] := by
    refine List.filterMap_eq_nil_iff.2 fun i hi => ?_
    have := List.mem_rtakeWhile_imp hi
    cases i with
    | printed c => rfl
    | spliced x => cases this
  conv_rhs => rw [← List.rdropWhile_append_rtakeWhile (p := isOpen) (l := out), splices_append, hopen, List.append_nil]

theorem quiet_of_splices {out : List Item} (h : ∀ x ∈ splices out, isQuiet x = true) : ∀ i ∈ out, quiet i = true := by
  intro i hi
  cases i with
  | printed c => rfl
  | spliced x => exact h x (List.mem_filterMap.2 ⟨_, hi, rfl⟩)

/-! ## What is heard -/

theorem heard_begins (out : List Item) : heard out <+: out :=
  (List.rdropWhile_prefix isOpen _).trans (List.takeWhile_prefix quiet)

theorem splices_heard (out : List Item) : splices (heard out) = (splices out).takeWhile isQuiet := by
  rw [heard, splices_rdropWhile, splices_takeWhile]

theorem rdropWhile_open {a b : List Item} (h : ∀ i ∈ b, isOpen i = true) :
    (a ++ b).rdropWhile isOpen = a.rdropWhile isOpen := by
  induction b using List.reverseRecOn with
  | nil => rw [List.append_nil]
  | append_singleton b i ih =>
    rw [List.forall_mem_append, List.forall_mem_singleton] at h
    rw [← List.append_assoc, List.rdropWhile_concat_pos _ _ _ h.2, ih h.1]

theorem rdropWhile_ended {a b : List Item} (h : ∃ i ∈ b, isOpen i = false) :
    (a ++ b).rdropWhile isOpen = a ++ b.rdropWhile isOpen := by
  induction b using List.reverseRecOn with
  | nil =>
    obtain ⟨i, hi, -⟩ := h
    cases hi
  | append_singleton b i ih =>
    rw [← List.append_assoc]
    by_cases hi : isOpen i = true
    · rw [List.rdropWhile_concat_pos _ _ _ hi, List.rdropWhile_concat_pos _ _ _ hi]
      obtain ⟨j, hj, hopen⟩ := h
      rcases List.mem_append.1 hj with hj | hj
      · exact ih ⟨j, hj, hopen⟩
      · rw [List.mem_singleton.1 hj, hi] at hopen
        cases hopen
    · rw [List.rdropWhile_concat_neg _ _ _ hi, List.rdropWhile_concat_neg _ _ _ hi, List.append_assoc]

theorem takeWhile_quiet_append {a b : List Item} (h : ∀ x ∈ splices a, isQuiet x = true) :
    (a ++ b).takeWhile quiet = a ++ b.takeWhile quiet := List.takeWhile_append_of_pos (quiet_of_splices h)

theorem takeWhile_quiet_stop {a b : List Item} (h : ∃ x ∈ splices a, isQuiet x = false) :
    (a ++ b).takeWhile quiet = a.takeWhile quiet := by
  obtain ⟨x, hx, hnot⟩ := h
  rw [List.takeWhile_append, if_neg]
  intro hall
  have heq : a.takeWhile quiet = a := (List.takeWhile_prefix quiet).eq_of_length hall
  have := List.takeWhile_eq_self_iff.1 heq
  obtain ⟨i, hi, hsplice⟩ := List.mem_filterMap.1 hx
  cases i with
  | printed c => cases hsplice
  | spliced y =>
    obtain rfl := Option.some.inj hsplice
    rw [← Bool.not_eq_true] at hnot
    exact hnot (this _ hi)

/-- without a prompt in the first part, ended by a line end, the second goes on from there -/
theorem heard_append {a b : List Item} (hquiet : ∀ x ∈ splices a, isQuiet x = true) (hself : a.rdropWhile isOpen = a) :
    heard (a ++ b) = a ++ heard b := by
  rw [heard, takeWhile_quiet_append hquiet]
  by_cases hended : ∃ i ∈ b.takeWhile quiet, isOpen i = false
  · rw [rdropWhile_ended hended, heard]
  · have hopen : ∀ i ∈ b.takeWhile quiet, isOpen i = true := fun i hi => eq_true_of_ne_false fun h => hended ⟨i, hi, h⟩
    rw [rdropWhile_open hopen, hself, heard, List.rdropWhile_eq_nil_iff.2 hopen, List.append_nil]

theorem heard_whole {a : List Item} (hquiet : ∀ x ∈ splices a, isQuiet x = true) (hself : a.rdropWhile isOpen = a) :
    heard a = a := by
  rw [heard, List.takeWhile_eq_self_iff.2 (quiet_of_splices hquiet), hself]

/-- behind a prompt nothing is -/
theorem heard_stop {a b : List Item} (h : ∃ x ∈ splices a, isQuiet x = false) : heard (a ++ b) = heard a := by
  rw [heard, takeWhile_quiet_stop h, heard]

/-! ## What the output is read as -/

theorem bare_newline {a : List Char} (ha : '\n' ∉ a) (b : List Char) : bare (a ++ '\n' :: b) = bare a ++ '\n' :: bare b := by
  rw [bare, stripAnsi_newline ha, List.filter_append, List.filter_cons_of_pos (by decide)]
  rfl

theorem bare_keep {c : Char} (hc : c ≠ '\x1b') (rest : List Char) :
    bare (c :: rest) = (if c = '\r' then [] else [c]) ++ bare rest := by
  rw [bare, stripAnsi_keep hc, List.filter_cons]
  by_cases h : c = '\r' <;> simp [h, bare]

theorem bare_spliced (x : Spliced) (rest : List Char) : bare (x.chars ++ rest) = (cleaned x).chars ++ bare rest := by
  have htag : ∀ cs : List Char, bare (xenTag ++ cs) = xenTag ++ bare cs := fun cs => by
    rw [bare, stripAnsi_sprinkled (.refl xenTag) (by decide), List.filter_append]
    rfl
  rw [Spliced.chars, List.append_assoc, List.append_assoc, htag, List.singleton_append, bare_newline x.oneLine, Spliced.chars]
  simp only [cleaned, List.append_assoc, List.cons_append, List.nil_append]

theorem bare_textOf {out : List Item} (hplain : Plain out) (rest : List Char) :
    bare (textOf out ++ rest) = cleanedText out ++ bare rest := by
  induction out with
  | nil => rfl
  | cons i out ih =>
    have hout := ih fun c hc => hplain c (List.mem_cons_of_mem i hc)
    rw [textOf, List.flatMap_cons, List.append_assoc, ← textOf, cleanedText, List.flatMap_cons, List.append_assoc,
      ← cleanedText, ← hout]
    cases i with
    | printed c => exact bare_keep (hplain c List.mem_cons_self).2 _
    | spliced x => exact bare_spliced x _

/-- what is heard ends a line -/
theorem cleanedText_heard_ended (out : List Item) :
    cleanedText (heard out) = [] ∨ (cleanedText (heard out)).getLast? = some '\n' := by
  by_cases hnil : heard out = []
  · rw [hnil]
    exact Or.inl rfl
  · have hlast : ¬ isOpen ((heard out).getLast hnil) = true := List.rdropWhile_last_not _ _ hnil
    right
    rw [← List.dropLast_append_getLast hnil, cleanedText, List.flatMap_append, List.flatMap_singleton]
    cases hi : (heard out).getLast hnil with
    | printed c =>
      rw [hi] at hlast
      obtain rfl : c = '\n' := by simpa [isOpen] using hlast
      exact List.getLast?_concat
    | spliced x => rw [Item.cleaned, Spliced.chars, ← List.append_assoc, List.getLast?_concat]

/-- **What is heard.** A command that returns has returned what was printed up to the last line end before the leftmost
prompt, without terminal sequences, carriage returns and outer blanks. -/
theorem run_heard {commandTimeout : Time} {vm vm' : Vm} {c : Command} {f : Frame} {out : List Item} {rest : Bytes}
    {o : List Char} (hplain : Plain out) (hend : ∀ c ∈ (textOf out).getLast?, c ∉ prompt)
    (hbytes : vm'.reader.serialBuf.drop vm.cursor <+: encodeChars (f.chars out) ++ rest)
    (hrun : run commandTimeout vm c = (vm', .printed o)) : o = strip (cleanedText (heard out)) := by
  obtain ⟨tail, more, htail, hchars, hahead⟩ := exists_cut f hplain hend
  have hspec := (run_spec commandTimeout vm c).2
  rw [hrun] at hspec
  obtain ⟨slice, hout, -, hcut⟩ := hspec
  have hslice := cut_extend hbytes hcut
  rw [hchars, ← List.append_assoc, encodeChars_append, List.append_assoc, cut_prompt hahead] at hslice
  obtain ⟨rfl, -⟩ := Prod.mk.inj (Option.some.inj hslice)
  have hheard : Plain (heard out) := fun c hc => hplain c ((heard_begins out).subset hc)
  have hbare : bare (f.echo ++ '\n' :: (textOf (heard out) ++ tail) ++ prompt) =
      bare f.echo ++ '\n' :: (cleanedText (heard out) ++ bare (tail ++ prompt)) := by
    rw [List.append_assoc, List.cons_append, List.append_assoc, bare_newline f.echo_line, bare_textOf hheard]
  have hlast : '\n' ∉ bare (tail ++ prompt) :=
    newline_not_mem_bare (List.mem_append.not.2 (not_or.2 ⟨htail, by decide⟩))
  rw [hout, decodeReplace_encodeChars, commandOutput, ← bare, hbare]
  exact middle_lines (newline_not_mem_bare f.echo_line) hlast (cleanedText_heard_ended out)

/-! ## Carriage returns -/

def isReturn : Item → Bool
  | .printed c => c = '\r'
  | .spliced _ => false

/-- the output without its carriage returns -/
def dropReturns (out : List Item) : List Item := out.filter fun i => !isReturn i

theorem dropReturns_return {i : Item} (h : isReturn i = true) (out : List Item) : dropReturns (i :: out) = dropReturns out := by
  rw [dropReturns, List.filter_cons, h]
  rfl

theorem dropReturns_other {i : Item} (h : isReturn i = false) (out : List Item) :
    dropReturns (i :: out) = i :: dropReturns out := by
  rw [dropReturns, List.filter_cons, h]
  rfl

theorem dropReturns_append (a b : List Item) : dropReturns (a ++ b) = dropReturns a ++ dropReturns b := List.filter_append ..

theorem return_cases (i : Item) : i = .printed '\r' ∨ isReturn i = false := by
  cases i with
  | printed c =>
    by_cases hc : c = '\r'
    · exact Or.inl (congrArg Item.printed hc)
    · exact Or.inr (decide_eq_false hc)
  | spliced x => exact Or.inr rfl

theorem cleanedText_dropReturns (out : List Item) : cleanedText (dropReturns out) = cleanedText out := by
  induction out with
  | nil => rfl
  | cons i out ih =>
    rcases return_cases i with rfl | hi
    · rw [dropReturns_return rfl, ih]
      rfl
    · rw [dropReturns_other hi, cleanedText, List.flatMap_cons, ← cleanedText, ih, cleanedText, cleanedText, List.flatMap_cons]

theorem takeWhile_dropReturns (out : List Item) : (dropReturns out).takeWhile quiet = dropReturns (out.takeWhile quiet) := by
  induction out with
  | nil => rfl
  | cons i out ih =>
    rcases return_cases i with rfl | hi
    · rw [dropReturns_return rfl, List.takeWhile_cons_of_pos rfl, dropReturns_return rfl, ih]
    · rw [dropReturns_other hi, List.takeWhile_cons, List.takeWhile_cons]
      split_ifs
      · rw [dropReturns_other hi, ih]
      · rfl

theorem rdropWhile_dropReturns (out : List Item) :
    (dropReturns out).rdropWhile isOpen = dropReturns (out.rdropWhile isOpen) := by
  induction out using List.reverseRecOn with
  | nil => rfl
  | append_singleton out i ih =>
    have hnil : dropReturns [] = [] := rfl
    rw [dropReturns_append]
    rcases return_cases i with rfl | hi
    · rw [dropReturns_return rfl, List.rdropWhile_concat_pos _ _ _ rfl, ← ih, hnil, List.append_nil]
    · rw [dropReturns_other hi, hnil, List.rdropWhile_concat, List.rdropWhile_concat]
      split_ifs
      · exact ih
      · rw [dropReturns_append, dropReturns_other hi]
        rfl

theorem cleanedText_heard_dropReturns (out : List Item) : cleanedText (heard (dropReturns out)) = cleanedText (heard out) := by
  rw [heard, takeWhile_dropReturns, rdropWhile_dropReturns, cleanedText_dropReturns, heard]

end DrtmTest.SharedPort
